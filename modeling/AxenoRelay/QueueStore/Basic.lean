/-
  `queue_store.rs`: the durable per-mailbox queues.

  The table ENVELOPES maps "<mailbox>:<uuid>" to a `StoredValue` (`serde_json`
  taken as an exact round trip, redb as a map in key order whose calls can fail).
  Beside it the store keeps three things in RAM: the byte total, the sequence
  counter and the per-mailbox index. `new` rebuilds all three by a scan.

  Each call is written from its atomic pieces (one transaction, one counter or
  index update each), so that `QueueStore.Tasks` can interleave the same pieces.
-/
import AxenoRelay.Lib.OrdMap
import AxenoRelay.Lib.Txn
import AxenoRelay.Protocol

namespace AxenoRelay

/-- The value stored for an envelope: type, ciphertext, enqueue time, sequence. -/
structure StoredValue where
  t : String
  c : String
  q : Nat
  s : Nat
  deriving DecidableEq, Repr

/-- The table ENVELOPES. -/
abbrev Envelopes := OrdMap String StoredValue

structure QueueStore where
  envelopes : Envelopes
  totalBytes : Nat
  nextSeq : Nat
  index : OrdMap String (Nat × Nat)

section Keys

variable {U : Type} [UuidText U]

def keyFor (mailbox : String) (id : U) : String := mailbox ++ ":" ++ UuidText.display id

/-- Inclusive-exclusive bounds of one mailbox's keys. -/
def mailboxBounds (mailbox : String) : String × String := (mailbox ++ ":", mailbox ++ ";")

def parseMailbox (key : String) : Option String := (SepKey.splitOnce ':' key).map Prod.fst

def parseId (U : Type) [UuidText U] (key : String) : Option U :=
  (SepKey.splitOnce ':' key).bind fun p => UuidText.parseStr p.2

end Keys

/-! ## Opening -/

/-- Count a row for its mailbox: one more row, and its bytes. `scan_totals` and
    `sweep_expired` both keep such a map. -/
def countRow (acc : OrdMap String (Nat × Nat)) (e : String × StoredValue) :
    OrdMap String (Nat × Nat) :=
  match parseMailbox e.1 with
  | none => acc
  | some mailbox =>
    let old := (acc.get mailbox).getD (0, 0)
    acc.insert mailbox (old.1 + 1, old.2 + len e.2.c)

/-- One row of `scan_totals`: total, largest sequence and index so far. -/
def scanEntry (acc : Nat × Nat × OrdMap String (Nat × Nat)) (e : String × StoredValue) :
    Nat × Nat × OrdMap String (Nat × Nat) :=
  (acc.1 + len e.2.c, max acc.2.1 e.2.s, countRow acc.2.2 e)

def scanTotals (t : Envelopes) : Nat × Nat × OrdMap String (Nat × Nat) :=
  t.entries.foldl scanEntry (0, 0, OrdMap.empty)

/-- The store `QueueStore::new` builds over a table. -/
def QueueStore.ofTable (t : Envelopes) : QueueStore :=
  let r := scanTotals t
  { envelopes := t, totalBytes := r.1, nextSeq := r.2.1 + 1, index := r.2.2 }

/-- `QueueStore::new`: a write transaction that opens the table, then the scan. -/
def QueueStore.new : Txn DbError Envelopes QueueStore := do
  Txn.touch .db
  Txn.touch .db
  Txn.touch .db
  Txn.touch .db
  Txn.touch .db
  let t ← Txn.read .db id
  Txn.each (fun _ => Txn.touch .db) t.entries
  pure (QueueStore.ofTable t)

namespace QueueStore

/-! ## Reading -/

def wouldExceedGlobal (st : QueueStore) (incomingLen : Nat) : Bool :=
  decide (globalQueueDiskCapBytes < st.totalBytes + incomingLen)

section

variable {U : Type} [UuidText U]

/-- A mailbox's rows with their ids, in key order. -/
def mailboxRows (U : Type) [UuidText U] (mailbox : String) (t : Envelopes) :
    List (U × StoredValue) :=
  (t.range (mailboxBounds mailbox).1 (mailboxBounds mailbox).2).filterMap fun e =>
    (parseId U e.1).map fun id => (id, e.2)

/-- `sort_by_key` on the sequence, which is a stable sort. -/
def sortBySeq (l : List (U × StoredValue)) : List (U × StoredValue) :=
  l.insertionSort fun a b => a.2.s ≤ b.2.s

/-- `read_mailbox`: a mailbox's entries, oldest first. -/
def readMailbox (U : Type) [UuidText U] (mailbox : String) :
    Txn DbError Envelopes (List (U × StoredValue)) := do
  let (lo, hi) := mailboxBounds mailbox
  Txn.touch .db
  Txn.touch .db
  let t ← Txn.read .db id
  Txn.each (fun _ => Txn.touch .db) (t.range lo hi)
  pure (sortBySeq (mailboxRows U mailbox t))

def toEnvelope (mailbox : String) (e : U × StoredValue) : StoredEnvelope U :=
  { id := e.1, toId := mailbox, envelopeType := e.2.t, ciphertext := e.2.c }

/-- `flush`: the queued envelopes, oldest first; nothing is deleted. -/
def flush (U : Type) [UuidText U] (mailbox : String) :
    Txn DbError Envelopes (List (StoredEnvelope U)) := do
  let entries ← readMailbox U mailbox
  pure (entries.map (toEnvelope mailbox))

end

/-- `is_empty`: whether the range has a first item; an item that cannot be read counts. -/
def isEmpty (mailbox : String) : Txn DbError Envelopes Bool := do
  let (lo, hi) := mailboxBounds mailbox
  Txn.touch .db
  Txn.touch .db
  let t ← Txn.read .db id
  let readable ← Txn.attempt
  pure (readable && (t.range lo hi).isEmpty)

/-! ## `enqueue` -/

/-- `next_seq.fetch_add(1)`: the sequence taken. -/
def takeSeq (st : QueueStore) : Nat × QueueStore :=
  (st.nextSeq, { st with nextSeq := st.nextSeq + 1 })

/-- A mailbox's index entry, `(0, 0)` if it has none. -/
def indexOf (st : QueueStore) (mailbox : String) : Nat × Nat :=
  (st.index.get mailbox).getD (0, 0)

def needsEviction (cur : Nat × Nat) (incomingLen : Nat) : Bool :=
  decide (maxQueuePerRecipient < cur.1 + 1) || decide (perMailboxQueueBytes < cur.2 + incomingLen)

def rowBytes {U : Type} (l : List (U × StoredValue)) : Nat := (l.map fun e => len e.2.c).sum

section

variable {U : Type} [UuidText U]

/-- The eviction loop over the rows not yet looked at, with `c` rows and `b` bytes
    left: the ids to evict and their bytes. -/
def evictLoop (incomingLen : Nat) : List (U × StoredValue) → Nat → Nat → List U × Nat
  | [], _, _ => ([], 0)
  | e :: rest, c, b =>
    if maxQueuePerRecipient < c + 1 ∨ perMailboxQueueBytes < b + incomingLen then
      let r := evictLoop incomingLen rest (c - 1) (b - len e.2.c)
      (e.1 :: r.1, len e.2.c + r.2)
    else ([], 0)

def chooseVictims (incomingLen : Nat) (existing : List (U × StoredValue)) : List U × Nat :=
  evictLoop incomingLen existing existing.length (rowBytes existing)

/-- The write transaction of `enqueue`. -/
def enqueueTxn (mailbox : String) (id : U) (value : StoredValue) (evictIds : List U) :
    Txn DbError Envelopes Unit := do
  Txn.touch .db
  Txn.touch .db
  Txn.each (fun v => Txn.modify .db fun t => t.erase (keyFor mailbox v)) evictIds
  Txn.modify .db fun t => t.insert (keyFor mailbox id) value
  Txn.touch .db

def addTotal (st : QueueStore) (n : Nat) : QueueStore := { st with totalBytes := st.totalBytes + n }

def subTotal (st : QueueStore) (n : Nat) : QueueStore :=
  { st with totalBytes := atomicSubSaturating st.totalBytes n }

/-- The index update of `enqueue`. -/
def indexEnqueue (st : QueueStore) (mailbox : String) (evicted evictBytes incomingLen : Nat) :
    QueueStore :=
  let e := st.indexOf mailbox
  { st with
    index := st.index.insert mailbox (e.1 - evicted + 1, e.2 - evictBytes + incomingLen) }

def storedValue (now seq : Nat) (env : StoredEnvelope U) : StoredValue :=
  { t := env.envelopeType, c := env.ciphertext, q := now, s := seq }

/-- What `enqueue` evicts: the index decides whether the mailbox is read at all. -/
def selectVictims (U : Type) [UuidText U] (rf : Faults) (mailbox : String) (incomingLen : Nat)
    (st : QueueStore) : Except DbError (List U × Nat) :=
  if needsEviction (st.indexOf mailbox) incomingLen then
    match ((readMailbox U mailbox).commit rf st.envelopes).1 with
    | .error e => .error e
    | .ok existing => .ok (chooseVictims incomingLen existing)
  else .ok ([], 0)

/-- `enqueue`; `rf` and `wf` are the failures of its read and its write transaction. -/
def enqueue (now : Nat) (rf wf : Faults) (mailbox : String) (env : StoredEnvelope U)
    (st : QueueStore) : Except DbError Nat × QueueStore :=
  let incomingLen := len env.ciphertext
  let seq := st.takeSeq.1
  let st := st.takeSeq.2
  let value := storedValue now seq env
  match selectVictims U rf mailbox incomingLen st with
  | .error e => (.error e, st)
  | .ok (evictIds, evictBytes) =>
    match (enqueueTxn mailbox env.id value evictIds).commit wf st.envelopes with
    | (.error e, _) => (.error e, st)
    | (.ok (), t) =>
      let st := ({ st with envelopes := t }.addTotal incomingLen).subTotal evictBytes
      (.ok evictIds.length, st.indexEnqueue mailbox evictIds.length evictBytes incomingLen)

/-! ## `ack` -/

/-- One id of `ack`: rows removed and bytes freed so far. -/
def ackOne (mailbox : String) (acc : Nat × Nat) (id : U) : Txn DbError Envelopes (Nat × Nat) := do
  let v ← Txn.read .db fun t => t.get (keyFor mailbox id)
  let freed := acc.2 + v.elim 0 fun val => len val.c
  let old ← Txn.call .db fun t => (t.get (keyFor mailbox id), t.erase (keyFor mailbox id))
  pure (if old.isSome then acc.1 + 1 else acc.1, freed)

/-- The transaction of `ack`: rows removed and bytes freed. -/
def ackTxn (mailbox : String) (ids : List U) : Txn DbError Envelopes (Nat × Nat) := do
  Txn.touch .db
  Txn.touch .db
  let r ← Txn.fold (ackOne mailbox) (0, 0) ids
  Txn.touch .db
  pure r

end

/-- `index.get_mut`: subtract from a mailbox's entry, if it has one. -/
def indexSub (st : QueueStore) (mailbox : String) (count bytes : Nat) : QueueStore :=
  match st.index.get mailbox with
  | none => st
  | some e => { st with index := st.index.insert mailbox (e.1 - count, e.2 - bytes) }

def ack {U : Type} [UuidText U] (fs : Faults) (mailbox : String) (ids : List U) (st : QueueStore) :
    Except DbError Nat × QueueStore :=
  if ids.isEmpty then (.ok 0, st)
  else
    match (ackTxn mailbox ids).commit fs st.envelopes with
    | (.error e, _) => (.error e, st)
    | (.ok (removed, freed), t) =>
      let st := { st with envelopes := t }.subTotal freed
      (.ok removed, if 0 < removed then st.indexSub mailbox removed freed else st)

/-! ## `purge_mailbox` -/

/-- The transaction of `purge_mailbox`: rows removed and bytes freed. -/
def purgeTxn (mailbox : String) : Txn DbError Envelopes (Nat × Nat) := do
  let (lo, hi) := mailboxBounds mailbox
  Txn.touch .db
  Txn.touch .db
  let t ← Txn.read .db id
  let rows := t.range lo hi
  Txn.each (fun _ => Txn.touch .db) rows
  Txn.each (fun e => Txn.modify .db fun t => t.erase e.1) rows
  Txn.touch .db
  pure (rows.length, (rows.map fun e => len e.2.c).sum)

def indexRemove (st : QueueStore) (mailbox : String) : QueueStore :=
  { st with index := st.index.erase mailbox }

def purgeMailbox (fs : Faults) (mailbox : String) (st : QueueStore) :
    Except DbError Nat × QueueStore :=
  match (purgeTxn mailbox).commit fs st.envelopes with
  | (.error e, _) => (.error e, st)
  | (.ok (n, freed), t) => (.ok n, ({ st with envelopes := t }.subTotal freed).indexRemove mailbox)

/-! ## `sweep_expired` -/

/-- Rows queued before this time are expired at clock `now`. -/
def cutoff (now : Nat) : Nat := now - queueTtlMs

/-- The rows older than the TTL at clock `now`. -/
def expiredRows (now : Nat) (t : Envelopes) : List (String × StoredValue) :=
  t.entries.filter fun e => decide (e.2.q < cutoff now)

/-- The transaction of `sweep_expired`: rows removed, bytes freed, and both per mailbox. -/
def sweepTxn (now : Nat) : Txn DbError Envelopes (Nat × Nat × OrdMap String (Nat × Nat)) := do
  Txn.touch .db
  Txn.touch .db
  let t ← Txn.read .db id
  Txn.each (fun _ => Txn.touch .db) t.entries
  let rows := expiredRows now t
  Txn.each (fun e => Txn.modify .db fun t => t.erase e.1) rows
  Txn.touch .db
  pure (rows.length, (rows.map fun e => len e.2.c).sum, rows.foldl countRow OrdMap.empty)

def sweepExpired (now : Nat) (fs : Faults) (st : QueueStore) : Except DbError Nat × QueueStore :=
  match (sweepTxn now).commit fs st.envelopes with
  | (.error e, _) => (.error e, st)
  | (.ok (n, freed, perMailbox), t) =>
    let st := { st with envelopes := t }.subTotal freed
    (.ok n, perMailbox.entries.foldl (fun st e => st.indexSub e.1 e.2.1 e.2.2) st)

end QueueStore

end AxenoRelay
