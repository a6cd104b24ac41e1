/-
  `file_store.rs`: the chunked file store.

  redb holds two tables, FILE_META and FILE_CHUNKS; RAM holds a cache of the first
  and two counters. As in `QueueStore.Basic` the calls are written as their atomic
  pieces: the cache-entry claim, the slot reservation, the write transaction with
  the byte reservation inside it, the release and the cache mirror after it, and
  the pieces of `delete_transfer`. `FileStore.Tasks` puts them in the source's order.

  `transfer_count.fetch_sub` wraps at 0, and so does the unchecked subtraction in
  `write_chunk`; both are written out (`fetchSubOne`, `wrapSub`).
-/
import AxenoRelay.Lib.OrdMap
import AxenoRelay.Lib.Txn
import AxenoRelay.Protocol

namespace AxenoRelay

/-- Decoded chunk ciphertext. -/
abbrev Chunk := List UInt8

structure FileMeta where
  totalChunks : Nat
  totalBytes : Nat
  storedBytes : Nat
  receivedChunks : Nat
  createdAtMs : Nat
  deriving DecidableEq, Repr

inductive FileReject where
  | tooLarge
  | full
  | badRequest
  | notFound
  deriving DecidableEq, Repr

namespace FileReject

def code : FileReject → String
  | tooLarge => "file_too_large"
  | full => "relay_full"
  | badRequest => "bad_request"
  | notFound => "not_found"

def message : FileReject → String
  | tooLarge => "file exceeds this relay's size limit"
  | full => "relay file storage is full"
  | badRequest => "malformed file transfer request"
  | notFound => "file transfer not found or expired"

end FileReject

structure StoredChunk where
  receivedChunks : Nat
  totalChunks : Nat
  deriving DecidableEq, Repr

structure FetchedChunk where
  data : Chunk
  totalChunks : Nat
  totalBytes : Nat
  deriving DecidableEq, Repr

/-- The two tables of one database file. -/
structure FileTables where
  fileMeta : OrdMap String FileMeta
  chunks : OrdMap String Chunk
  deriving DecidableEq

structure FileStore where
  config : FileConfig
  tables : FileTables
  cache : OrdMap String FileMeta
  reservedBytes : Nat
  transferCount : Nat
  deriving DecidableEq

def chunkKey (transferId : String) (chunkIndex : Nat) : String :=
  transferId ++ ":" ++ toString chunkIndex

def chunkBounds (transferId : String) : String × String := (transferId ++ ":", transferId ++ ";")

/-- The arguments of `store_chunk`. -/
structure ChunkUpload where
  transferId : String
  chunkIndex : Nat
  totalChunks : Nat
  totalBytes : Nat
  data : Chunk
  deriving DecidableEq, Repr

/-- 64-bit subtraction without an overflow check. -/
def wrapSub (a b : Nat) : Nat := if b ≤ a then a - b else 2 ^ 64 + a - b

/-- `fetch_sub(1)`. -/
def fetchSubOne (n : Nat) : Nat := if n = 0 then 2 ^ 64 - 1 else n - 1

namespace FileStore

/-! ## Opening -/

/-- The store `FileStore::new` builds over the tables. -/
def ofTables (cfg : FileConfig) (t : FileTables) : FileStore :=
  { config := cfg
    tables := t
    cache := t.fileMeta
    reservedBytes := t.fileMeta.sum fun _ m => m.storedBytes
    transferCount := t.fileMeta.size }

/-- `FileStore::new`: a write transaction that opens the tables, then the scan. -/
def new (cfg : FileConfig) : Txn DbError FileTables FileStore := do
  Txn.touch .db
  Txn.touch .db
  Txn.touch .db
  Txn.touch .db
  Txn.touch .db
  Txn.touch .db
  let t ← Txn.read .db id
  Txn.each (fun _ => Txn.touch .db) t.fileMeta.entries
  pure (ofTables cfg t)

/-! ## The counters -/

def reserveSlot (st : FileStore) : Except FileReject FileStore :=
  if st.config.maxTransfers ≤ st.transferCount then .error .full
  else .ok { st with transferCount := st.transferCount + 1 }

def tryReserveBytes (st : FileStore) (amount : Nat) : Except FileReject FileStore :=
  if st.config.maxTotalFileBytes < st.reservedBytes + amount then .error .full
  else .ok { st with reservedBytes := st.reservedBytes + amount }

def releaseSlot (st : FileStore) : FileStore :=
  { st with transferCount := fetchSubOne st.transferCount }

def releaseBytes (st : FileStore) (amount : Nat) : FileStore :=
  { st with reservedBytes := st.reservedBytes - amount }

/-! ## `store_chunk` -/

/-- The shape validation at the start of `store_chunk`. -/
def checkShape (cfg : FileConfig) (u : ChunkUpload) : Except FileReject Unit :=
  if u.data.isEmpty ∨ u.totalChunks = 0 ∨ cfg.maxChunks < u.totalChunks ∨
      u.totalChunks ≤ u.chunkIndex then .error .badRequest
  else if u.totalBytes = 0 ∨ cfg.maxFileBytes < u.totalBytes then .error .tooLarge
  else .ok ()

/-- The metadata a transfer starts with. -/
def freshMeta (now : Nat) (u : ChunkUpload) : FileMeta :=
  { totalChunks := u.totalChunks
    totalBytes := u.totalBytes
    storedBytes := 0
    receivedChunks := 0
    createdAtMs := now }

/-- The cache-entry claim: whether this call creates the transfer. -/
def claim (now : Nat) (u : ChunkUpload) (st : FileStore) : Except FileReject Bool × FileStore :=
  match st.cache.get u.transferId with
  | some m =>
    if m.totalChunks ≠ u.totalChunks ∨ m.totalBytes ≠ u.totalBytes then (.error .badRequest, st)
    else (.ok false, st)
  | none =>
    if u.chunkIndex ≠ 0 then (.error .notFound, st)
    else (.ok true, { st with cache := st.cache.insert u.transferId (freshMeta now u) })

/-- `meta.remove`. -/
def uncache (st : FileStore) (transferId : String) : FileStore :=
  { st with cache := st.cache.erase transferId }

/-- The metadata a write starts from: fresh for a creation, else the record on disk. -/
def baseMeta (now : Nat) (creating : Bool) (u : ChunkUpload) :
    Txn FileReject FileTables FileMeta :=
  if creating then pure (freshMeta now u)
  else do
    match ← Txn.read .full fun t => t.fileMeta.get u.transferId with
    | some m => pure m
    | none => Txn.fail .notFound

/-- Length of the chunk already stored at this index, 0 if there is none. -/
def prevLen (u : ChunkUpload) (t : FileTables) : Nat :=
  ((t.chunks.get (chunkKey u.transferId u.chunkIndex)).map List.length).getD 0

def newStored (m : FileMeta) (prev : Nat) (u : ChunkUpload) : Nat :=
  wrapSub m.storedBytes prev + u.data.length

/-- The write closure up to the byte reservation: the metadata and the previous length. -/
def prepareWrite (cfg : FileConfig) (now : Nat) (creating : Bool) (u : ChunkUpload) :
    Txn FileReject FileTables (FileMeta × Nat) := do
  Txn.touch .full
  Txn.touch .full
  Txn.touch .full
  let m ← baseMeta now creating u
  let prev ← Txn.read .full (prevLen u)
  if m.totalBytes < newStored m prev u ∨ cfg.maxFileBytes < newStored m prev u then
    Txn.fail .badRequest
  else pure (m, prev)

/-- The metadata after the chunk. -/
def grownMeta (m : FileMeta) (prev : Nat) (u : ChunkUpload) : FileMeta :=
  { m with
    storedBytes := newStored m prev u
    receivedChunks := if prev = 0 then m.receivedChunks + 1 else m.receivedChunks }

/-- The write closure after the reservation, and the commit. -/
def insertChunk (m : FileMeta) (u : ChunkUpload) : Txn FileReject FileTables Unit := do
  Txn.modify .full fun t =>
    { t with chunks := t.chunks.insert (chunkKey u.transferId u.chunkIndex) u.data }
  Txn.modify .full fun t => { t with fileMeta := t.fileMeta.insert u.transferId m }
  Txn.touch .full

/-- What a committed write leaves to do: the values to mirror, and the bytes to release. -/
structure Written where
  receivedChunks : Nat
  storedBytes : Nat
  createdAtMs : Nat
  release : Nat
  deriving DecidableEq, Repr

/-- The write transaction of `write_chunk`, with the byte reservation inside it. -/
def writeTxn (now : Nat) (fs : Faults) (creating : Bool) (u : ChunkUpload) (st : FileStore) :
    Except FileReject Written × FileStore :=
  match prepareWrite st.config now creating u st.tables fs with
  | .error e => (.error e, st)
  | .ok ((m, prev), t, fs) =>
    let reserved := if prev < u.data.length then st.tryReserveBytes (u.data.length - prev)
      else .ok st
    match reserved with
    | .error e => (.error e, st)
    | .ok st' =>
      match (insertChunk (grownMeta m prev u) u).commit fs t with
      | (.error e, _) =>
        (.error e, if prev < u.data.length then st'.releaseBytes (u.data.length - prev) else st')
      | (.ok (), t) =>
        (.ok { receivedChunks := (grownMeta m prev u).receivedChunks
               storedBytes := (grownMeta m prev u).storedBytes
               createdAtMs := (grownMeta m prev u).createdAtMs
               release := prev - u.data.length }, { st' with tables := t })

/-- The cache mirror after the commit. -/
def mirror (u : ChunkUpload) (w : Written) (st : FileStore) : FileStore :=
  let e := (st.cache.get u.transferId).getD
    { totalChunks := u.totalChunks
      totalBytes := u.totalBytes
      storedBytes := w.storedBytes
      receivedChunks := w.receivedChunks
      createdAtMs := w.createdAtMs }
  let e := if e.receivedChunks ≤ w.receivedChunks then
    { e with storedBytes := w.storedBytes, receivedChunks := w.receivedChunks } else e
  { st with cache := st.cache.insert u.transferId e }

/-! ## `fetch_chunk` -/

/-- The cache lookup of `fetch_chunk`. -/
def fetchShape (transferId : String) (chunkIndex : Nat) (st : FileStore) :
    Except FileReject FileMeta :=
  match st.cache.get transferId with
  | none => .error .notFound
  | some m => if m.totalChunks ≤ chunkIndex then .error .badRequest else .ok m

/-- The read transaction of `fetch_chunk`. -/
def fetchTxn (transferId : String) (chunkIndex : Nat) (m : FileMeta) :
    Txn FileReject FileTables FetchedChunk := do
  Txn.touch .notFound
  Txn.touch .notFound
  match ← Txn.read .notFound fun t => t.chunks.get (chunkKey transferId chunkIndex) with
  | some v => pure { data := v, totalChunks := m.totalChunks, totalBytes := m.totalBytes }
  | none => Txn.fail .notFound

/-! ## `delete_transfer` and `sweep_expired` -/

/-- The items of a range that could be read: `lost` says which are skipped. -/
def readable {α : Type} : Faults → List α → List α
  | true :: lost, _ :: l => readable lost l
  | _ :: lost, a :: l => a :: readable lost l
  | [], l => l
  | _, [] => []

/-- The transaction of `delete_transfer`: the bytes held by the record, if there was one. -/
def deleteTxn (lost : Faults) (transferId : String) : Txn DbError FileTables (Option Nat) := do
  let (lo, hi) := chunkBounds transferId
  Txn.touch .db
  Txn.touch .db
  let m ← Txn.read .db fun t => t.fileMeta.get transferId
  Txn.modify .db fun t => { t with fileMeta := t.fileMeta.erase transferId }
  Txn.touch .db
  let rows ← Txn.read .db fun t => t.chunks.range lo hi
  Txn.each (fun k => Txn.modify .db fun t => { t with chunks := t.chunks.erase k })
    ((readable lost rows).map Prod.fst)
  Txn.touch .db
  pure (m.map FileMeta.storedBytes)

/-- Does a cached transfer count as expired at clock `now`? -/
def expired (cfg : FileConfig) (now : Nat) (m : FileMeta) : Bool :=
  let fullCutoff := now - cfg.fileTtlMs
  let incompleteCutoff := now - min incompleteFileTtlMs cfg.fileTtlMs
  let cutoff := if m.totalChunks ≤ m.receivedChunks then fullCutoff else incompleteCutoff
  decide (m.createdAtMs < cutoff)

def expiredIds (now : Nat) (st : FileStore) : List String :=
  (st.cache.entries.filter fun e => expired st.config now e.2).map Prod.fst

end FileStore

end AxenoRelay
