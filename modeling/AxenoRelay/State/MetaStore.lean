/-
  `meta_store.rs`: the tables AUTH and BUNDLES, and the records kept in them, which
  `state.rs` declares.

  A record is its own serialization (`serde_json` as an exact round trip). The two
  flushes apply a batch of upserts and deletes in one transaction, so each is one
  `writeBatch`; a batch either changes the table as `OrdMap.assignAll` does or leaves
  it as it was, and it fails exactly if one of its calls does.
-/
import AxenoRelay.Lib.OrdMap
import AxenoRelay.Protocol

namespace AxenoRelay

structure MailboxAuth where
  receiveAuthHash : String
  deliveryTokenHash : String
  deliveryTokenHashes : List String
  lastActiveMs : Nat
  deriving DecidableEq, Repr

namespace MailboxAuth

/-- `MailboxAuth::new` at clock `now`. -/
def new (now : Nat) (receiveAuthHash deliveryHash : String) : MailboxAuth :=
  { receiveAuthHash := receiveAuthHash
    deliveryTokenHash := deliveryHash
    deliveryTokenHashes := [deliveryHash]
    lastActiveMs := nowActivityMs now }

def acceptsDeliveryHash (a : MailboxAuth) (hash : String) : Bool :=
  ctEq a.deliveryTokenHash hash || a.deliveryTokenHashes.any fun h => ctEq h hash

/-- `ensure_delivery_hash`: whether the hash was added, and the record. -/
def ensureDeliveryHash (a : MailboxAuth) (hash : String) : Bool × MailboxAuth :=
  let a := if a.deliveryTokenHash.isEmpty then { a with deliveryTokenHash := hash } else a
  if a.deliveryTokenHashes.any fun h => h == hash then (false, a)
  else
    let kept := if maxDeliveryTokensPerMailbox ≤ a.deliveryTokenHashes.length then
      a.deliveryTokenHashes.tail else a.deliveryTokenHashes
    (true, { a with deliveryTokenHashes := kept ++ [hash] })

@[simp] theorem ensureDeliveryHash_lastActiveMs (a : MailboxAuth) (hash : String) :
    (a.ensureDeliveryHash hash).2.lastActiveMs = a.lastActiveMs := by
  have hfirst : (if a.deliveryTokenHash.isEmpty then { a with deliveryTokenHash := hash }
      else a).lastActiveMs = a.lastActiveMs := by
    split_ifs <;> rfl
  rw [← hfirst]
  unfold ensureDeliveryHash
  dsimp only
  generalize (if a.deliveryTokenHash.isEmpty = true then _ else a) = b
  by_cases h : (b.deliveryTokenHashes.any fun h => h == hash) = true
  · rw [if_pos h]
  · rw [if_neg h]

def replaceDeliveryHashes (a : MailboxAuth) (hashes : List String) : MailboxAuth :=
  let out := (hashes.take maxDeliveryTokensPerMailbox).foldl
    (fun out h => if out.any fun o => o == h then out else out ++ [h]) []
  { a with deliveryTokenHash := out.head?.getD "", deliveryTokenHashes := out }

end MailboxAuth

structure HostedBundle where
  id : String
  ciphertext : String
  createdAtMs : Nat
  expiresAtMs : Nat
  deriving DecidableEq, Repr

/-- The tables AUTH and BUNDLES. -/
structure MetaTables where
  auth : OrdMap RecipientId MailboxAuth
  bundles : OrdMap String HostedBundle
  deriving DecidableEq

/-! ## Writing a batch -/

/-- The transaction both flushes run on their table: begin, open, one call for each
    item, commit. An empty batch runs none. -/
def writeBatch {V : Type} (items : List (String × Option V)) : Txn DbError (OrdMap String V) Unit :=
  if items.isEmpty then pure ()
  else do
    Txn.touch .db
    Txn.touch .db
    Txn.each (fun e => Txn.modify .db fun t => t.assign e.1 e.2) items
    Txn.touch .db

section Batch

variable {V : Type}

theorem writeBatch_sound (items : List (String × Option V)) : (writeBatch items).Sound := by
  unfold writeBatch
  split_ifs
  · exact Txn.sound_pure _
  · exact Txn.sound_bind (Txn.sound_touch _) fun _ => Txn.sound_bind (Txn.sound_touch _) fun _ =>
      Txn.sound_bind (Txn.sound_each (fun _ => Txn.sound_modify _ _) _) fun _ =>
        Txn.sound_touch _

theorem writeBatch_run (items : List (String × Option V)) (t : OrdMap String V) :
    writeBatch items t [] = .ok ((), t.assignAll items, []) := by
  unfold writeBatch
  by_cases h : items.isEmpty
  · rw [if_pos h, List.isEmpty_iff.mp h]
    rfl
  · have hloop := Txn.each_run (fun (e : String × Option V) (t : OrdMap String V) =>
      t.assign e.1 e.2) DbError.db items t
    rw [if_neg h]
    simp only [Txn.modify] at hloop
    simp only [Txn.bind_run, Txn.modify, Txn.touch, Txn.call, List.tail_nil, hloop]
    rfl

theorem writeBatch_calls {items : List (String × Option V)} (h : items ≠ []) :
    (writeBatch items).Calls (items.length + 3) := by
  have hcount : items.length + 3 = 1 + (1 + (items.length + 1)) := by omega
  unfold writeBatch
  rw [if_neg (by simpa using h), hcount]
  exact Txn.calls_bind (Txn.calls_call _ _) fun _ => Txn.calls_bind (Txn.calls_call _ _) fun _ =>
    Txn.calls_bind (Txn.calls_each (fun _ => Txn.calls_call _ _) _) fun _ => Txn.calls_call _ _

/-- Does a call of the transaction over this batch fail? -/
def BatchFails (fs : Faults) (items : List (String × Option V)) : Prop :=
  items ≠ [] ∧ true ∈ fs.take (items.length + 3)

instance (fs : Faults) (items : List (String × Option V)) : Decidable (BatchFails fs items) :=
  decidable_of_iff (items.isEmpty = false ∧ true ∈ fs.take (items.length + 3))
    (and_congr_left' List.isEmpty_eq_false_iff)

/-- A batch fails exactly if one of its calls does, and then changes nothing. -/
theorem writeBatch_cases (items : List (String × Option V)) (fs : Faults) (t : OrdMap String V) :
    (BatchFails fs items ∧ ∃ e, (writeBatch items).commit fs t = (.error e, t)) ∨
      (¬BatchFails fs items ∧ (writeBatch items).commit fs t = (.ok (), t.assignAll items)) := by
  by_cases h : items = []
  · right
    refine ⟨fun hf => hf.1 h, ?_⟩
    rw [h]
    rfl
  · rcases (writeBatch_calls h).commit_cases (writeBatch_sound items) (writeBatch_run items t) fs
      with ⟨hf, he⟩ | ⟨hf, hok⟩
    · exact Or.inl ⟨⟨h, hf⟩, he⟩
    · exact Or.inr ⟨fun hb => hf hb.2, hok⟩

end Batch

/-! ## The store -/

namespace MetaTables

/-- `flush_auth`, with the given failures. -/
def flushAuth (items : List (RecipientId × Option MailboxAuth)) (fs : Faults) (t : MetaTables) :
    Except DbError Unit × MetaTables :=
  let r := (writeBatch items).commit fs t.auth
  (r.1, { t with auth := r.2 })

/-- `flush_bundles`, with the given failures. -/
def flushBundles (items : List (String × Option HostedBundle)) (fs : Faults) (t : MetaTables) :
    Except DbError Unit × MetaTables :=
  let r := (writeBatch items).commit fs t.bundles
  (r.1, { t with bundles := r.2 })

def loadAllAuth : Txn DbError MetaTables (List (RecipientId × MailboxAuth)) := do
  Txn.touch .db
  Txn.touch .db
  let t ← Txn.read .db id
  Txn.each (fun _ => Txn.touch .db) t.auth.entries
  pure t.auth.entries

def loadAllBundles : Txn DbError MetaTables (List HostedBundle) := do
  Txn.touch .db
  Txn.touch .db
  let t ← Txn.read .db id
  Txn.each (fun _ => Txn.touch .db) t.bundles.entries
  pure (t.bundles.entries.map Prod.snd)

theorem loadAllAuth_run (t : MetaTables) : loadAllAuth t [] = .ok (t.auth.entries, t, []) := by
  have hscan := Txn.each_touch_run DbError.db t.auth.entries t
  simp only [Txn.touch] at hscan
  simp only [loadAllAuth, Txn.bind_run, Txn.touch, Txn.read, Txn.call, Txn.pure_run,
    List.tail_nil, id_eq, hscan]

theorem loadAllBundles_run (t : MetaTables) :
    loadAllBundles t [] = .ok (t.bundles.entries.map Prod.snd, t, []) := by
  have hscan := Txn.each_touch_run DbError.db t.bundles.entries t
  simp only [Txn.touch] at hscan
  simp only [loadAllBundles, Txn.bind_run, Txn.touch, Txn.read, Txn.call, Txn.pure_run,
    List.tail_nil, id_eq, hscan]

end MetaTables

end AxenoRelay
