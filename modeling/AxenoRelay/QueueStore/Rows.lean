/-
  Rows of the table ENVELOPES: which keys belong to which mailbox, what the
  store's transactions do to the table, and how many rows and bytes a mailbox has.

  `countOf` and `bytesOf` are a mailbox's totals on disk, as sums over the table,
  so each transaction's effect on them is a law of `OrdMap.sum`. The transactions
  are described without failures (`*_run`); `Txn.commit_cases` adds the failures.
-/
import AxenoRelay.Lib.Fifo
import AxenoRelay.Lib.OwnedMap
import AxenoRelay.QueueStore.Basic

namespace AxenoRelay.QueueStore

open SepKey

variable {U : Type} [UuidText U]

/-- A mailbox name over the bytes `valid_recipient_id` allows. -/
def NameOk (mailbox : String) : Prop := mailbox.toList.all idChar = true

instance (mailbox : String) : Decidable (NameOk mailbox) :=
  inferInstanceAs (Decidable (_ = true))

theorem NameOk.free {mailbox : String} (h : NameOk mailbox) : Free ':' ';' mailbox.toList :=
  free_of_idChar h

theorem NameOk.no_colon {mailbox : String} (h : NameOk mailbox) : ':' ∉ mailbox.toList :=
  fun hc => (h.free ':' hc).1 rfl

theorem nameOk_of_valid {mailbox : String} (h : validRecipientId mailbox = true) :
    NameOk mailbox := by
  unfold validRecipientId at h
  exact (Bool.and_eq_true_iff.mp h).2

/-! ## Keys -/

theorem keyFor_eq (mailbox : String) (id : U) :
    keyFor mailbox id = mailbox ++ String.singleton ':' ++ UuidText.display id := rfl

theorem parseMailbox_keyFor {m : String} (hm : NameOk m) (id : U) :
    parseMailbox (keyFor m id) = some m := by
  rw [parseMailbox, keyFor_eq, splitOnce_append hm.no_colon]
  rfl

theorem parseId_keyFor {m : String} (hm : NameOk m) (id : U) :
    parseId U (keyFor m id) = some id := by
  rw [parseId, keyFor_eq, splitOnce_append hm.no_colon]
  exact UuidText.parse_display id

theorem keyFor_inj {m n : String} (hm : NameOk m) (hn : NameOk n) {x y : U}
    (h : keyFor m x = keyFor n y) : m = n ∧ x = y := by
  have h1 := parseMailbox_keyFor hm x
  have h2 := parseId_keyFor hm x
  rw [h] at h1 h2
  rw [parseMailbox_keyFor hn] at h1
  rw [parseId_keyFor hn] at h2
  exact ⟨(Option.some.inj h1).symm, (Option.some.inj h2).symm⟩

/-- Every key of the table was made by `key_for` from a mailbox name and an id. -/
def KeysOk (U : Type) [UuidText U] (t : Envelopes) : Prop :=
  ∀ k v, t.get k = some v → ∃ m, ∃ id : U, NameOk m ∧ k = keyFor m id

theorem keysOk_empty : KeysOk U OrdMap.empty := by
  intro k v h
  simp at h

theorem KeysOk.insert {t : Envelopes} (h : KeysOk U t) {m : String} (hm : NameOk m) (id : U)
    (v : StoredValue) : KeysOk U (t.insert (keyFor m id) v) := by
  intro k w hk
  rw [OrdMap.get_insert] at hk
  split_ifs at hk with he
  · exact ⟨m, id, hm, he⟩
  · exact h k w hk

theorem KeysOk.filter {t : Envelopes} (h : KeysOk U t) (p : String → StoredValue → Bool) :
    KeysOk U (t.filter p) := by
  intro k v hk
  rw [OrdMap.get_filter] at hk
  exact h k v (Option.filter_eq_some_iff.mp hk).1

theorem KeysOk.eraseAll {t : Envelopes} (h : KeysOk U t) (ks : List String) :
    KeysOk U (t.eraseAll ks) := by
  rw [OrdMap.eraseAll_eq_filter]
  exact h.filter _

/-! ## A mailbox's rows -/

theorem KeysOk.owned {t : Envelopes} (h : KeysOk U t) : Owned ':' ';' t := by
  intro k v hk
  obtain ⟨m, id, hm, rfl⟩ := h k v hk
  exact ⟨m, UuidText.display id, hm.free, rfl⟩

/-- Is this the key of a row of mailbox `m`? -/
def inMailbox (m : String) (k : String) : Bool := decide (parseMailbox k = some m)

theorem inMailbox_keyFor {m n : String} (hn : NameOk n) (id : U) :
    inMailbox m (keyFor n id) = decide (n = m) := ownedBy_key hn.no_colon m (UuidText.display id)

/-- On the store's keys, the range of `m` is the test of the parsed mailbox. -/
theorem range_eq_filter {t : Envelopes} (ht : KeysOk U t) {m : String} (hm : NameOk m) :
    t.range (mailboxBounds m).1 (mailboxBounds m).2 =
      t.entries.filter fun e => inMailbox m e.1 :=
  SepKey.range_eq_filter colon_succ ht.owned hm.free

theorem mem_mailboxRows {t : Envelopes} (ht : KeysOk U t) {m : String} (hm : NameOk m) {id : U}
    {v : StoredValue} : (id, v) ∈ mailboxRows U m t ↔ t.get (keyFor m id) = some v := by
  simp only [mailboxRows, range_eq_filter ht hm, List.mem_filterMap, List.mem_filter]
  constructor
  · rintro ⟨⟨k, w⟩, ⟨he, hk⟩, hid⟩
    have hget := OrdMap.get_eq_some_iff.mpr he
    obtain ⟨n, id', hn, rfl⟩ := ht k w hget
    obtain rfl : n = m := by simpa [inMailbox_keyFor hn] using hk
    rw [parseId_keyFor hn] at hid
    obtain ⟨rfl, rfl⟩ : id' = id ∧ w = v := by simpa using hid
    exact hget
  · intro h
    refine ⟨(keyFor m id, v), ⟨OrdMap.get_eq_some_iff.mp h, ?_⟩, ?_⟩
    · simp [inMailbox_keyFor hm]
    · simp [parseId_keyFor hm]

/-- A row of mailbox `m` in the table, and what `parse_id` makes of its key. -/
theorem parseId_of_mem {t : Envelopes} (ht : KeysOk U t) {m : String}
    {e : String × StoredValue} (he : e ∈ t.entries.filter fun e => inMailbox m e.1)
    {p : U × StoredValue} (hp : ((parseId U e.1).map fun id => (id, e.2)) = some p) :
    e.1 = keyFor m p.1 := by
  obtain ⟨hmem, hin⟩ := List.mem_filter.mp he
  obtain ⟨n, id, hn, hk⟩ := ht e.1 e.2 (OrdMap.get_eq_some_iff.mpr hmem)
  rw [hk, inMailbox_keyFor hn, decide_eq_true_eq] at hin
  rw [hk, parseId_keyFor hn] at hp
  rw [hk, hin, ← Option.some.inj hp]

theorem mailboxRows_sorted {t : Envelopes} (ht : KeysOk U t) {m : String} (hm : NameOk m) :
    (mailboxRows U m t).Pairwise fun a b => keyFor m a.1 < keyFor m b.1 := by
  unfold mailboxRows
  rw [range_eq_filter ht hm, List.pairwise_filterMap]
  have hsorted : (t.entries.filter fun e => inMailbox m e.1).Pairwise
      (fun a b => a.1 < b.1) := t.sorted.filter _
  refine hsorted.imp_of_mem ?_
  intro a b ha hb hlt p hp q hq
  rw [← parseId_of_mem ht ha hp, ← parseId_of_mem ht hb hq]
  exact hlt

theorem mailboxRows_nodup {t : Envelopes} (ht : KeysOk U t) {m : String} (hm : NameOk m) :
    (mailboxRows U m t).Nodup :=
  (mailboxRows_sorted ht hm).imp fun h e => absurd (e ▸ h) (lt_irrefl _)

/-! ## A mailbox's totals on disk -/

/-- The total of `w` over the rows of mailbox `m`. -/
def mailboxSum (w : StoredValue → Nat) (m : String) (t : Envelopes) : Nat := ownedSum ':' w m t

/-- How many envelopes mailbox `m` has on disk. -/
def countOf (m : String) (t : Envelopes) : Nat := mailboxSum (fun _ => 1) m t

/-- How many ciphertext bytes mailbox `m` has on disk. -/
def bytesOf (m : String) (t : Envelopes) : Nat := mailboxSum (fun v => len v.c) m t

/-- All ciphertext bytes on disk. -/
def diskBytes (t : Envelopes) : Nat := t.sum fun _ v => len v.c

theorem sum_mailboxRows {t : Envelopes} (ht : KeysOk U t) {m : String} (hm : NameOk m)
    (w : StoredValue → Nat) :
    ((mailboxRows U m t).map fun e => w e.2).sum = mailboxSum w m t := by
  have key : ∀ l : List (String × StoredValue), (∀ e ∈ l, e ∈ t.entries) →
      (((l.filter fun e => inMailbox m e.1).filterMap fun e =>
        (parseId U e.1).map fun id => (id, e.2)).map fun e => w e.2).sum =
      (l.map fun e => if inMailbox m e.1 then w e.2 else 0).sum := by
    intro l hl
    induction l with
    | nil => rfl
    | cons e l ih =>
      have ih := ih fun x hx => hl x (List.mem_cons_of_mem _ hx)
      obtain ⟨n, id, hn, hk⟩ :=
        ht e.1 e.2 (OrdMap.get_eq_some_iff.mpr (hl e List.mem_cons_self))
      rw [List.filter_cons, List.map_cons, List.sum_cons, ← ih]
      cases hin : inMailbox m e.1 with
      | false => simp
      | true => simp [hk, parseId_keyFor hn]
  unfold mailboxRows
  rw [range_eq_filter ht hm]
  exact key t.entries fun e he => he

end AxenoRelay.QueueStore
