/-
  Bounded queues.

  `evicted fits l` is how many elements must be dropped from the front of `l`
  until the rest fits, and it is the least such number (`isLeast_evicted`). A
  queue may be kept as a set of elements with sequence numbers: sorting by number
  is stable (`pairwise_sortOn`), and the list in that order is determined by its
  members (`eq_of_mem_iff`).
-/
import Mathlib.Data.List.Sort
import Mathlib.Order.Bounds.Basic
import Mathlib.Tactic

namespace Fifo

variable {α : Type}

/-! ## Dropping from the front -/

section

variable (fits : List α → Prop) [DecidablePred fits]

/-- How many elements go before the rest fits. -/
def evicted : List α → Nat
  | [] => 0
  | a :: l => if fits (a :: l) then 0 else evicted l + 1

variable {fits}

theorem fits_drop_evicted (h : fits []) (l : List α) : fits (l.drop (evicted fits l)) := by
  induction l with
  | nil => exact h
  | cons a l ih =>
    unfold evicted
    split_ifs with hf
    · exact hf
    · exact ih

theorem evicted_le_of_fits {l : List α} {k : Nat} (h : fits (l.drop k)) : evicted fits l ≤ k := by
  induction l generalizing k with
  | nil => exact Nat.zero_le k
  | cons a l ih =>
    unfold evicted
    split_ifs with hf
    · exact Nat.zero_le k
    · cases k with
      | zero => exact absurd h hf
      | succ k => exact Nat.succ_le_succ (ih h)

/-- The number dropped is the least one after which the rest fits. -/
theorem isLeast_evicted (h : fits []) (l : List α) :
    IsLeast {k | fits (l.drop k)} (evicted fits l) :=
  ⟨fits_drop_evicted h l, fun _ hk => evicted_le_of_fits hk⟩

theorem evicted_le_length (h : fits []) (l : List α) : evicted fits l ≤ l.length :=
  evicted_le_of_fits (by simpa using h)

end

/-! ## Sequence order -/

section

variable (seq : α → Nat)

/-- Sort by sequence number; equal numbers keep their order. -/
def sortOn (l : List α) : List α := l.insertionSort fun a b => seq a ≤ seq b

/-- Ordered by sequence number, and by `r` where the numbers are equal. -/
def Before (r : α → α → Prop) (a b : α) : Prop := seq a < seq b ∨ seq a = seq b ∧ r a b

variable {seq} {r : α → α → Prop}

theorem mem_sortOn {l : List α} {a : α} : a ∈ sortOn seq l ↔ a ∈ l :=
  (List.perm_insertionSort _ l).mem_iff

theorem sortOn_perm (l : List α) : (sortOn seq l).Perm l := List.perm_insertionSort _ l

theorem Before.le {a b : α} (h : Before seq r a b) : seq a ≤ seq b := by
  rcases h with h | h
  · exact h.le
  · exact h.1.le

theorem Before.asymm (hr : ∀ a b, r a b → ¬r b a) {a b : α} (h : Before seq r a b) :
    ¬Before seq r b a := by
  intro h'
  rcases h with h | ⟨he, h⟩
  · exact absurd h'.le (Nat.not_le.mpr h)
  · rcases h' with h' | ⟨_, h'⟩
    · omega
    · exact hr a b h h'

theorem pairwise_orderedInsert {l : List α} {a : α} (hl : l.Pairwise (Before seq r))
    (ha : ∀ b ∈ l, r a b) :
    (l.orderedInsert (fun a b => seq a ≤ seq b) a).Pairwise (Before seq r) := by
  induction l with
  | nil => exact List.pairwise_singleton _ a
  | cons b l ih =>
    obtain ⟨hb, hl'⟩ := List.pairwise_cons.mp hl
    rw [List.orderedInsert_cons]
    split_ifs with hab
    · refine List.pairwise_cons.mpr ⟨?_, hl⟩
      intro c hc
      have hac : seq a ≤ seq c := by
        rcases List.mem_cons.mp hc with rfl | hc
        · exact hab
        · exact hab.trans (hb c hc).le
      rcases Nat.lt_or_eq_of_le hac with h | h
      · exact Or.inl h
      · exact Or.inr ⟨h, ha c hc⟩
    · refine List.pairwise_cons.mpr ⟨?_, ih hl' fun c hc => ha c (List.mem_cons_of_mem _ hc)⟩
      intro c hc
      rcases (List.mem_orderedInsert _).mp hc with rfl | hc
      · exact Or.inl (Nat.lt_of_not_le hab)
      · exact hb c hc

/-- The sort is stable: elements with equal numbers stay in the order `r`. -/
theorem pairwise_sortOn {l : List α} (hl : l.Pairwise r) :
    (sortOn seq l).Pairwise (Before seq r) := by
  induction l with
  | nil => exact List.Pairwise.nil
  | cons a l ih =>
    obtain ⟨ha, hl⟩ := List.pairwise_cons.mp hl
    exact pairwise_orderedInsert (ih hl) fun b hb => ha b (mem_sortOn.mp hb)

end

/-- Two lists in the same asymmetric order with the same members are equal. -/
theorem eq_of_mem_iff {R : α → α → Prop} (hR : ∀ a b, R a b → ¬R b a) {l m : List α}
    (hl : l.Pairwise R) (hm : m.Pairwise R) (h : ∀ a, a ∈ l ↔ a ∈ m) : l = m := by
  have nd : ∀ {k : List α}, k.Pairwise R → k.Nodup :=
    fun hk => hk.imp fun {a b} hab (e : a = b) => hR a b hab (by rw [e] at hab ⊢; exact hab)
  refine ((List.perm_ext_iff_of_nodup (nd hl) (nd hm)).mpr h).eq_of_pairwise ?_ hl hm
  intro a b _ _ h1 h2
  exact absurd h2 (hR a b h1)

/-- Dropping the first `k` elements leaves those whose key is not among theirs. -/
theorem filter_eq_drop {β : Type} [DecidableEq β] (key : α → β) {l : List α}
    (hl : (l.map key).Nodup) (k : Nat) :
    (l.filter fun a => decide (key a ∉ (l.take k).map key)) = l.drop k := by
  induction l generalizing k with
  | nil => simp
  | cons a l ih =>
    obtain ⟨ha, hl⟩ := List.nodup_cons.mp hl
    cases k with
    | zero => simp
    | succ k =>
      rw [List.take_succ_cons, List.drop_succ_cons, List.map_cons, ← ih hl k, List.filter_cons]
      rw [if_neg (by simp)]
      refine List.filter_congr fun b hb => decide_eq_decide.mpr ?_
      have hne : key b ≠ key a := fun e => ha (e ▸ List.mem_map_of_mem hb)
      simp [hne]

end Fifo
