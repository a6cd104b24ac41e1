/-
  Bounded sets that forget their oldest member.

  `FifoSet α cap` is a list of distinct elements, oldest first, with at most `cap` of
  them. `add` appends a new element, after dropping the oldest one if the set is full;
  `ofList` starts over from a list, in the order of first occurrences. Membership after
  either is described by `mem_add` and `mem_ofList`.
-/
import Mathlib.Data.List.Nodup
import Mathlib.Tactic

namespace Fifo

variable {α : Type} [DecidableEq α]

/-- The distinct elements of a list, in the order of their first occurrences. -/
def firsts : List α → List α
  | [] => []
  | a :: l => a :: (firsts l).filter fun b => decide (b ≠ a)

/-! ## First occurrences -/

theorem mem_firsts {l : List α} {a : α} : a ∈ firsts l ↔ a ∈ l := by
  induction l with
  | nil => exact Iff.rfl
  | cons b l ih =>
    rw [firsts, List.mem_cons, List.mem_filter, ih, List.mem_cons, decide_eq_true_eq]
    constructor
    · rintro (h | ⟨h, _⟩)
      · exact Or.inl h
      · exact Or.inr h
    · rintro (h | h)
      · exact Or.inl h
      · by_cases hab : a = b
        · exact Or.inl hab
        · exact Or.inr ⟨h, hab⟩

theorem nodup_firsts (l : List α) : (firsts l).Nodup := by
  induction l with
  | nil => exact List.nodup_nil
  | cons b l ih =>
    refine List.nodup_cons.mpr ⟨fun h => ?_, ih.filter _⟩
    have hne := (List.mem_filter.mp h).2
    exact of_decide_eq_true hne rfl

theorem length_firsts_le (l : List α) : (firsts l).length ≤ l.length := by
  induction l with
  | nil => exact le_rfl
  | cons b l ih =>
    rw [firsts, List.length_cons, List.length_cons]
    exact Nat.succ_le_succ ((List.length_filter_le _ _).trans ih)

theorem head?_firsts (l : List α) : (firsts l).head? = l.head? := by
  cases l <;> rfl

/-- A loop that appends what it has not seen adds the first occurrences of the rest. -/
theorem foldl_append_new (l out : List α) :
    l.foldl (fun out a => if a ∈ out then out else out ++ [a]) out =
      out ++ (firsts l).filter fun b => decide (b ∉ out) := by
  induction l generalizing out with
  | nil => simp [firsts]
  | cons a l ih =>
    rw [List.foldl_cons, ih, firsts, List.filter_cons]
    by_cases ha : a ∈ out
    · rw [if_pos ha, if_neg (by simpa using ha), List.filter_filter]
      congr 1
      refine List.filter_congr fun b _ => ?_
      by_cases hb : b = a
      · simp [hb, ha]
      · simp [hb]
    · rw [if_neg ha, if_pos (by simpa using ha), List.filter_filter, List.append_assoc]
      congr 1
      rw [List.singleton_append]
      congr 1
      refine List.filter_congr fun b _ => ?_
      simp [Bool.and_comm]

/-! ## The set -/

/-- At most `cap` distinct elements, oldest first. -/
structure FifoSet (α : Type) (cap : Nat) where
  elems : List α
  nodup : elems.Nodup
  bounded : elems.length ≤ cap

namespace FifoSet

variable {cap : Nat}

/-- What is left to append a new element to. -/
def makeRoom (cap : Nat) (l : List α) : List α := if cap ≤ l.length then l.tail else l

omit [DecidableEq α] in
theorem makeRoom_sublist (l : List α) : (makeRoom cap l).Sublist l := by
  unfold makeRoom
  split_ifs
  · exact List.tail_sublist l
  · exact List.Sublist.refl l

omit [DecidableEq α] in
theorem length_makeRoom {l : List α} (h : l.length ≤ cap) (hcap : 0 < cap) :
    (makeRoom cap l).length + 1 ≤ cap := by
  unfold makeRoom
  split_ifs with hfull
  · rw [List.length_tail]
    omega
  · omega

def add (hcap : 0 < cap) (s : FifoSet α cap) (a : α) : FifoSet α cap :=
  if h : a ∈ s.elems then s
  else
    { elems := makeRoom cap s.elems ++ [a]
      nodup := by
        have hsub : (makeRoom cap s.elems).Sublist s.elems := makeRoom_sublist s.elems
        refine (hsub.nodup s.nodup).append (List.nodup_singleton a) ?_
        rw [List.disjoint_singleton]
        exact fun hmem => h (hsub.subset hmem)
      bounded := by
        rw [List.length_append, List.length_singleton]
        exact length_makeRoom s.bounded hcap }

def ofList (l : List α) (h : l.length ≤ cap) : FifoSet α cap :=
  { elems := firsts l
    nodup := nodup_firsts l
    bounded := (length_firsts_le l).trans h }

theorem elems_add (hcap : 0 < cap) (s : FifoSet α cap) (a : α) :
    (s.add hcap a).elems = if a ∈ s.elems then s.elems else makeRoom cap s.elems ++ [a] := by
  unfold add
  split_ifs <;> rfl

theorem mem_add_self (hcap : 0 < cap) (s : FifoSet α cap) (a : α) : a ∈ (s.add hcap a).elems := by
  rw [elems_add]
  split_ifs with h
  · exact h
  · exact List.mem_append_right _ (List.mem_singleton_self a)

theorem mem_ofList {l : List α} {h : l.length ≤ cap} {a : α} :
    a ∈ (ofList l h).elems ↔ a ∈ l := mem_firsts

end FifoSet

end Fifo
