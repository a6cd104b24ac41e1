/-
  Places that are owned.

  Each used place of a list is owned by a task of a pool: the task has the number of the place
  as its key and a weight of at least one. Then there are no more used places than the tasks
  weigh together (`countP_le`), however many tasks own no place.
-/
import Mathlib.Tactic

namespace Owners

variable {α τ : Type} {pool : List τ} {key : τ → Option Nat} {w : τ → Nat} {p : α → Bool}
  {l : List α}

/-- The weights of the owners of a place below `n`. -/
def weightBelow (key : τ → Option Nat) (w : τ → Nat) (n : Nat) (t : τ) : Nat :=
  if (key t).any fun k => decide (k < n) then w t else 0

/-- The used places are no more than the owners of a place below their number weigh. -/
theorem countP_le_below (h : ∀ i a, l[i]? = some a → p a = true →
    ∃ t ∈ pool, 0 < w t ∧ key t = some i) :
    l.countP p ≤ (pool.map (weightBelow key w l.length)).sum := by
  induction l using List.reverseRecOn with
  | nil => exact Nat.zero_le _
  | append_singleton l a ih =>
    have hold : ∀ i b, l[i]? = some b → p b = true → ∃ t ∈ pool, 0 < w t ∧ key t = some i := by
      intro i b hi hb
      refine h i b ?_ hb
      rw [List.getElem?_append_left (List.getElem?_eq_some_iff.mp hi).1, hi]
    -- the owners of the last place are counted beside those below it
    have hsplit : (pool.map (weightBelow key w (l ++ [a]).length)).sum =
        (pool.map (weightBelow key w l.length)).sum +
          (pool.map fun t => if key t = some l.length then w t else 0).sum := by
      rw [← List.sum_map_add]
      refine congrArg List.sum (List.map_congr_left fun t _ => ?_)
      unfold weightBelow
      rw [List.length_append, List.length_singleton]
      cases key t with
      | none => simp
      | some k =>
        simp only [Option.any_some, decide_eq_true_eq, Option.some.injEq]
        split_ifs <;> omega
    have hlast : (if p a = true then 1 else 0) ≤
        (pool.map fun t => if key t = some l.length then w t else 0).sum := by
      split_ifs with hp
      · obtain ⟨t, ht, hw, hkey⟩ := h l.length a (by simp) hp
        have hle : (if key t = some l.length then w t else 0) ≤
            (pool.map fun t => if key t = some l.length then w t else 0).sum :=
          List.single_le_sum (fun _ _ => Nat.zero_le _) _
            (List.mem_map_of_mem (f := fun t => if key t = some l.length then w t else 0) ht)
        rw [if_pos hkey] at hle
        omega
      · exact Nat.zero_le _
    rw [List.countP_append, List.countP_singleton, hsplit]
    exact Nat.add_le_add (ih hold) hlast

theorem countP_le (h : ∀ i a, l[i]? = some a → p a = true →
    ∃ t ∈ pool, 0 < w t ∧ key t = some i) : l.countP p ≤ (pool.map w).sum := by
  refine (countP_le_below h).trans (List.sum_le_sum fun t _ => ?_)
  unfold weightBelow
  split_ifs
  · exact le_refl _
  · exact Nat.zero_le _

end Owners
