/-
  A copy that trails its source.

  A copy is written from a source that goes on changing. `Trails source copy`: what the copy
  holds at each moment the source held by then, and the moments it stems from never go back,
  so that no later state of the copy is older than an earlier one. A writer that first reads
  a value, holds it as `staged` and later writes or drops it makes the `Moves` below;
  `Staged.step` is what one of them keeps.
-/
import Mathlib.Order.Monotone.Basic
import Mathlib.Tactic

namespace Trailing

variable {α : Type}

/-- What `copy` holds at each moment is what `source` held at a moment `f n` no later, and
    `f` does not go back. Both lists are in the order of time. -/
def Trails (source copy : List α) : Prop :=
  ∃ f : ℕ → ℕ, Monotone f ∧ ∀ n, n < copy.length → f n ≤ n ∧ copy[n]? = source[f n]?

/-- The copy trails the source, and what it holds last is from moment `p`. -/
structure TrailsTo (p : ℕ) (source copy : List α) : Prop where
  length : copy.length = source.length
  before : p < source.length
  stems : ∃ f : ℕ → ℕ, Monotone f ∧ (∀ n, f n ≤ p) ∧
    ∀ n, n < copy.length → f n ≤ n ∧ copy[n]? = source[f n]?

theorem TrailsTo.trails {p : ℕ} {source copy : List α} (h : TrailsTo p source copy) :
    Trails source copy := by
  obtain ⟨f, hmono, -, hf⟩ := h.stems
  exact ⟨f, hmono, hf⟩

theorem trailsTo_start (a : α) : TrailsTo 0 [a] [a] where
  length := rfl
  before := Nat.zero_lt_one
  stems := by
    refine ⟨fun _ => 0, monotone_const, fun _ => le_refl 0, fun n hn => ⟨Nat.zero_le n, ?_⟩⟩
    rw [Nat.lt_one_iff.mp hn]

/-- The next moment of both, the copy from a moment no earlier than before. -/
theorem TrailsTo.step {p q : ℕ} {source copy : List α} {a b : α} (h : TrailsTo p source copy)
    (hpq : p ≤ q) (hb : (source ++ [a])[q]? = some b) :
    TrailsTo q (source ++ [a]) (copy ++ [b]) := by
  obtain ⟨f, hmono, hle, hf⟩ := h.stems
  have hlength := h.length
  have hbefore := h.before
  have hq : q < (source ++ [a]).length := (List.getElem?_eq_some_iff.mp hb).1
  refine ⟨by simp [hlength], hq, fun n => if n < copy.length then f n else q, ?_, ?_, ?_⟩
  · intro n n' hn
    dsimp only
    split_ifs with h1 h2 h2
    · exact hmono hn
    · exact (hle n).trans hpq
    · omega
    · exact le_refl q
  · intro n
    dsimp only
    split_ifs
    · exact (hle n).trans hpq
    · exact le_refl q
  · intro n hn
    rw [List.length_append, List.length_singleton] at hn hq
    dsimp only
    split_ifs with h1
    · obtain ⟨hfn, heq⟩ := hf n h1
      have hsource : f n < source.length := by omega
      rw [List.getElem?_append_left h1, List.getElem?_append_left hsource]
      exact ⟨hfn, heq⟩
    · obtain rfl : n = copy.length := by omega
      rw [hb, List.getElem?_concat_length]
      exact ⟨by omega, rfl⟩

/-! ## A writer with a stage -/

/-- What a step does to the value held by the copy and to the staged one, if the source holds
    `a` after it: neither changes, the source is read, or the stage is written or dropped. -/
inductive Moves (a held staged : α) : α → α → Prop
  | keep : Moves a held staged held staged
  | read : Moves a held staged held a
  | write : Moves a held staged staged staged
  | drop : Moves a held staged held held

/-- The copy trails the source; it holds `held` last, and `staged` is from no earlier a moment. -/
def Staged (source copy : List α) (held staged : α) : Prop :=
  ∃ p q, p ≤ q ∧ TrailsTo p source copy ∧ source[p]? = some held ∧ source[q]? = some staged

variable {source copy : List α} {a held staged held' staged' : α}

theorem Staged.trails (h : Staged source copy held staged) : Trails source copy := by
  obtain ⟨p, q, -, hcopy, -, -⟩ := h
  exact hcopy.trails

theorem staged_start (a : α) : Staged [a] [a] a a :=
  ⟨0, 0, le_refl 0, trailsTo_start a, rfl, rfl⟩

theorem Staged.step (h : Staged source copy held staged)
    (hm : Moves a held staged held' staged') :
    Staged (source ++ [a]) (copy ++ [held']) held' staged' := by
  obtain ⟨p, q, hpq, hcopy, hheld, hstaged⟩ := h
  have hq : q < source.length := (List.getElem?_eq_some_iff.mp hstaged).1
  have hheld' : (source ++ [a])[p]? = some held := by
    rw [List.getElem?_append_left hcopy.before, hheld]
  have hstaged' : (source ++ [a])[q]? = some staged := by
    rw [List.getElem?_append_left hq, hstaged]
  cases hm with
  | keep => exact ⟨p, q, hpq, hcopy.step (le_refl p) hheld', hheld', hstaged'⟩
  | read =>
    exact ⟨p, source.length, hcopy.before.le, hcopy.step (le_refl p) hheld', hheld',
      List.getElem?_concat_length⟩
  | write => exact ⟨q, q, le_refl q, hcopy.step hpq hstaged', hstaged', hstaged'⟩
  | drop => exact ⟨p, p, le_refl p, hcopy.step (le_refl p) hheld', hheld', hheld'⟩

end Trailing
