/-
  Runs that remember their steps.

  A `Trace` is a run with its past: every move so far and the configuration it was
  taken in, newest first. Properties that speak of what happened before (who inserted
  an entry last, which message a task is working on) are functions of the past, and
  guards may look at it too. `Trace.invariant` is the induction rule, `Trace.run`
  forgets the past, and `record` runs a given list of moves (`exists_trace`).
-/
import AxenoRelay.Lib.Interleave

namespace Interleave

variable {σ τ ε : Type}

/-- The moves so far, newest first, each with the configuration it was taken in. -/
abbrev Past (σ τ ε : Type) := List (Config σ τ × Move ε)

/-- `c` is reached from `c₀` by the moves in `h`, each allowed by `G` where it is taken. -/
inductive Trace (M : Machine σ τ ε) (G : Past σ τ ε → Config σ τ → Move ε → Prop)
    (c₀ : Config σ τ) : Past σ τ ε → Config σ τ → Prop
  | nil : Trace M G c₀ [] c₀
  | snoc {h : Past σ τ ε} {c c' : Config σ τ} {m : Move ε} (r : Trace M G c₀ h c) (g : G h c m)
      (hn : M.next m c = some c') : Trace M G c₀ ((c, m) :: h) c'

/-- Every move is allowed, whatever happened before. -/
def anyPast : Past σ τ ε → Config σ τ → Move ε → Prop := fun _ _ _ => True

instance : ∀ (h : Past σ τ ε) (c : Config σ τ) (m : Move ε), Decidable (anyPast h c m) :=
  fun _ _ _ => isTrue trivial

/-- Run a list of moves and keep the past. -/
def Machine.record (M : Machine σ τ ε) (G : Past σ τ ε → Config σ τ → Move ε → Prop)
    [∀ h c m, Decidable (G h c m)] :
    List (Move ε) → Past σ τ ε → Config σ τ → Option (Past σ τ ε × Config σ τ)
  | [], h, c => some (h, c)
  | m :: ms, h, c =>
    if G h c m then
      match M.next m c with
      | none => none
      | some c' => M.record G ms ((c, m) :: h) c'
    else none

variable {M : Machine σ τ ε} {G : Past σ τ ε → Config σ τ → Move ε → Prop}

/-- What holds at the start and is preserved by every allowed move, with the past it
    makes, holds at the end of every trace. -/
theorem Trace.invariant {P : Past σ τ ε → Config σ τ → Prop} {c₀ c : Config σ τ}
    {h : Past σ τ ε} (r : Trace M G c₀ h c) (h0 : P [] c₀)
    (hstep : ∀ h c m c', P h c → G h c m → M.next m c = some c' → P ((c, m) :: h) c') :
    P h c := by
  induction r with
  | nil => exact h0
  | snoc _ g hn ih => exact hstep _ _ _ _ ih g hn

/-- An invariant may be added to what the moves are known to obey. -/
theorem Trace.strengthen {P : Past σ τ ε → Config σ τ → Prop}
    {G' : Past σ τ ε → Config σ τ → Move ε → Prop} {c₀ c : Config σ τ} {h : Past σ τ ε}
    (r : Trace M G c₀ h c) (h0 : P [] c₀)
    (hstep : ∀ h c m c', P h c → G h c m → M.next m c = some c' → P ((c, m) :: h) c')
    (hG : ∀ h c m, P h c → G h c m → G' h c m) : Trace M G' c₀ h c := by
  induction r with
  | nil => exact .nil
  | snoc r g hn ih => exact .snoc ih (hG _ _ _ (r.invariant h0 hstep) g) hn

theorem Trace.run {G' : Config σ τ → Move ε → Prop} (hG : ∀ h c m, G h c m → G' c m)
    {c₀ c : Config σ τ} {h : Past σ τ ε} (r : Trace M G c₀ h c) : Run M G' c₀ c := by
  induction r with
  | nil => exact .refl
  | snoc _ g hn ih => exact .tail ih (hG _ _ _ g) hn

/-- A trace up to any of its moves. -/
theorem Trace.before {c₀ c : Config σ τ} {h : Past σ τ ε} (r : Trace M G c₀ h c)
    {c₁ : Config σ τ} {m : Move ε} {h₁ : Past σ τ ε} (hs : (c₁, m) :: h₁ <:+ h) :
    Trace M G c₀ h₁ c₁ ∧ G h₁ c₁ m ∧ ∃ c₂, M.next m c₁ = some c₂ := by
  induction r with
  | nil =>
    have hnil := List.eq_nil_of_suffix_nil hs
    cases hnil
  | snoc r g hn ih =>
    rcases List.suffix_cons_iff.mp hs with heq | hs
    · cases heq
      exact ⟨r, g, _, hn⟩
    · exact ih hs

/-- A computed execution is a trace. -/
theorem trace_of_record [∀ h c m, Decidable (G h c m)] (ms : List (Move ε)) {c₀ c c' : Config σ τ}
    {h h' : Past σ τ ε} (r : Trace M G c₀ h c) (hr : M.record G ms h c = some (h', c')) :
    Trace M G c₀ h' c' := by
  induction ms generalizing h c with
  | nil =>
    cases hr
    exact r
  | cons m ms ih =>
    unfold Machine.record at hr
    split_ifs at hr with hg
    cases hn : M.next m c with
    | none =>
      rw [hn] at hr
      cases hr
    | some c₁ =>
      rw [hn] at hr
      exact ih (.snoc r hg hn) hr

/-- A trace that ends with the property `p`. -/
theorem exists_trace [∀ h c m, Decidable (G h c m)] {c : Config σ τ} (ms : List (Move ε))
    {p : Past σ τ ε × Config σ τ → Bool} (h : (M.record G ms [] c).any p = true) :
    ∃ h' c', Trace M G c h' c' ∧ p (h', c') = true := by
  cases hr : M.record G ms [] c with
  | none =>
    rw [hr] at h
    cases h
  | some r =>
    rw [hr] at h
    exact ⟨r.1, r.2, trace_of_record ms .nil hr, h⟩

end Interleave
