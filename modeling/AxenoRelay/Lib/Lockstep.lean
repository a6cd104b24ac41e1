/-
  Two runs of one machine under the same moves.

  `Lockstep M G c₁ c₂ d₁ d₂`: the same list of moves, each allowed by `G` where it is
  taken, leads from `c₁` to `d₁` and from `c₂` to `d₂`. Properties of two runs (what an
  observer of both cannot tell apart) are relations kept by a pair of moves
  (`Lockstep.invariant`). `next_rel` brings one move of two pools whose tasks are
  related place by place down to one step of two related tasks, and says that the move
  is enabled in both or in neither.
-/
import AxenoRelay.Lib.Interleave

namespace Interleave

variable {σ τ ε : Type}

/-- The same moves lead from `c₁` to `d₁` and from `c₂` to `d₂`. -/
inductive Lockstep (M : Machine σ τ ε) (G : Config σ τ → Config σ τ → Move ε → Prop)
    (c₁ c₂ : Config σ τ) : Config σ τ → Config σ τ → Prop
  | refl : Lockstep M G c₁ c₂ c₁ c₂
  | tail {d₁ d₂ d₁' d₂' : Config σ τ} {m : Move ε} (l : Lockstep M G c₁ c₂ d₁ d₂) (g : G d₁ d₂ m)
      (h₁ : M.next m d₁ = some d₁') (h₂ : M.next m d₂ = some d₂') : Lockstep M G c₁ c₂ d₁' d₂'

variable {M : Machine σ τ ε} {G : Config σ τ → Config σ τ → Move ε → Prop}

/-- A relation that holds at the start and is kept by every allowed pair of moves holds
    between any two configurations reached together. -/
theorem Lockstep.invariant {R : Config σ τ → Config σ τ → Prop} {c₁ c₂ d₁ d₂ : Config σ τ}
    (l : Lockstep M G c₁ c₂ d₁ d₂) (h0 : R c₁ c₂)
    (hstep : ∀ d₁ d₂ m d₁' d₂', R d₁ d₂ → G d₁ d₂ m → M.next m d₁ = some d₁' →
      M.next m d₂ = some d₂' → R d₁' d₂') : R d₁ d₂ := by
  induction l with
  | refl => exact h0
  | tail _ g h₁ h₂ ih => exact hstep _ _ _ _ _ ih g h₁ h₂

/-- What two steps of related tasks lead to, if they are enabled. -/
abbrev StepRel (S : σ → σ → Prop) (r : τ → τ → Prop) :
    Option (τ × σ) → Option (τ × σ) → Prop :=
  Option.Rel fun x y => r x.1 y.1 ∧ S x.2 y.2

/-- What two related moves lead to, if they are enabled. -/
abbrev NextRel (S : σ → σ → Prop) (r : τ → τ → Prop) :
    Option (Config σ τ) → Option (Config σ τ) → Prop :=
  Option.Rel fun d₁ d₂ => List.Forall₂ r d₁.pool d₂.pool ∧ S d₁.shared d₂.shared

theorem forall₂_set {r : τ → τ → Prop} {l₁ l₂ : List τ} (h : List.Forall₂ r l₁ l₂) (i : Nat)
    {a b : τ} (hab : r a b) : List.Forall₂ r (l₁.set i a) (l₂.set i b) := by
  induction h generalizing i with
  | nil => exact .nil
  | cons hx _ ih =>
    cases i with
    | zero => exact .cons hab ‹_›
    | succ i => exact .cons hx (ih i)

/-- The tasks at one place of two related pools. -/
theorem forall₂_getElem? {r : τ → τ → Prop} {l₁ l₂ : List τ} (h : List.Forall₂ r l₁ l₂)
    (i : Nat) : Option.Rel r l₁[i]? l₂[i]? := by
  induction h generalizing i with
  | nil => exact .none
  | cons hx _ ih =>
    cases i with
    | zero => exact .some hx
    | succ i => exact ih i

theorem rel_map {α β α' β' : Type} {r : α → β → Prop} {r' : α' → β' → Prop} {f : α → α'}
    {g : β → β'} (hfg : ∀ a b, r a b → r' (f a) (g b)) {x : Option α} {y : Option β}
    (h : Option.Rel r x y) : Option.Rel r' (x.map f) (y.map g) := by
  cases h with
  | none => exact .none
  | some hab => exact .some (hfg _ _ hab)

theorem rel_isSome {α β : Type} {r : α → β → Prop} {x : Option α} {y : Option β}
    (h : Option.Rel r x y) : x.isSome = y.isSome := by
  cases h <;> rfl

/-- One move of two configurations with related tasks. -/
theorem next_rel {S : σ → σ → Prop} {r : τ → τ → Prop} {c₁ c₂ : Config σ τ} {m : Move ε}
    (hr : List.Forall₂ r c₁.pool c₂.pool)
    (hspawn : ∀ e, m = .spawn e → StepRel S r (M.spawn e c₁.shared) (M.spawn e c₂.shared))
    (hact : ∀ i e t₁ t₂, m = .act i e → c₁.pool[i]? = some t₁ → r t₁ t₂ →
      StepRel S r (M.step e t₁ c₁.shared) (M.step e t₂ c₂.shared))
    (henv : ∀ e, m = .env e → Option.Rel S (M.env e c₁.shared) (M.env e c₂.shared)) :
    NextRel S r (M.next m c₁) (M.next m c₂) := by
  cases m with
  | spawn e =>
    exact rel_map (fun _ _ h => ⟨List.rel_append hr (.cons h.1 .nil), h.2⟩) (hspawn e rfl)
  | act i e =>
    have hi := forall₂_getElem? hr i
    simp only [Machine.next]
    cases ht₁ : c₁.pool[i]? with
    | none =>
      rw [ht₁] at hi
      generalize c₂.pool[i]? = o at hi
      cases hi
      exact .none
    | some t₁ =>
      rw [ht₁] at hi
      generalize c₂.pool[i]? = o at hi
      cases hi with
      | some ht => exact rel_map (fun _ _ h => ⟨forall₂_set hr i h.1, h.2⟩) (hact i e _ _ rfl ht₁ ht)
  | env e => exact rel_map (fun _ _ h => ⟨hr, h⟩) (henv e rfl)

/-! ## Computed runs -/

/-- Run a list of moves on two configurations; `none` if a move is not enabled in both or
    not allowed. -/
def Machine.execBoth (M : Machine σ τ ε) (G : Config σ τ → Config σ τ → Move ε → Prop)
    [∀ c d m, Decidable (G c d m)] :
    List (Move ε) → Config σ τ → Config σ τ → Option (Config σ τ × Config σ τ)
  | [], c, d => some (c, d)
  | m :: ms, c, d =>
    if G c d m then
      match M.next m c, M.next m d with
      | some c', some d' => M.execBoth G ms c' d'
      | _, _ => none
    else none

theorem lockstep_of_exec [∀ c d m, Decidable (G c d m)] (ms : List (Move ε))
    {c₁ c₂ d₁ d₂ e₁ e₂ : Config σ τ} (l : Lockstep M G c₁ c₂ d₁ d₂)
    (h : M.execBoth G ms d₁ d₂ = some (e₁, e₂)) : Lockstep M G c₁ c₂ e₁ e₂ := by
  induction ms generalizing d₁ d₂ with
  | nil =>
    cases h
    exact l
  | cons m ms ih =>
    unfold Machine.execBoth at h
    split_ifs at h with hg
    split at h
    · exact ih (.tail l hg ‹_› ‹_›) h
    · cases h

/-- Two executions that end in configurations with the property `p`. -/
theorem exists_lockstep [∀ c d m, Decidable (G c d m)] {a b : Config σ τ} (ms : List (Move ε))
    {p : Config σ τ × Config σ τ → Bool} (h : (M.execBoth G ms a b).any p = true) :
    ∃ d₁ d₂, Lockstep M G a b d₁ d₂ ∧ p (d₁, d₂) = true := by
  obtain ⟨⟨d₁, d₂⟩, hd, hp⟩ := (Option.any_eq_true _ _).mp h
  exact ⟨d₁, d₂, lockstep_of_exec ms .refl hd, hp⟩

end Interleave
