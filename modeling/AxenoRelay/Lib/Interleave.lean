/-
  Tasks over a shared state, interleaved step by step.

  A `Machine` gives the atomic steps: what one task does next under an event
  (`step`), what the surroundings do on their own (`env`), and how a task begins
  (`spawn`). A `Config` is the shared state and the pool of tasks; finished tasks
  stay in the pool, so a task keeps its place. `Run G c₀ c`: `c` is reached from
  `c₀` by steps that each satisfy the guard `G` in the configuration they start
  from. There is no scheduler: a run is any sequence of enabled steps.

  `Run.invariant` is the induction rule, `total` adds up what the tasks in the
  pool still owe, and `exec` runs a given list of events, so that a concrete run
  is a computation (`run_of_exec`).
-/
import Mathlib.Tactic

namespace Interleave

/-- Atomic steps of tasks `τ` over a shared state `σ`, under events `ε`. -/
structure Machine (σ τ ε : Type) where
  spawn : ε → σ → Option (τ × σ)
  step : ε → τ → σ → Option (τ × σ)
  env : ε → σ → Option σ

/-- A shared state and the tasks over it. -/
structure Config (σ τ : Type) where
  shared : σ
  pool : List τ

/-- Who moves: a new task, the task at a place of the pool, or the surroundings. -/
inductive Move (ε : Type) where
  | spawn (e : ε)
  | act (i : Nat) (e : ε)
  | env (e : ε)

variable {σ τ ε : Type}

namespace Config

/-- What the tasks in the pool owe in total, by the weight `w` of each. -/
def total {A : Type} [AddCommMonoid A] (w : τ → A) (c : Config σ τ) : A := (c.pool.map w).sum

end Config

namespace Machine

/-- The next configuration, if the move is enabled. -/
def next (M : Machine σ τ ε) : Move ε → Config σ τ → Option (Config σ τ)
  | .spawn e, c => (M.spawn e c.shared).map fun r => ⟨r.2, c.pool ++ [r.1]⟩
  | .act i e, c =>
    match c.pool[i]? with
    | none => none
    | some t => (M.step e t c.shared).map fun r => ⟨r.2, c.pool.set i r.1⟩
  | .env e, c => (M.env e c.shared).map fun s => ⟨s, c.pool⟩

/-- Run a list of moves; `none` if one of them is not enabled or not allowed by `G`. -/
def exec (M : Machine σ τ ε) (G : Config σ τ → Move ε → Prop) [∀ c m, Decidable (G c m)] :
    List (Move ε) → Config σ τ → Option (Config σ τ)
  | [], c => some c
  | m :: ms, c =>
    if G c m then
      match M.next m c with
      | none => none
      | some c' => M.exec G ms c'
    else none

end Machine

/-- `c` is reached from `c₀` by moves that satisfy `G` where they are taken. -/
inductive Run (M : Machine σ τ ε) (G : Config σ τ → Move ε → Prop) (c₀ : Config σ τ) :
    Config σ τ → Prop
  | refl : Run M G c₀ c₀
  | tail {c c' : Config σ τ} {m : Move ε} (r : Run M G c₀ c) (g : G c m)
      (h : M.next m c = some c') : Run M G c₀ c'

/-- Every move is allowed. -/
def anyMove : Config σ τ → Move ε → Prop := fun _ _ => True

instance : ∀ (c : Config σ τ) (m : Move ε), Decidable (anyMove c m) := fun _ _ => isTrue trivial

/-- A guard that looks at the task that moves can be decided. -/
instance decidableForallSome {α : Type} (o : Option α) (p : α → Prop) [DecidablePred p] :
    Decidable (∀ a, o = some a → p a) :=
  match o with
  | none => isTrue fun _ h => nomatch h
  | some a => decidable_of_iff (p a) ⟨fun h _ he => Option.some.inj he ▸ h, fun h => h a rfl⟩

/-! ## Inversion of one move -/

theorem next_spawn {M : Machine σ τ ε} {e : ε} {c c' : Config σ τ}
    (h : M.next (.spawn e) c = some c') :
    ∃ t s, M.spawn e c.shared = some (t, s) ∧ c' = ⟨s, c.pool ++ [t]⟩ := by
  obtain ⟨⟨t, s⟩, h1, h2⟩ := Option.map_eq_some_iff.mp h
  exact ⟨t, s, h1, h2.symm⟩

theorem next_act {M : Machine σ τ ε} {i : Nat} {e : ε} {c c' : Config σ τ}
    (h : M.next (.act i e) c = some c') :
    ∃ t t' s, c.pool[i]? = some t ∧ M.step e t c.shared = some (t', s) ∧
      c' = ⟨s, c.pool.set i t'⟩ := by
  unfold Machine.next at h
  cases ht : c.pool[i]? with
  | none => simp [ht] at h
  | some t =>
    simp only [ht] at h
    obtain ⟨⟨t', s⟩, h1, h2⟩ := Option.map_eq_some_iff.mp h
    exact ⟨t, t', s, rfl, h1, h2.symm⟩

theorem next_env {M : Machine σ τ ε} {e : ε} {c c' : Config σ τ}
    (h : M.next (.env e) c = some c') :
    ∃ s, M.env e c.shared = some s ∧ c' = ⟨s, c.pool⟩ := by
  obtain ⟨s, h1, h2⟩ := Option.map_eq_some_iff.mp h
  exact ⟨s, h1, h2.symm⟩

/-! ## Runs -/

variable {M : Machine σ τ ε} {G : Config σ τ → Move ε → Prop}

/-- What holds at the start and is preserved by every allowed move holds in every
    configuration reached. -/
theorem Run.invariant {P : Config σ τ → Prop} {c₀ c : Config σ τ} (r : Run M G c₀ c)
    (h0 : P c₀)
    (hstep : ∀ c m c', P c → G c m → M.next m c = some c' → P c') : P c := by
  induction r with
  | refl => exact h0
  | tail _ g h ih => exact hstep _ _ _ ih g h

theorem Run.mono {G' : Config σ τ → Move ε → Prop} (hG : ∀ c m, G c m → G' c m)
    {c₀ c : Config σ τ} (r : Run M G c₀ c) : Run M G' c₀ c := by
  induction r with
  | refl => exact .refl
  | tail _ g h ih => exact .tail ih (hG _ _ g) h

theorem Run.trans {c₀ c₁ c₂ : Config σ τ} (r : Run M G c₀ c₁) (r' : Run M G c₁ c₂) :
    Run M G c₀ c₂ := by
  induction r' with
  | refl => exact r
  | tail _ g h ih => exact .tail ih g h

theorem exec_cons [∀ c m, Decidable (G c m)] {m : Move ε} {ms : List (Move ε)}
    {c c' : Config σ τ} (h : M.exec G (m :: ms) c = some c') :
    ∃ c₁, G c m ∧ M.next m c = some c₁ ∧ M.exec G ms c₁ = some c' := by
  unfold Machine.exec at h
  split_ifs at h with hg
  cases h1 : M.next m c with
  | none =>
    rw [h1] at h
    cases h
  | some c₁ =>
    rw [h1] at h
    exact ⟨c₁, hg, rfl, h⟩

/-- A computed execution is a run. -/
theorem run_of_exec [∀ c m, Decidable (G c m)] (ms : List (Move ε)) {c c' : Config σ τ}
    (h : M.exec G ms c = some c') : Run M G c c' := by
  induction ms generalizing c with
  | nil =>
    obtain rfl : c = c' := Option.some.inj h
    exact .refl
  | cons m ms ih =>
    obtain ⟨c₁, hg, h1, h2⟩ := exec_cons h
    exact (Run.tail .refl hg h1).trans (ih h2)

/-- An execution that ends in a configuration with the property `p`. -/
theorem exists_run [∀ c m, Decidable (G c m)] {c : Config σ τ} (ms : List (Move ε))
    {p : Config σ τ → Bool} (h : (M.exec G ms c).any p = true) :
    ∃ c', Run M G c c' ∧ p c' = true := by
  obtain ⟨c', hc, hp⟩ := Option.any_eq_true_iff_get _ _ |>.mp h |> fun ⟨hs, hp⟩ =>
    (⟨_, (Option.some_get hs).symm, hp⟩ : ∃ c', M.exec G ms c = some c' ∧ p c' = true)
  exact ⟨c', run_of_exec ms hc, hp⟩

/-- An execution through a marked move: where it is taken, `p` holds, and at the end `q`. -/
theorem exists_run_through [∀ c m, Decidable (G c m)] {c : Config σ τ} (ms : List (Move ε))
    (m : Move ε) (ms' : List (Move ε)) {p q : Config σ τ → Bool}
    (h : ((M.exec G ms c).any fun c₀ => p c₀ && (M.next m c₀).any fun c₁ =>
      (M.exec G ms' c₁).any q) = true) :
    ∃ c₀ c₁ c', Run M G c c₀ ∧ p c₀ = true ∧ M.next m c₀ = some c₁ ∧ Run M G c₁ c' ∧
      q c' = true := by
  obtain ⟨c₀, hrun, hp⟩ := exists_run ms h
  obtain ⟨hp₀, hnext⟩ := Bool.and_eq_true_iff.mp hp
  cases hc₁ : M.next m c₀ with
  | none =>
    rw [hc₁] at hnext
    cases hnext
  | some c₁ =>
    rw [hc₁] at hnext
    obtain ⟨c', hrun', hq⟩ := exists_run ms' hnext
    exact ⟨c₀, c₁, c', hrun, hp₀, hc₁, hrun', hq⟩

/-- During the run the task at place `i` was `t` and stepped, by a move that did `P`. -/
def Passes (M : Machine σ τ ε) (G : Config σ τ → Move ε → Prop) (c₀ : Config σ τ) (i : Nat) (t : τ)
    (P : Config σ τ → Config σ τ → Prop) (c : Config σ τ) : Prop :=
  ∃ a b e, Run M G c₀ a ∧ a.pool[i]? = some t ∧ M.next (.act i e) a = some b ∧ P a b ∧ Run M G b c

theorem Passes.tail {c₀ c c' : Config σ τ} {i : Nat} {t : τ} {P : Config σ τ → Config σ τ → Prop}
    (h : Passes M G c₀ i t P c) {m : Move ε} (g : G c m) (hn : M.next m c = some c') :
    Passes M G c₀ i t P c' := by
  obtain ⟨a, b, e, r, ha, hab, hp, r'⟩ := h
  exact ⟨a, b, e, r, ha, hab, hp, .tail r' g hn⟩

/-! ## The pool after a move -/

theorem mem_set_cases {l : List τ} {i : Nat} {a b : τ} (h : a ∈ l.set i b) : a = b ∨ a ∈ l :=
  (List.mem_or_eq_of_mem_set h).symm

theorem mem_set_self {l : List τ} {i : Nat} {a : τ} (hi : l[i]? = some a) (b : τ) :
    b ∈ l.set i b :=
  List.mem_set (List.getElem?_eq_some_iff.mp hi).1 b

/-- A property some task has is kept if the task that moved keeps it. -/
theorem exists_set {l : List τ} {i : Nat} {a b : τ} (hi : l[i]? = some a) {P : τ → Prop}
    (hab : P a → P b) (h : ∃ x ∈ l, P x) : ∃ x ∈ l.set i b, P x := by
  obtain ⟨x, hx, hp⟩ := h
  obtain ⟨j, hj⟩ := List.mem_iff_getElem?.mp hx
  by_cases hij : i = j
  · subst hij
    rw [hi] at hj
    rw [Option.some.inj hj] at hab
    exact ⟨b, mem_set_self hi b, hab hp⟩
  · refine ⟨x, List.mem_of_getElem? (i := j) ?_, hp⟩
    rw [List.getElem?_set_ne hij, hj]

/-- A task of the pool after `act i` is the task that moved or one at another place. -/
theorem getElem?_set_cases {l : List τ} {i j : Nat} {a b : τ} (h : (l.set i b)[j]? = some a) :
    (j = i ∧ a = b) ∨ (j ≠ i ∧ l[j]? = some a) := by
  rw [List.getElem?_set] at h
  by_cases hij : i = j
  · subst hij
    rw [if_pos rfl] at h
    split at h
    · exact Or.inl ⟨rfl, (Option.some.inj h).symm⟩
    · cases h
  · exact Or.inr ⟨fun e => hij e.symm, by simpa [hij] using h⟩

/-- A task of the pool after `spawn` is an old one or the new one. -/
theorem getElem?_snoc_cases {l : List τ} {i : Nat} {a b : τ} (h : (l ++ [b])[i]? = some a) :
    l[i]? = some a ∨ (i = l.length ∧ a = b) := by
  rw [List.getElem?_append] at h
  split_ifs at h with hi
  · exact Or.inl h
  · obtain ⟨h1, h2⟩ := List.getElem?_eq_some_iff.mp h
    rw [List.length_singleton] at h1
    refine Or.inr ⟨by omega, ?_⟩
    rw [← h2, List.getElem_singleton]

section Totals

variable {A : Type} [AddCommMonoid A]

theorem sum_map_set (w : τ → A) {l : List τ} {i : Nat} {a : τ} (h : l[i]? = some a) (b : τ) :
    ((l.set i b).map w).sum + w a = (l.map w).sum + w b := by
  induction l generalizing i with
  | nil => simp at h
  | cons x l ih =>
    cases i with
    | zero =>
      obtain rfl : x = a := by simpa using h
      rw [List.set_cons_zero, List.map_cons, List.sum_cons, List.map_cons, List.sum_cons]
      rw [add_right_comm, add_comm (w b), add_right_comm, add_comm (w x)]
    | succ i =>
      have := ih (i := i) (by simpa using h)
      rw [List.set_cons_succ, List.map_cons, List.sum_cons, List.map_cons, List.sum_cons,
        add_assoc, this, add_assoc]

theorem total_act (w : τ → A) {c : Config σ τ} {i : Nat} {t u : τ} {s : σ}
    (h : c.pool[i]? = some t) :
    Config.total w ⟨s, c.pool.set i u⟩ + w t = c.total w + w u :=
  sum_map_set w h u

theorem total_spawn (w : τ → A) (c : Config σ τ) (t : τ) (s : σ) :
    Config.total w (⟨s, c.pool ++ [t]⟩ : Config σ τ) = c.total w + w t := by
  simp [Config.total]

theorem total_eq_zero {w : τ → A} {c : Config σ τ} (h : ∀ t ∈ c.pool, w t = 0) :
    c.total w = 0 := by
  refine List.sum_eq_zero fun x hx => ?_
  obtain ⟨t, ht, rfl⟩ := List.mem_map.mp hx
  exact h t ht

end Totals

theorem le_total {w : τ → Nat} {c : Config σ τ} {t : τ} (h : t ∈ c.pool) : w t ≤ c.total w :=
  List.single_le_sum (fun _ _ => Nat.zero_le _) _ (List.mem_map_of_mem h)

/-- Two different tasks of the pool count separately. -/
theorem add_le_total {w : τ → Nat} {c : Config σ τ} {t u : τ} (ht : t ∈ c.pool)
    (hu : u ∈ c.pool) (hne : t ≠ u) : w t + w u ≤ c.total w := by
  obtain ⟨l, l', hl⟩ := List.append_of_mem ht
  have hmem : u ∈ l ++ l' := by
    rw [hl, List.mem_append, List.mem_cons] at hu
    rcases hu with h | h | h
    · exact List.mem_append_left _ h
    · exact absurd h.symm hne
    · exact List.mem_append_right _ h
  have hle : w u ≤ ((l ++ l').map w).sum :=
    List.single_le_sum (fun _ _ => Nat.zero_le _) _ (List.mem_map_of_mem hmem)
  rw [List.map_append, List.sum_append] at hle
  unfold Config.total
  rw [hl, List.map_append, List.sum_append, List.map_cons, List.sum_cons]
  omega

end Interleave
