/-
  Machines that come to rest.

  Every task has a rank in an ordered monoid, and the shared state a load. The measure of a
  configuration is the sum of the ranks and then the load. A step of a task that lowers its
  rank lowers the measure whatever it does to the load, so the ranks need only fall along
  each task's own course. Over a well-founded order, an endless run that never raises the
  measure lowers it finitely often (`eventually_not`).
-/
import AxenoRelay.Lib.Interleave

namespace Interleave

variable {σ τ : Type}

section Measure

variable {A : Type} [AddCommMonoid A] [PartialOrder A]

/-- The ranks of all tasks, and then the load of the shared state. -/
def Config.measure (rank : τ → A) (load : σ → Nat) (c : Config σ τ) : A ×ₗ ℕ :=
  toLex (c.total rank, load c.shared)

variable {rank : τ → A} {load : σ → Nat} {c : Config σ τ}

theorem measure_env_lt {s : σ} (h : load s < load c.shared) :
    Config.measure rank load ⟨s, c.pool⟩ < c.measure rank load :=
  Prod.Lex.toLex_lt_toLex.mpr (Or.inr ⟨rfl, h⟩)

theorem measure_env_le {s : σ} (h : load s ≤ load c.shared) :
    Config.measure rank load ⟨s, c.pool⟩ ≤ c.measure rank load :=
  Prod.Lex.toLex_le_toLex.mpr (Or.inr ⟨rfl, h⟩)

variable [IsOrderedCancelAddMonoid A]

theorem total_act_lt {i : Nat} {t u : τ} (s : σ) (ht : c.pool[i]? = some t)
    (h : rank u < rank t) : Config.total rank ⟨s, c.pool.set i u⟩ < c.total rank := by
  apply lt_of_add_lt_add_right (a := rank t)
  rw [total_act rank ht]
  exact add_lt_add_right h (c.total rank)

theorem measure_act_lt {i : Nat} {t u : τ} (s : σ) (ht : c.pool[i]? = some t)
    (h : rank u < rank t) :
    Config.measure rank load ⟨s, c.pool.set i u⟩ < c.measure rank load :=
  Prod.Lex.toLex_lt_toLex.mpr (Or.inl (total_act_lt s ht h))

end Measure

/-- An endless run along which a well-founded measure never rises has only finitely many of the
    steps that lower it. -/
theorem eventually_not {α β : Type} [Preorder β] [WellFoundedLT β] (m : α → β)
    (works : α → α → Prop) (hworks : ∀ a b, works a b → m b < m a) (f : ℕ → α)
    (hle : ∀ n, m (f (n + 1)) ≤ m (f n)) : ∃ N, ∀ n, N ≤ n → ¬ works (f n) (f (n + 1)) := by
  have hanti : Antitone (m ∘ f) := antitone_nat_of_succ_le hle
  -- induction on the measure the run starts with
  suffices h : ∀ (b : β) (k : ℕ), m (f k) = b →
      ∃ N, ∀ n, N ≤ n → ¬ works (f n) (f (n + 1)) from h _ 0 rfl
  intro b
  induction b using WellFoundedLT.induction with
  | ind b ih =>
    intro k hk
    by_cases hend : ∀ n, k ≤ n → ¬ works (f n) (f (n + 1))
    · exact ⟨k, hend⟩
    · push Not at hend
      obtain ⟨n, hkn, hn⟩ := hend
      have hlt : m (f (n + 1)) < b := by
        calc m (f (n + 1)) < m (f n) := hworks _ _ hn
          _ ≤ m (f k) := hanti hkn
          _ = b := hk
      exact ih _ hlt (n + 1) rfl

end Interleave
