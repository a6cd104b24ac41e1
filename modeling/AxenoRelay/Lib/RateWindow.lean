/-
  A call counter that restarts with its window.

  The entry holds when its window began and how many calls the window let through. A call
  more than `W` after the beginning starts the next window and is let through; in a window
  that let `M` through, a call is refused. `Tracks` is what the entry says about the calls
  so far, whatever their times: a closed interval of length `W` meets at most two windows,
  so it holds at most `2 * M` calls that were let through (`Served.passed_le`).
-/
import Mathlib.Data.List.Basic
import Mathlib.Tactic

namespace RateWindow

/-- A call at time `now`: is it let through, and the entry it leaves. -/
def allow (W M now : Nat) (entry : Option (Nat × Nat)) : Bool × Nat × Nat :=
  let e := entry.getD (now, 0)
  if W < now - e.1 then (true, now, 1)
  else if M ≤ e.2 then (false, e)
  else (true, e.1, e.2 + 1)

/-- The calls so far, newest first: when, and whether it was let through. -/
abbrev Calls := List (Nat × Bool)

/-- How many calls at a time with `p` were let through. -/
def passed (p : Nat → Bool) (h : Calls) : Nat := h.countP fun c => c.2 && p c.1

/-- The calls `h`, in the order of their times, lead from no entry to `e`. -/
inductive Served (W M : Nat) : Calls → Option (Nat × Nat) → Prop
  | start : Served W M [] none
  | call {h : Calls} {e : Option (Nat × Nat)} {now : Nat} (r : Served W M h e)
      (hnow : ∀ c ∈ h, c.1 ≤ now) :
      Served W M ((now, (allow W M now e).1) :: h) (some (allow W M now e).2)

/-! ## Counting -/

@[simp] theorem passed_nil (p : Nat → Bool) : passed p [] = 0 := rfl

theorem passed_refused (p : Nat → Bool) (t : Nat) (h : Calls) :
    passed p ((t, false) :: h) = passed p h := by
  simp [passed]

theorem passed_cons (p : Nat → Bool) (t : Nat) (h : Calls) :
    passed p ((t, true) :: h) = passed p h + if p t then 1 else 0 := by
  simp [passed, List.countP_cons]

theorem passed_mono {p q : Nat → Bool} {h : Calls} (hpq : ∀ c ∈ h, p c.1 = true → q c.1 = true) :
    passed p h ≤ passed q h := by
  refine List.countP_mono_left fun c hc hp => ?_
  obtain ⟨h1, h2⟩ := Bool.and_eq_true_iff.mp hp
  exact Bool.and_eq_true_iff.mpr ⟨h1, hpq c hc h2⟩

/-- Count on both sides of `s`. -/
theorem passed_split (p : Nat → Bool) (s : Nat) (h : Calls) :
    passed p h = passed (fun t => p t && decide (t < s)) h +
      passed (fun t => p t && decide (s ≤ t)) h := by
  induction h with
  | nil => rfl
  | cons c h ih =>
    obtain ⟨t, ok⟩ := c
    cases ok with
    | false => rw [passed_refused, passed_refused, passed_refused, ih]
    | true =>
      rw [passed_cons, passed_cons, passed_cons, ih]
      rcases lt_or_ge t s with hts | hts
      · simp [hts, hts.not_ge]
        omega
      · simp [hts, hts.not_gt]
        omega

/-- Is the time in the closed interval of length `W` from `a`? -/
def within (W a t : Nat) : Bool := decide (a ≤ t) && decide (t ≤ a + W)

/-! ## What the entry says about the calls -/

/-- The window began at `start` and let `count` calls through. -/
structure Tracks (W M : Nat) (h : Calls) (start count : Nat) : Prop where
  /-- The window began with a call. -/
  begun : ∃ c ∈ h, start ≤ c.1
  /-- No call was made after the window's end. -/
  ended : ∀ c ∈ h, c.1 ≤ start + W
  full : count ≤ M
  current : passed (fun t => decide (start ≤ t)) h = count
  /-- An interval that reaches into the window has few calls before it. -/
  before : ∀ a, start ≤ a + W →
    passed (fun t => within W a t && decide (t < start)) h ≤ M
  any : ∀ a, passed (within W a) h ≤ 2 * M

section

variable {W M : Nat}

/-- The first call of all. -/
theorem tracks_first (hM : 0 < M) (now : Nat) : Tracks W M [(now, true)] now 1 where
  begun := ⟨_, List.mem_singleton_self _, le_rfl⟩
  ended := fun _ hc => List.mem_singleton.mp hc ▸ Nat.le_add_right _ _
  full := hM
  current := by simp [passed]
  before := fun a _ => by simp [passed]
  any := fun a => by
    have hle := List.countP_le_length (p := fun c : Nat × Bool => c.2 && within W a c.1)
      (l := [(now, true)])
    rw [List.length_singleton] at hle
    exact hle.trans (by omega)

variable {h : Calls} {start count now : Nat}

/-- A refused call changes nothing. -/
theorem Tracks.refused (ht : Tracks W M h start count) (hin : now ≤ start + W) :
    Tracks W M ((now, false) :: h) start count where
  begun := ht.begun.imp fun _ hc => ⟨List.mem_cons_of_mem _ hc.1, hc.2⟩
  ended := List.forall_mem_cons.mpr ⟨hin, ht.ended⟩
  full := ht.full
  current := (passed_refused _ _ _).trans ht.current
  before := fun a ha => (passed_refused _ _ _).trans_le (ht.before a ha)
  any := fun a => (passed_refused _ _ _).trans_le (ht.any a)

theorem Tracks.start_le (ht : Tracks W M h start count) (hnow : ∀ c ∈ h, c.1 ≤ now) :
    start ≤ now := by
  obtain ⟨c, hc, hs⟩ := ht.begun
  exact hs.trans (hnow c hc)

/-- One more call in the window. -/
theorem Tracks.counted (ht : Tracks W M h start count) (hnow : ∀ c ∈ h, c.1 ≤ now)
    (hin : now ≤ start + W) (hroom : count < M) :
    Tracks W M ((now, true) :: h) start (count + 1) := by
  have hs := ht.start_le hnow
  have hcur : passed (fun t => decide (start ≤ t)) ((now, true) :: h) = count + 1 := by
    rw [passed_cons, ht.current, if_pos (decide_eq_true hs)]
  have hbefore : ∀ a, start ≤ a + W →
      passed (fun t => within W a t && decide (t < start)) ((now, true) :: h) ≤ M := by
    intro a ha
    rw [passed_cons, if_neg (by simp [hs.not_gt])]
    exact ht.before a ha
  refine ⟨ht.begun.imp fun _ hc => ⟨List.mem_cons_of_mem _ hc.1, hc.2⟩,
    List.forall_mem_cons.mpr ⟨hin, ht.ended⟩, hroom, hcur, hbefore, fun a => ?_⟩
  rcases lt_or_ge (a + W) start with ha | ha
  · -- the interval ends before the window begins
    rw [passed_cons, if_neg (by simp [within]; omega)]
    exact ht.any a
  · rw [passed_split _ start]
    have hlate : passed (fun t => within W a t && decide (start ≤ t)) ((now, true) :: h) ≤
        count + 1 := hcur ▸ passed_mono fun c _ hc => (Bool.and_eq_true_iff.mp hc).2
    have hearly := hbefore a ha
    omega

/-- A call after the window's end starts the next one. -/
theorem Tracks.restarted (ht : Tracks W M h start count) (hM : 0 < M)
    (hout : start + W < now) :
    Tracks W M ((now, true) :: h) now 1 := by
  have hold : ∀ c ∈ h, c.1 < now := fun c hc => (ht.ended c hc).trans_lt hout
  -- what lies in an interval up to `now` was let through by the last window
  have hlast : ∀ a, now ≤ a + W → passed (within W a) h ≤ M := by
    intro a ha
    refine le_trans ?_ (ht.current.trans_le ht.full)
    refine passed_mono fun c _ hc => decide_eq_true ?_
    have hac := of_decide_eq_true (Bool.and_eq_true_iff.mp hc).1
    omega
  have hnone : passed (fun t => decide (now ≤ t)) h = 0 :=
    List.countP_eq_zero.mpr fun c hc => by simp [(hold c hc).not_ge]
  refine ⟨⟨_, List.mem_cons_self, le_rfl⟩, ?_, hM, ?_, fun a ha => ?_, fun a => ?_⟩
  · exact List.forall_mem_cons.mpr ⟨Nat.le_add_right _ _,
      fun c hc => (hold c hc).le.trans (Nat.le_add_right _ _)⟩
  · rw [passed_cons, hnone, if_pos (decide_eq_true le_rfl)]
  · rw [passed_cons, if_neg (by simp)]
    have hle := passed_mono (p := fun t => within W a t && decide (t < now)) (h := h)
      fun _ _ hc => (Bool.and_eq_true_iff.mp hc).1
    exact hle.trans (hlast a ha)
  · rw [passed_cons]
    split_ifs with hin
    · have hle := hlast a (of_decide_eq_true (Bool.and_eq_true_iff.mp hin).2)
      omega
    · exact ht.any a

/-- What a call leaves tells what its window let through. -/
theorem Tracks.called (ht : Tracks W M h start count) (hM : 0 < M) (hnow : ∀ c ∈ h, c.1 ≤ now) :
    Tracks W M ((now, (allow W M now (some (start, count))).1) :: h)
      (allow W M now (some (start, count))).2.1 (allow W M now (some (start, count))).2.2 := by
  have hs := ht.start_le hnow
  unfold allow
  dsimp only [Option.getD_some]
  split_ifs with hout hfull
  · exact ht.restarted hM (by omega)
  · exact ht.refused (by omega)
  · exact ht.counted hnow (by omega) (by omega)

/-- A window that is opened before the first call. -/
theorem tracks_opened (t : Nat) : Tracks W M [(t, false)] t 0 where
  begun := ⟨_, List.mem_singleton_self _, le_rfl⟩
  ended := fun _ hc => List.mem_singleton.mp hc ▸ Nat.le_add_right _ _
  full := Nat.zero_le _
  current := passed_refused _ _ _
  before := fun _ _ => (passed_refused _ _ _).trans_le (Nat.zero_le _)
  any := fun _ => (passed_refused _ _ _).trans_le (Nat.zero_le _)

/-- No call was made yet, or the entry tells what its window let through. -/
theorem Served.tracks (hM : 0 < M) {e : Option (Nat × Nat)} (r : Served W M h e) :
    h = [] ∧ e = none ∨ ∃ start count, e = some (start, count) ∧ Tracks W M h start count := by
  induction r with
  | start => exact Or.inl ⟨rfl, rfl⟩
  | @call h e now r hnow ih =>
    refine Or.inr ?_
    rcases ih with ⟨rfl, rfl⟩ | ⟨start, count, rfl, ht⟩
    · have hfirst : allow W M now none = (true, now, 1) := by
        simp [allow, hM.ne']
      rw [hfirst]
      exact ⟨now, 1, rfl, tracks_first hM now⟩
    · exact ⟨_, _, rfl, ht.called hM hnow⟩

/-- **The bound**: a closed interval of length `W` has at most `2 * M` calls let through. -/
theorem Served.passed_le (hM : 0 < M) {e : Option (Nat × Nat)} (r : Served W M h e) (a : Nat) :
    passed (within W a) h ≤ 2 * M := by
  rcases r.tracks hM with ⟨rfl, -⟩ | ⟨start, count, -, ht⟩
  · exact Nat.zero_le _
  · exact ht.any a

/-- **A call is refused only for a full window**: the one it falls into let `M` through. -/
theorem Served.refused (hM : 0 < M) {e : Option (Nat × Nat)} (r : Served W M h e)
    (hnow : ∀ c ∈ h, c.1 ≤ now) (href : (allow W M now e).1 = false) :
    ∃ start, e = some (start, M) ∧ start ≤ now ∧ now ≤ start + W ∧
      passed (fun t => decide (start ≤ t) && decide (t ≤ now)) h = M := by
  rcases r.tracks hM with ⟨rfl, rfl⟩ | ⟨start, count, rfl, ht⟩
  · simp [allow, hM.ne'] at href
  · unfold allow at href
    dsimp only [Option.getD_some] at href
    split_ifs at href with hout hfull
    have hcount : count = M := le_antisymm ht.full hfull
    refine ⟨start, by rw [hcount], ht.start_le hnow, by omega, ?_⟩
    rw [← hcount, ← ht.current]
    exact List.countP_congr fun c hc => by simp [hnow c hc]

/-- The times of the calls determine the entry. -/
theorem Served.entry_eq {e e' : Option (Nat × Nat)} {h' : Calls} (r : Served W M h e)
    (r' : Served W M h' e') (ht : h'.map Prod.fst = h.map Prod.fst) : e' = e := by
  induction r generalizing h' e' with
  | start =>
    cases r' with
    | start => rfl
    | call r' _ => simp at ht
  | call r _ ih =>
    cases r' with
    | start => simp at ht
    | call r' _ =>
      rw [List.map_cons, List.map_cons, List.cons.injEq] at ht
      obtain ⟨hn, ht⟩ := ht
      dsimp only at hn
      rw [hn, ih r' ht]

end

end RateWindow
