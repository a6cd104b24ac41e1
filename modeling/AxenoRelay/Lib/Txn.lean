/-
  Database transactions whose calls can fail.

  A transaction body reads and changes a table state `T`, call by call. Whether
  a call fails is decided outside the program, by a fault pattern: one Boolean
  for each coming call, `true` for a failure; calls past its end succeed. A
  failed call ends the body with the error the program gives it, and `commit`
  then drops every change: the tables are as they were.

  `Sound` is the rule the proofs use: whatever the fault pattern was, a body that
  ran to its end did exactly what it does when no call fails (`Sound.eq_of_ok`).
  So a proof computes one result, and the failure points only ever add the case
  "nothing happened" (`commit_cases`).
-/
import Mathlib.Tactic

/-- Which of the coming database calls fail. -/
abbrev Faults := List Bool

/-- A transaction body over tables `T`, with errors `ε`. -/
def Txn (ε T α : Type) := T → Faults → Except ε (α × T × Faults)

namespace Txn

variable {ε T α β : Type}

instance : Monad (Txn ε T) where
  pure a := fun s fs => .ok (a, s, fs)
  bind x f := fun s fs =>
    match x s fs with
    | .error e => .error e
    | .ok (a, s', fs') => f a s' fs'

/-- Stop with an error of the program's own. -/
def fail (e : ε) : Txn ε T α := fun _ _ => .error e

/-- A call that changes the tables by `f` and returns a value, or fails with `e`. -/
def call (e : ε) (f : T → α × T) : Txn ε T α := fun s fs =>
  match fs with
  | true :: _ => .error e
  | _ => .ok ((f s).1, (f s).2, fs.tail)

/-- A call with no effect on the tables: begin, open, commit. -/
def touch (e : ε) : Txn ε T Unit := call e fun s => ((), s)

/-- A call that reads the tables. -/
def read (e : ε) (f : T → α) : Txn ε T α := call e fun s => (f s, s)

/-- A call that changes the tables. -/
def modify (e : ε) (f : T → T) : Txn ε T Unit := call e fun s => ((), f s)

/-- A call whose failure the program swallows: whether it succeeded. -/
def attempt : Txn ε T Bool := fun s fs =>
  match fs with
  | true :: fs => .ok (false, s, fs)
  | _ => .ok (true, s, fs.tail)

/-- Run `f` for each element, in order. -/
def each (f : α → Txn ε T Unit) : List α → Txn ε T Unit
  | [] => pure ()
  | a :: l => do f a; each f l

/-- Run `f` over a list, passing an accumulator along. -/
def fold (f : β → α → Txn ε T β) : β → List α → Txn ε T β
  | b, [] => pure b
  | b, a :: l => do fold f (← f b a) l

/-- Run a body and commit it: the tables change only if it ran to its end. -/
def commit (t : Txn ε T α) (fs : Faults) (s : T) : Except ε α × T :=
  match t s fs with
  | .ok (a, s', _) => (.ok a, s')
  | .error e => (.error e, s)

/-! ## What a body does when it ends -/

theorem pure_run (a : α) (s : T) (fs : Faults) :
    (pure a : Txn ε T α) s fs = .ok (a, s, fs) := rfl

theorem bind_run (x : Txn ε T α) (f : α → Txn ε T β) (s : T) (fs : Faults) :
    (x >>= f) s fs = match x s fs with
      | .error e => .error e
      | .ok (a, s', fs') => f a s' fs' := rfl

theorem bind_eq_ok {x : Txn ε T α} {f : α → Txn ε T β} {s : T} {fs : Faults} {r : β × T × Faults} :
    (x >>= f) s fs = .ok r ↔ ∃ a s' fs', x s fs = .ok (a, s', fs') ∧ f a s' fs' = .ok r := by
  rw [bind_run]
  cases h : x s fs with
  | error e => simp
  | ok p =>
    obtain ⟨a, s', fs'⟩ := p
    simp

theorem call_ok {e : ε} {f : T → α × T} {s s' : T} {fs fs' : Faults} {a : α}
    (h : call e f s fs = .ok (a, s', fs')) : a = (f s).1 ∧ s' = (f s).2 ∧ fs' = fs.tail := by
  unfold call at h
  split at h
  · cases h
  · obtain ⟨rfl, rfl, rfl⟩ : (f s).1 = a ∧ (f s).2 = s' ∧ fs.tail = fs' := by simpa using h
    exact ⟨rfl, rfl, rfl⟩

/-- A call that no fault hits. -/
theorem call_run {fs : Faults} (h : true ∉ fs) (e : ε) (f : T → α × T) (s : T) :
    call e f s fs = .ok ((f s).1, (f s).2, fs.tail) := by
  unfold call
  split
  · exact absurd List.mem_cons_self h
  · rfl

theorem touch_run {fs : Faults} (h : true ∉ fs) (e : ε) (s : T) :
    touch e s fs = .ok ((), s, fs.tail) := call_run h e _ s

theorem read_run {fs : Faults} (h : true ∉ fs) (e : ε) (f : T → α) (s : T) :
    read e f s fs = .ok (f s, s, fs.tail) := call_run h e _ s

theorem attempt_run {fs : Faults} (h : true ∉ fs) (s : T) :
    (attempt : Txn ε T Bool) s fs = .ok (true, s, fs.tail) := by
  unfold attempt
  split
  · exact absurd List.mem_cons_self h
  · rfl

/-- A body that ends under some fault pattern ends the same way without faults. -/
def Sound (t : Txn ε T α) : Prop :=
  ∀ s fs a s' fs', t s fs = .ok (a, s', fs') → t s [] = .ok (a, s', [])

theorem sound_pure (a : α) : Sound (pure a : Txn ε T α) := by
  intro s fs b s' fs' h
  obtain ⟨rfl, rfl, rfl⟩ : a = b ∧ s = s' ∧ fs = fs' := by simpa [pure_run] using h
  rfl

theorem sound_fail (e : ε) : Sound (fail e : Txn ε T α) := by
  intro s fs a s' fs' h
  cases h

theorem sound_call (e : ε) (f : T → α × T) : Sound (call e f) := by
  intro s fs a s' fs' h
  obtain ⟨rfl, rfl, -⟩ := call_ok h
  rfl

theorem sound_touch (e : ε) : Sound (touch e : Txn ε T Unit) := sound_call e _

theorem sound_read (e : ε) (f : T → α) : Sound (read e f) := sound_call e _

theorem sound_modify (e : ε) (f : T → T) : Sound (modify e f) := sound_call e _

theorem sound_bind {x : Txn ε T α} {f : α → Txn ε T β} (hx : Sound x) (hf : ∀ a, Sound (f a)) :
    Sound (x >>= f) := by
  intro s fs b s' fs' h
  obtain ⟨a, s1, fs1, h1, h2⟩ := bind_eq_ok.mp h
  refine bind_eq_ok.mpr ⟨a, s1, [], hx _ _ _ _ _ h1, hf a _ _ _ _ _ h2⟩

theorem sound_each {f : α → Txn ε T Unit} (hf : ∀ a, Sound (f a)) (l : List α) :
    Sound (each f l) := by
  induction l with
  | nil => exact sound_pure ()
  | cons a l ih => exact sound_bind (hf a) fun _ => ih

theorem sound_fold {f : β → α → Txn ε T β} (hf : ∀ b a, Sound (f b a)) (b : β) (l : List α) :
    Sound (fold f b l) := by
  induction l generalizing b with
  | nil => exact sound_pure b
  | cons a l ih => exact sound_bind (hf b a) fun b' => ih b'

theorem each_run (f : α → T → T) (e : ε) (l : List α) (s : T) :
    each (fun a => modify e (f a)) l s [] = .ok ((), l.foldl (fun s a => f a s) s, []) := by
  induction l generalizing s with
  | nil => rfl
  | cons a l ih => exact ih (f a s)

/-- Calls that change nothing, one for each element. -/
theorem each_touch_run (e : ε) (l : List α) (s : T) :
    each (fun _ => touch e) l s [] = .ok ((), s, []) := by
  induction l with
  | nil => rfl
  | cons a l ih => exact ih

theorem Sound.eq_of_ok {t : Txn ε T α} (h : Sound t) {s : T} {fs : Faults} {r : α × T × Faults}
    {a : α} {s' : T} (hr : t s fs = .ok r) (h0 : t s [] = .ok (a, s', [])) :
    r.1 = a ∧ r.2.1 = s' := by
  obtain ⟨b, s1, fs1⟩ := r
  have := h _ _ _ _ _ hr
  rw [h0] at this
  simp only [Except.ok.injEq, Prod.mk.injEq] at this
  exact ⟨this.1.symm, this.2.1.symm⟩

/-! ## Counting the calls -/

/-- The body makes `n` calls that can fail, and nothing but their failure ends it. -/
def Calls (n : Nat) (t : Txn ε T α) : Prop :=
  ∀ s fs, (true ∈ fs.take n → ∃ e, t s fs = .error e) ∧
    (true ∉ fs.take n → ∃ a s', t s fs = .ok (a, s', fs.drop n))

theorem calls_pure (a : α) : Calls 0 (pure a : Txn ε T α) := by
  intro s fs
  refine ⟨?_, fun _ => ⟨a, s, rfl⟩⟩
  intro h
  cases h

theorem calls_call (e : ε) (f : T → α × T) : Calls 1 (call e f) := by
  intro s fs
  match fs with
  | [] => exact ⟨fun h => absurd h (by simp), fun _ => ⟨_, _, rfl⟩⟩
  | false :: fs => exact ⟨fun h => absurd h (by simp), fun _ => ⟨_, _, rfl⟩⟩
  | true :: fs => exact ⟨fun _ => ⟨e, rfl⟩, fun h => absurd (by simp) h⟩

theorem calls_bind {n m : Nat} {x : Txn ε T α} {f : α → Txn ε T β} (hx : Calls n x)
    (hf : ∀ a, Calls m (f a)) : Calls (n + m) (x >>= f) := by
  intro s fs
  rw [bind_run, List.take_add, List.mem_append, ← List.drop_drop]
  by_cases h1 : true ∈ fs.take n
  · obtain ⟨e, he⟩ := (hx s fs).1 h1
    rw [he]
    exact ⟨fun _ => ⟨e, rfl⟩, fun h => absurd (Or.inl h1) h⟩
  · obtain ⟨a, s', ha⟩ := (hx s fs).2 h1
    rw [ha, or_iff_right h1]
    exact hf a s' (fs.drop n)

theorem calls_each {f : α → Txn ε T Unit} (hf : ∀ a, Calls 1 (f a)) (l : List α) :
    Calls l.length (each f l) := by
  induction l with
  | nil => exact calls_pure ()
  | cons a l ih =>
    rw [List.length_cons, Nat.add_comm]
    exact calls_bind (hf a) fun _ => ih

/-- Started on the tables `s`, the body makes `n` calls that can fail. -/
def CallsAt (s : T) (n : Nat) (t : Txn ε T α) : Prop :=
  ∀ fs, (true ∈ fs.take n → ∃ e, t s fs = .error e) ∧
    (true ∉ fs.take n → ∃ a s', t s fs = .ok (a, s', fs.drop n))

theorem Calls.at {n : Nat} {t : Txn ε T α} (h : Calls n t) (s : T) : CallsAt s n t := h s

theorem callsAt_bind {n m : Nat} {x : Txn ε T α} {f : α → Txn ε T β} {s s' : T} {a : α}
    (hx : CallsAt s n x) (hs : Sound x) (h0 : x s [] = .ok (a, s', []))
    (hf : CallsAt s' m (f a)) : CallsAt s (n + m) (x >>= f) := by
  intro fs
  rw [bind_run, List.take_add, List.mem_append, ← List.drop_drop]
  by_cases h1 : true ∈ fs.take n
  · obtain ⟨e, he⟩ := (hx fs).1 h1
    rw [he]
    exact ⟨fun _ => ⟨e, rfl⟩, fun h => absurd (Or.inl h1) h⟩
  · obtain ⟨b, s1, hb⟩ := (hx fs).2 h1
    obtain ⟨rfl, rfl⟩ : b = a ∧ s1 = s' := by
      have hsame := hs _ _ _ _ _ hb
      rw [h0] at hsame
      simpa [eq_comm] using hsame
    rw [hb, or_iff_right h1]
    exact hf (fs.drop n)

/-! ## Errors -/

/-- The body fails with no other error than `e`. -/
def FailsWith (e : ε) (t : Txn ε T α) : Prop := ∀ s fs e', t s fs = .error e' → e' = e

theorem failsWith_pure (e : ε) (a : α) : FailsWith e (pure a : Txn ε T α) := by
  intro s fs e' h
  cases h

theorem failsWith_fail (e : ε) : FailsWith e (fail e : Txn ε T α) := by
  intro s fs e' h
  cases h
  rfl

theorem failsWith_call (e : ε) (f : T → α × T) : FailsWith e (call e f) := by
  intro s fs e' h
  unfold call at h
  split at h
  · cases h
    rfl
  · cases h

theorem failsWith_bind {e : ε} {x : Txn ε T α} {f : α → Txn ε T β} (hx : FailsWith e x)
    (hf : ∀ a, FailsWith e (f a)) : FailsWith e (x >>= f) := by
  intro s fs e' h
  rw [bind_run] at h
  cases hrun : x s fs with
  | error e₁ =>
    rw [hrun] at h
    cases h
    exact hx s fs _ hrun
  | ok p =>
    obtain ⟨a, s', fs'⟩ := p
    rw [hrun] at h
    exact hf a s' fs' e' h

theorem FailsWith.commit {e e' : ε} {t : Txn ε T α} (ht : FailsWith e t) {fs : Faults} {s : T}
    (h : (t.commit fs s).1 = .error e') : e' = e := by
  unfold Txn.commit at h
  cases hrun : t s fs with
  | error e₁ =>
    rw [hrun] at h
    cases h
    exact ht s fs _ hrun
  | ok p =>
    rw [hrun] at h
    cases h

/-! ## Committing -/

theorem commit_error {t : Txn ε T α} {fs : Faults} {s : T} {e : ε}
    (h : (commit t fs s).1 = .error e) : (commit t fs s).2 = s := by
  unfold commit at h ⊢
  split at h
  · cases h
  · rfl

/-- Either the transaction failed and changed nothing, or it did what it does
    when no call fails. -/
theorem commit_cases {t : Txn ε T α} (ht : Sound t) {s s' : T} {a : α}
    (h0 : t s [] = .ok (a, s', [])) (fs : Faults) :
    (∃ e, commit t fs s = (.error e, s)) ∨ commit t fs s = (.ok a, s') := by
  unfold commit
  cases h : t s fs with
  | error e => exact Or.inl ⟨e, rfl⟩
  | ok r =>
    obtain ⟨h1, h2⟩ := ht.eq_of_ok h h0
    right
    simp [← h1, ← h2]

/-- A body that the program itself ends with an error changes nothing, whatever fails. -/
theorem commit_of_error {t : Txn ε T α} (ht : Sound t) {s : T} {e : ε} (h0 : t s [] = .error e)
    (fs : Faults) : ∃ e', commit t fs s = (.error e', s) := by
  unfold commit
  cases h : t s fs with
  | error e' => exact ⟨e', rfl⟩
  | ok r =>
    obtain ⟨a, s', fs'⟩ := r
    rw [ht _ _ _ _ _ h] at h0
    cases h0

theorem commit_nil {t : Txn ε T α} {s s' : T} {a : α} (h0 : t s [] = .ok (a, s', [])) :
    commit t [] s = (.ok a, s') := by
  simp [commit, h0]

/-- A body of `n` calls fails to commit if and only if one of them fails. -/
theorem CallsAt.commit_cases {n : Nat} {t : Txn ε T α} {s s' : T} {a : α} (hn : CallsAt s n t)
    (ht : Sound t) (h0 : t s [] = .ok (a, s', [])) (fs : Faults) :
    (true ∈ fs.take n ∧ ∃ e, commit t fs s = (.error e, s)) ∨
      (true ∉ fs.take n ∧ commit t fs s = (.ok a, s')) := by
  by_cases hf : true ∈ fs.take n
  · obtain ⟨e, he⟩ := (hn fs).1 hf
    exact Or.inl ⟨hf, e, by rw [commit, he]⟩
  · obtain ⟨b, s1, hb⟩ := (hn fs).2 hf
    obtain ⟨h1, h2⟩ := ht.eq_of_ok hb h0
    exact Or.inr ⟨hf, by rw [commit, hb, ← h1, ← h2]⟩

theorem Calls.commit_cases {n : Nat} {t : Txn ε T α} (hn : Calls n t) (ht : Sound t) {s s' : T}
    {a : α} (h0 : t s [] = .ok (a, s', [])) (fs : Faults) :
    (true ∈ fs.take n ∧ ∃ e, commit t fs s = (.error e, s)) ∨
      (true ∉ fs.take n ∧ commit t fs s = (.ok a, s')) :=
  (hn.at s).commit_cases ht h0 fs

end Txn
