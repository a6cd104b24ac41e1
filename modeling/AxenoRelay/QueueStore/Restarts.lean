/-
  The order of a queue across concurrency and restarts.

  `Lives` are the runs of one database: calls interleave, the process may die between any
  two steps, and the next one opens the table again with a counter above what is left in
  it. A sequence number has one `Holder`, a row or a call that has still to write its row,
  and taking, writing and opening keep that (`SeqOk`). A call that starts after another one
  returned gets the larger number, in whichever process (`OrderOk`), so it is flushed after
  it (`order_survives`).
-/
import AxenoRelay.QueueStore.Drift

namespace AxenoRelay

open Interleave QueueStore

/-! ## Runs through any number of processes -/

/-- A move of the calls, or the end of the process and the start of the next. -/
inductive Happening (U : Type) where
  | move (m : Move (QueueMove U))
  | reopen (fs : Faults)

/-- What happened to a database, newest first, each with the configuration before it. -/
abbrev QueueHistory (U : Type) := List (QueueConfig U × Happening U)

section Histories

variable {U : Type}

/-- The envelope that a call of `enqueue` starts with, and its mailbox. -/
def QueueTask.enqueued : QueueTask U → Option (String × StoredEnvelope U)
  | enqSeq m env => some (m, env)
  | _ => none

/-- The call of `enqueue` that runs at place `i`. -/
def callOf (i : Nat) : QueueHistory U → Option (String × StoredEnvelope U)
  | [] => none
  | (c, .move (.spawn (.start t))) :: h => if c.pool.length = i then t.enqueued else callOf i h
  | (_, .reopen _) :: _ => none
  | _ :: h => callOf i h

/-- The calls of `enqueue` so far. -/
def enqueues : QueueHistory U → Nat
  | [] => 0
  | (_, .move (.spawn (.start (.enqSeq _ _)))) :: h => enqueues h + 1
  | _ :: h => enqueues h

/-- The last thing that happened: `enqueue` was called. -/
def Called (m : String) (env : StoredEnvelope U) : QueueHistory U → Prop
  | (_, .move (.spawn (.start t))) :: _ => t = .enqSeq m env
  | _ => False

variable [UuidText U]

/-- The last thing that happened: a call of `enqueue` returned `Ok`. -/
def Returned (m : String) (env : StoredEnvelope U) : QueueHistory U → Prop
  | (c, .move (.act i (.run e))) :: h => callOf i h = some (m, env) ∧ ∃ t k st,
      c.pool[i]? = some t ∧ t.step e c.shared.store = some (.done (.ok k), st)
  | _ => False

/-- The call for `env` had returned before the call for `env'` was made. -/
def Precedes (h : QueueHistory U) (m : String) (env : StoredEnvelope U) (m' : String)
    (env' : StoredEnvelope U) : Prop :=
  ∃ h₂, h₂ <:+ h ∧ Called m' env' h₂ ∧ ∃ h₁, h₁ <:+ h₂ ∧ Returned m env h₁

variable [DecidableEq U]

/-- The runs of a database that begins without rows. -/
inductive Lives : QueueHistory U → QueueConfig U → Prop
  | created : Lives [] (freshQueue OrdMap.empty [])
  | moved {h : QueueHistory U} {c c' : QueueConfig U} {m : Move (QueueMove U)} (r : Lives h c)
      (hn : (queueMachine U).next m c = some c') : Lives ((c, .move m) :: h) c'
  | reopened {h : QueueHistory U} {c : QueueConfig U} {fs : Faults} {st : QueueStore}
      (r : Lives h c) (hopen : (QueueStore.new.commit fs c.shared.store.envelopes).1 = .ok st) :
      Lives ((c, .reopen fs) :: h) ⟨⟨st, c.shared.used⟩, []⟩

end Histories

/-! ## Who has a sequence number -/

section Numbers

variable {U : Type}

/-- The value that a call has still to write. -/
def QueueTask.value : QueueTask U → Option StoredValue
  | enqIndex _ _ v | enqRead _ _ v | enqWrite _ _ v _ _ => some v
  | _ => none

/-- A row on disk, or the call at a place. -/
inductive Holder where
  | row (k : String)
  | task (i : Nat)

/-- The number is the one of the row, or of the value that the call has to write. -/
def HasSeq (c : QueueConfig U) : Holder → Nat → Prop
  | .row k, s => ∃ v, c.shared.store.envelopes.get k = some v ∧ v.s = s
  | .task i, s => ∃ t v, c.pool[i]? = some t ∧ t.value = some v ∧ v.s = s

/-- Every number has one holder, and the counter is above all of them. -/
structure SeqOk (c : QueueConfig U) : Prop where
  below : ∀ x s, HasSeq c x s → s < c.shared.store.nextSeq
  apart : ∀ x y s, HasSeq c x s → HasSeq c y s → x = y

variable [UuidText U]

/-- How a step touches the numbers: it keeps or drops them, takes one, or writes a row. -/
inductive SeqStep : QueueTask U → QueueTask U → QueueStore → QueueStore → Prop
  | quiet (t t' : QueueTask U) (st st' : QueueStore) (hnext : st'.nextSeq = st.nextSeq)
      (hval : ∀ v, t'.value = some v → t.value = some v)
      (hrows : ∀ k v, st'.envelopes.get k = some v → st.envelopes.get k = some v) :
      SeqStep t t' st st'
  | take (m : String) (env : StoredEnvelope U) (v : StoredValue) (st : QueueStore)
      (hv : v.s = st.nextSeq) : SeqStep (.enqSeq m env) (.enqIndex m env v) st st.takeSeq.2
  | write (m : String) (env : StoredEnvelope U) (v : StoredValue) (ids : List U) (b : Nat)
      (t' : QueueTask U) (st st' : QueueStore) (hnext : st'.nextSeq = st.nextSeq)
      (hval : t'.value = none)
      (hrows : ∀ k w, st'.envelopes.get k = some w →
        st.envelopes.get k = some w ∨ k = keyFor m env.id ∧ w = v) :
      SeqStep (.enqWrite m env v ids b) t' st st'

theorem QueueTask.Stepped.seqStep {e : StoreEvent} {t t' : QueueTask U} {st st' : QueueStore}
    (hs : t.Stepped e st t' st') : SeqStep t t' st st' := by
  have hsub : ∀ (m : String) (n b : Nat) {t₀ t₁ : QueueTask U}, t₁.value = none →
      SeqStep t₀ t₁ st (st.indexSub m n b) := by
    intro m n b t₀ t₁ ht
    obtain ⟨hrows, -, hnext⟩ := indexSub_frame st m n b
    exact .quiet _ _ _ _ hnext (fun v hv => by cases ht.symm.trans hv)
      fun k v hk => hrows ▸ hk
  cases hs
  case seq m env => exact .take m env _ st rfl
  case write m env v ids b =>
    refine .write m env v ids b _ _ _ rfl rfl fun k w hk => ?_
    rw [enqueueTable, OrdMap.get_insert, OrdMap.get_eraseAll] at hk
    split_ifs at hk with h1 h2
    · exact Or.inr ⟨h1, (Option.some.inj hk).symm⟩
    · exact Or.inl hk
  case ack =>
    refine .quiet _ _ _ _ rfl (fun v hv => by cases hv) fun k v hk => ?_
    rw [OrdMap.get_eraseAll] at hk
    split_ifs at hk
    exact hk
  case purge m =>
    refine .quiet _ _ _ _ rfl (fun v hv => by cases hv) fun k v hk => ?_
    rw [purgeTable, OrdMap.get_filter, Option.filter_eq_some_iff] at hk
    exact hk.1
  case sweep =>
    refine .quiet _ _ _ _ rfl (fun v hv => by cases hv) fun k v hk => ?_
    rw [sweepTable, OrdMap.get_filter, Option.filter_eq_some_iff] at hk
    exact hk.1
  case ackUpdate => exact hsub _ _ _ rfl
  case sweepUpdate => exact hsub _ _ _ rfl
  all_goals
    exact .quiet _ _ _ _ rfl (fun v hv => by first | exact hv | cases hv) fun k v hk => hk

theorem SeqOk.stepped {c : QueueConfig U} (hc : SeqOk c) {i : Nat} {t t' : QueueTask U}
    {st' : QueueStore} (ht : c.pool[i]? = some t) (hs : SeqStep t t' c.shared.store st') :
    SeqOk ⟨{ c.shared with store := st' }, c.pool.set i t'⟩ := by
  generalize hst : c.shared.store = st at hs
  have hbelow : ∀ x s, HasSeq c x s → s < st.nextSeq := hst ▸ hc.below
  cases hs with
  | quiet _ _ _ _ hnext hval hrows =>
    have hold : ∀ x s, HasSeq ⟨{ c.shared with store := st' }, c.pool.set i t'⟩ x s →
        HasSeq c x s := by
      intro x s hx
      cases x with
      | row k =>
        obtain ⟨v, hk, hvs⟩ := hx
        exact ⟨v, hst ▸ hrows k v hk, hvs⟩
      | task j =>
        obtain ⟨u, v, hj, hv, hvs⟩ := hx
        rcases getElem?_set_cases hj with ⟨rfl, rfl⟩ | ⟨-, hj⟩
        · exact ⟨t, v, ht, hval v hv, hvs⟩
        · exact ⟨u, v, hj, hv, hvs⟩
    exact ⟨fun x s hx => hnext ▸ hbelow x s (hold x s hx),
      fun x y s hx hy => hc.apart x y s (hold x s hx) (hold y s hy)⟩
  | take m env v _ hv =>
    have hold : ∀ x s, HasSeq ⟨{ c.shared with store := st.takeSeq.2 },
        c.pool.set i (.enqIndex m env v)⟩ x s → HasSeq c x s ∨ x = .task i ∧ s = st.nextSeq := by
      intro x s hx
      cases x with
      | row k =>
        obtain ⟨w, hk, hws⟩ := hx
        exact Or.inl ⟨w, hst ▸ hk, hws⟩
      | task j =>
        obtain ⟨u, w, hj, hw, hws⟩ := hx
        rcases getElem?_set_cases hj with ⟨rfl, rfl⟩ | ⟨-, hj⟩
        · obtain rfl := Option.some.inj hw
          exact Or.inr ⟨rfl, hws.symm.trans hv⟩
        · exact Or.inl ⟨u, w, hj, hw, hws⟩
    refine ⟨fun x s hx => ?_, fun x y s hx hy => ?_⟩
    · rcases hold x s hx with h | ⟨-, rfl⟩
      · exact (hbelow x s h).trans (Nat.lt_succ_self _)
      · exact Nat.lt_succ_self _
    · rcases hold x s hx with h | ⟨rfl, hs⟩ <;> rcases hold y s hy with h' | ⟨rfl, hs'⟩
      · exact hc.apart x y s h h'
      · exact absurd (hbelow x s h) (hs' ▸ lt_irrefl _)
      · exact absurd (hbelow y s h') (hs ▸ lt_irrefl _)
      · rfl
  | write m env v ids b _ _ _ hnext hval hrows =>
    -- the number goes from the call to its row
    have hhas : HasSeq c (.task i) v.s := ⟨_, v, ht, rfl, rfl⟩
    have hold : ∀ x s, HasSeq ⟨{ c.shared with store := st' }, c.pool.set i t'⟩ x s →
        HasSeq c x s ∧ x ≠ .task i ∨ x = .row (keyFor m env.id) ∧ s = v.s := by
      intro x s hx
      cases x with
      | row k =>
        obtain ⟨w, hk, hws⟩ := hx
        rcases hrows k w hk with hk | ⟨rfl, rfl⟩
        · exact Or.inl ⟨⟨w, hst ▸ hk, hws⟩, nofun⟩
        · exact Or.inr ⟨rfl, hws.symm⟩
      | task j =>
        obtain ⟨u, w, hj, hw, hws⟩ := hx
        rcases getElem?_set_cases hj with ⟨rfl, rfl⟩ | ⟨hne, hj⟩
        · rw [hval] at hw
          cases hw
        · exact Or.inl ⟨⟨u, w, hj, hw, hws⟩, fun heq => hne (Holder.task.inj heq)⟩
    refine ⟨fun x s hx => ?_, fun x y s hx hy => ?_⟩
    · rcases hold x s hx with ⟨h, -⟩ | ⟨-, rfl⟩
      · exact hnext ▸ hbelow x s h
      · exact hnext ▸ hbelow _ _ hhas
    · rcases hold x s hx with ⟨h, hx'⟩ | ⟨rfl, hs⟩ <;> rcases hold y s hy with ⟨h', hy'⟩ | ⟨rfl, hs'⟩
      · exact hc.apart x y s h h'
      · exact absurd (hc.apart x (.task i) s h (hs' ▸ hhas)) hx'
      · exact absurd (hc.apart y (.task i) s h' (hs ▸ hhas)) hy'
      · rfl

omit [UuidText U] in
theorem SeqOk.spawned {c : QueueConfig U} (hc : SeqOk c) {t : QueueTask U}
    (hstart : t.starts = true) (used : List U) :
    SeqOk ⟨{ c.shared with used := used }, c.pool ++ [t]⟩ := by
  have hold : ∀ x s, HasSeq ⟨{ c.shared with used := used }, c.pool ++ [t]⟩ x s → HasSeq c x s := by
    intro x s hx
    cases x with
    | row k => exact hx
    | task j =>
      obtain ⟨u, v, hj, hv, hvs⟩ := hx
      rcases getElem?_snoc_cases hj with hj | ⟨-, rfl⟩
      · exact ⟨u, v, hj, hv, hvs⟩
      · cases u <;> first | (cases hv; done) | cases hstart
  exact ⟨fun x s hx => hc.below x s (hold x s hx),
    fun x y s hx hy => hc.apart x y s (hold x s hx) (hold y s hy)⟩

/-- The counter of a database just opened. -/
theorem nextSeq_ofTable (t : Envelopes) :
    (∀ k v, t.get k = some v → v.s < (QueueStore.ofTable t).nextSeq) ∧
      ∀ n, 0 < n → (∀ k v, t.get k = some v → v.s < n) → (QueueStore.ofTable t).nextSeq ≤ n := by
  have hle : ∀ (l : List (String × StoredValue)) (acc : Nat × Nat × OrdMap String (Nat × Nat))
      (n : Nat), acc.2.1 < n → (∀ e ∈ l, e.2.s < n) → (l.foldl scanEntry acc).2.1 < n := by
    intro l
    induction l with
    | nil => exact fun acc n hacc _ => hacc
    | cons e l ih =>
      intro acc n hacc hl
      refine ih _ n ?_ fun e' he' => hl e' (List.mem_cons_of_mem _ he')
      exact max_lt hacc (hl e List.mem_cons_self)
  obtain ⟨-, -, hall, -⟩ := scanTotals_eq t.entries (0, 0, OrdMap.empty)
  refine ⟨fun k v hk => ?_, fun n hn hrows => ?_⟩
  · exact Nat.lt_succ_of_le (hall (k, v) (OrdMap.get_eq_some_iff.mp hk))
  · exact hle t.entries _ n hn fun e he => hrows e.1 e.2 (OrdMap.get_eq_some_iff.mpr he)

omit [UuidText U] in
/-- The calls of the last process are gone, and their numbers with them. -/
theorem SeqOk.reopened {c : QueueConfig U} (hc : SeqOk c) (used : List U) :
    SeqOk ⟨⟨QueueStore.ofTable c.shared.store.envelopes, used⟩, []⟩ := by
  have hold : ∀ x s, HasSeq ⟨⟨QueueStore.ofTable c.shared.store.envelopes, used⟩, []⟩ x s →
      ∃ k, x = .row k ∧ HasSeq c x s := by
    intro x s hx
    cases x with
    | row k => exact ⟨k, rfl, hx⟩
    | task j =>
      obtain ⟨u, v, hj, -⟩ := hx
      cases hj
  refine ⟨fun x s hx => ?_, fun x y s hx hy => ?_⟩
  · obtain ⟨k, rfl, v, hk, rfl⟩ := hold x s hx
    exact (nextSeq_ofTable _).1 k v hk
  · obtain ⟨_, _, h⟩ := hold x s hx
    obtain ⟨_, _, h'⟩ := hold y s hy
    exact hc.apart x y s h h'

end Numbers

/-! ## Who was first -/

section Order

variable {U : Type}

/-- The number of an envelope: that of its row, or of the value its call has to write. -/
def Numbered [UuidText U] (c : QueueConfig U) (id : U) (s : Nat) : Prop :=
  (∃ m v, NameOk m ∧ c.shared.store.envelopes.get (keyFor m id) = some v ∧ v.s = s) ∨
    ∃ t ∈ c.pool, t.pendingId = some id ∧ ∃ v, t.value = some v ∧ v.s = s

/-- Is a call about to take its number? -/
def QueueTask.takes : QueueTask U → Nat
  | enqSeq _ _ => 1
  | _ => 0

variable [UuidText U]

/-- What holds of a database in every run. -/
structure OrderOk (h : QueueHistory U) (c : QueueConfig U) : Prop where
  world : WorldOk c
  seqs : SeqOk c
  /-- No counter is above the number of calls. -/
  bounded : 0 < c.shared.store.nextSeq ∧
    c.shared.store.nextSeq + c.total QueueTask.takes ≤ enqueues h + 1
  named : ∀ m env h₁, h₁ <:+ h → Called m env h₁ → NameOk m
  /-- The call at a place is the only one that may write its envelope. -/
  calls : ∀ i m env, callOf i h = some (m, env) → env.id ∈ c.shared.used ∧
    ∀ j t, c.pool[j]? = some t → t.pendingId = some env.id → j = i
  /-- A call that returned writes nothing any more. -/
  returned : ∀ m env h₁, h₁ <:+ h → Returned m env h₁ → Past c env.id
  /-- The later call has the larger number. -/
  later : ∀ m env m' env', Precedes h m env m' env' → ∀ n v, NameOk n →
    c.shared.store.envelopes.get (keyFor n env.id) = some v →
      ∀ s, Numbered c env'.id s → v.s < s

variable {h : QueueHistory U} {c c' : QueueConfig U}

/-- The pairs of calls do not change unless the last thing was a call. -/
theorem Precedes.tail {p : QueueConfig U × Happening U} {m m' : String}
    {env env' : StoredEnvelope U} (hp : Precedes (p :: h) m env m' env')
    (hno : ¬Called m' env' (p :: h)) : Precedes h m env m' env' := by
  obtain ⟨h₂, hsuf, hcall, hret⟩ := hp
  rcases List.suffix_cons_iff.mp hsuf with rfl | hsuf
  · exact absurd hcall hno
  · exact ⟨h₂, hsuf, hcall, hret⟩

theorem orderOk_created : OrderOk ([] : QueueHistory U) (freshQueue OrdMap.empty []) := by
  have hnone : ∀ k v, (OrdMap.empty : Envelopes).get k = some v → False := by
    intro k v hk
    rw [OrdMap.get_empty] at hk
    cases hk
  have hfree : ∀ x s, ¬HasSeq (freshQueue OrdMap.empty [] : QueueConfig U) x s := by
    intro x s hx
    cases x with
    | row k =>
      obtain ⟨v, hk, -⟩ := hx
      exact hnone k v hk
    | task i =>
      obtain ⟨t, v, hi, -⟩ := hx
      cases hi
  refine ⟨worldOk_fresh fun k v hk => (hnone k v hk).elim,
    ⟨fun x s hx => absurd hx (hfree x s), fun x y s hx => absurd hx (hfree x s)⟩,
    ⟨Nat.one_pos, Nat.le_refl _⟩, ?_, fun i m env hcall => (nomatch hcall), ?_, ?_⟩
  · rintro m env h₁ hsuf hcall
    rw [List.suffix_nil.mp hsuf] at hcall
    exact hcall.elim
  · rintro m env h₁ hsuf hret
    rw [List.suffix_nil.mp hsuf] at hret
    exact hret.elim
  · rintro m env m' env' ⟨h₂, hsuf, hcall, -⟩
    rw [List.suffix_nil.mp hsuf] at hcall
    exact hcall.elim

theorem OrderOk.spawned (hc : OrderOk h c) {t : QueueTask U} (ha : Admits c.shared t) :
    OrderOk ((c, .move (.spawn (.start t))) :: h)
      ⟨{ c.shared with used := t.pendingId.toList ++ c.shared.used }, c.pool ++ [t]⟩ := by
  have hvalue : t.value = none := by
    have hstart := ha.1
    cases t <;> first | rfl | cases hstart
  have hrow : ∀ {n : String} {id : U} {v : StoredValue}, NameOk n →
      c.shared.store.envelopes.get (keyFor n id) = some v → id ∈ c.shared.used :=
    fun hn hk => (hc.world.past hn hk).1
  refine ⟨worldOk_spawn hc.world ha, hc.seqs.spawned ha.1 _, ?_, fun m env h₁ hsuf hcall => ?_,
    fun i m env hcall => ?_,
    fun m env h₁ hsuf hret => ?_, fun m env m' env' hp n v hn hv s hs => ?_⟩
  · refine ⟨hc.bounded.1, ?_⟩
    have htotal := total_spawn QueueTask.takes c t
      { c.shared with used := t.pendingId.toList ++ c.shared.used }
    have hb := hc.bounded.2
    rw [htotal]
    cases t <;> simp only [enqueues, QueueTask.takes] <;> omega
  · rcases List.suffix_cons_iff.mp hsuf with rfl | hsuf
    · have ht : t = .enqSeq m env := hcall
      exact ha.2.1 m (by rw [ht]; rfl)
    · exact hc.named m env h₁ hsuf hcall
  · unfold callOf at hcall
    split_ifs at hcall with hi
    · cases t with
      | enqSeq n env' =>
        cases hcall
        refine ⟨List.mem_append_left _ (List.mem_singleton_self _), fun j u hj hid => ?_⟩
        rcases getElem?_snoc_cases hj with hj | ⟨rfl, -⟩
        · have hused := hc.world.pending u (List.mem_of_getElem? hj) _ hid
          exact absurd hused (ha.2.2 _ rfl)
        · exact hi
      | _ => cases hcall
    · obtain ⟨hused, honly⟩ := hc.calls i m env hcall
      refine ⟨List.mem_append_right _ hused, fun j u hj hid => ?_⟩
      rcases getElem?_snoc_cases hj with hj | ⟨-, rfl⟩
      · exact honly j u hj hid
      · exact absurd hused (ha.2.2 _ hid)
  · rcases List.suffix_cons_iff.mp hsuf with rfl | hsuf
    · exact hret.elim
    · exact (hc.returned m env h₁ hsuf hret).spawn ha
  · by_cases hcall : Called m' env' ((c, .move (.spawn (.start t))) :: h)
    · -- the new call has no number yet
      have ht : t = .enqSeq m' env' := hcall
      have hfresh : env'.id ∉ c.shared.used := ha.2.2 _ (by rw [ht]; rfl)
      rcases hs with ⟨n', w, hn', hk, -⟩ | ⟨u, hu, hid, w, hw, -⟩
      · exact absurd (hrow hn' hk) hfresh
      · rcases List.mem_append.mp hu with hu | hu
        · exact absurd (hc.world.pending u hu _ hid) hfresh
        · rw [List.mem_singleton.mp hu, hvalue] at hw
          cases hw
    · refine hc.later m env m' env' (hp.tail hcall) n v hn hv s ?_
      rcases hs with hs | ⟨u, hu, hid, w, hw, hws⟩
      · exact Or.inl hs
      · rcases List.mem_append.mp hu with hu | hu
        · exact Or.inr ⟨u, hu, hid, w, hw, hws⟩
        · rw [List.mem_singleton.mp hu, hvalue] at hw
          cases hw

/-- The row of an envelope that no call is going to write was there before. -/
theorem row_before (hc : WorldOk c) {i : Nat} {t t' : QueueTask U} {st' : QueueStore}
    (ht : c.pool[i]? = some t) (hs : SeqStep t t' c.shared.store st') {id : U}
    (hpast : Past c id) {n : String} (hn : NameOk n) {v : StoredValue}
    (hv : st'.envelopes.get (keyFor n id) = some v) :
    c.shared.store.envelopes.get (keyFor n id) = some v := by
  have hmem := List.mem_of_getElem? ht
  generalize c.shared.store = st at hs
  cases hs with
  | quiet _ _ _ _ _ _ hrows => exact hrows _ v hv
  | take => exact hv
  | write m env w ids b _ _ _ _ _ hrows =>
    rcases hrows _ v hv with hv | ⟨hk, -⟩
    · exact hv
    · have hid := (keyFor_inj hn (hc.names _ hmem m rfl) hk).2
      exact absurd (congrArg some hid.symm) (hpast.2 _ hmem)

/-- A number after a step is one from before, or the one just taken. -/
theorem Numbered.before (hc : WorldOk c) {i : Nat} {t t' : QueueTask U} {e : StoreEvent}
    {st' : QueueStore} (ht : c.pool[i]? = some t) (hs : t.Stepped e c.shared.store t' st')
    (hseq : SeqStep t t' c.shared.store st') {id : U} {s : Nat}
    (h : Numbered ⟨{ c.shared with store := st' }, c.pool.set i t'⟩ id s) :
    Numbered c id s ∨ s = c.shared.store.nextSeq := by
  have hmem := List.mem_of_getElem? ht
  have hpend : t'.pendingId = some id → t.pendingId = some id := stepped_pendingId hs
  have hname := hc.names t hmem
  unfold Numbered at h ⊢
  generalize c.shared.store = st at hseq ⊢
  rcases h with ⟨m, v, hm, hk, hvs⟩ | ⟨u, hu, hid, v, hv, hvs⟩
  · cases hseq with
    | quiet _ _ _ _ _ _ hrows => exact Or.inl (Or.inl ⟨m, v, hm, hrows _ v hk, hvs⟩)
    | take => exact Or.inl (Or.inl ⟨m, v, hm, hk, hvs⟩)
    | write m' env w ids b _ _ _ _ _ hrows =>
      rcases hrows _ v hk with hk | ⟨hkey, rfl⟩
      · exact Or.inl (Or.inl ⟨m, v, hm, hk, hvs⟩)
      · have hid := (keyFor_inj hm (hname m' rfl) hkey).2
        exact Or.inl (Or.inr ⟨_, hmem, congrArg some hid.symm, v, rfl, hvs⟩)
  · rcases mem_set_cases hu with rfl | hu
    · cases hseq with
      | quiet _ _ _ _ _ hval =>
        exact Or.inl (Or.inr ⟨t, hmem, hpend hid, v, hval v hv, hvs⟩)
      | take m env w _ hw =>
        obtain rfl := Option.some.inj hv
        exact Or.inr (hvs.symm.trans hw)
      | write _ _ _ _ _ _ _ _ _ hnone =>
        rw [hnone] at hv
        cases hv
    · exact Or.inl (Or.inr ⟨u, hu, hid, v, hv, hvs⟩)

theorem OrderOk.stepped (hc : OrderOk h c) {i : Nat} {e : StoreEvent} {t t' : QueueTask U}
    {st' : QueueStore} (ht : c.pool[i]? = some t) (hs : t.Stepped e c.shared.store t' st')
    (hraw : t.step e c.shared.store = some (t', st')) :
    OrderOk ((c, .move (.act i (.run e))) :: h)
      ⟨{ c.shared with store := st' }, c.pool.set i t'⟩ := by
  have hmem := List.mem_of_getElem? ht
  have hseq := hs.seqStep
  have hlt : i < c.pool.length := (List.getElem?_eq_some_iff.mp ht).1
  refine ⟨worldOk_act hc.world ht hs, hc.seqs.stepped ht hseq, ?_, fun m env h₁ hsuf hcall => ?_,
    fun j m env hcall => ?_,
    fun m env h₁ hsuf hret => ?_, fun m env m' env' hp n v hn hv s hnum => ?_⟩
  · obtain ⟨hpos, hle⟩ := hc.bounded
    have htotal := total_act QueueTask.takes (u := t') (s := (⟨st', c.shared.used⟩ : QueueWorld U)) ht
    have hzero : t'.takes = 0 := by cases hs <;> rfl
    have hnext : 0 < st'.nextSeq ∧ st'.nextSeq ≤ c.shared.store.nextSeq + t.takes := by
      generalize c.shared.store = st at hseq hpos
      cases hseq with
      | quiet _ _ _ _ hnext => exact ⟨hnext ▸ hpos, hnext ▸ Nat.le_add_right _ _⟩
      | take m env v => exact ⟨Nat.succ_pos _, Nat.le_refl _⟩
      | write _ _ _ _ _ _ _ _ hnext => exact ⟨hnext ▸ hpos, hnext ▸ Nat.le_add_right _ _⟩
    have hfin : st'.nextSeq +
        Config.total QueueTask.takes (⟨⟨st', c.shared.used⟩, c.pool.set i t'⟩ : QueueConfig U) ≤
          enqueues h + 1 := by omega
    exact ⟨hnext.1, hfin⟩
  · rcases List.suffix_cons_iff.mp hsuf with rfl | hsuf
    · exact hcall.elim
    · exact hc.named m env h₁ hsuf hcall
  · obtain ⟨hused, honly⟩ := hc.calls j m env hcall
    refine ⟨hused, fun k u hk hid => ?_⟩
    rcases getElem?_set_cases hk with ⟨rfl, rfl⟩ | ⟨-, hk⟩
    · exact honly _ t ht (stepped_pendingId hs hid)
    · exact honly k u hk hid
  · rcases List.suffix_cons_iff.mp hsuf with rfl | hsuf
    · -- the call that returns was the only one with its envelope
      obtain ⟨hcall, u, k, st, hu, hdone⟩ := hret
      obtain rfl : t = u := Option.some.inj (ht.symm.trans hu)
      obtain ⟨hused, honly⟩ := hc.calls i m env hcall
      rw [hraw] at hdone
      cases hdone
      refine ⟨hused, fun u hu hid => ?_⟩
      obtain ⟨j, hj⟩ := List.mem_iff_getElem?.mp hu
      rcases getElem?_set_cases hj with ⟨rfl, rfl⟩ | ⟨hne, hj⟩
      · cases hid
      · exact hne (honly j u hj hid)
    · exact (hc.returned m env h₁ hsuf hret).act ht hs
  · have hp := hp.tail fun hcall => hcall
    obtain ⟨h₂, hsuf₂, _, h₁, hsuf₁, hret⟩ := hp
    have hpast := hc.returned m env h₁ (hsuf₁.trans hsuf₂) hret
    have hrow := row_before hc.world ht hseq hpast hn hv
    rcases hnum.before hc.world ht hs hseq with hnum | rfl
    · exact hc.later m env m' env' ⟨h₂, hsuf₂, ‹_›, h₁, hsuf₁, hret⟩ n v hn hrow s hnum
    · exact hc.seqs.below (.row (keyFor n env.id)) v.s ⟨v, hrow, rfl⟩

theorem OrderOk.reopened (hc : OrderOk h c) (fs : Faults) :
    OrderOk ((c, .reopen fs) :: h)
      ⟨⟨QueueStore.ofTable c.shared.store.envelopes, c.shared.used⟩, []⟩ := by
  have hused : UsedIds c.shared.store.envelopes c.shared.used := by
    intro k v hk
    obtain ⟨m, id, hm, he, hp⟩ := hc.world.rows k v hk
    exact ⟨m, id, hp.1, hm, he⟩
  refine ⟨worldOk_fresh hused, hc.seqs.reopened _, ⟨Nat.succ_pos _, ?_⟩,
    fun m env h₁ hsuf hcall => ?_, fun i m env hcall => (nomatch hcall),
    fun m env h₁ hsuf hret => ?_,
    fun m env m' env' hp n v hn hv s hnum => ?_⟩
  · have hle := (nextSeq_ofTable c.shared.store.envelopes).2 _ hc.bounded.1
      fun k v hk => hc.seqs.below (.row k) v.s ⟨v, hk, rfl⟩
    have hb := hc.bounded.2
    have hact : enqueues ((c, .reopen fs) :: h) = enqueues h := rfl
    rw [hact]
    change (QueueStore.ofTable c.shared.store.envelopes).nextSeq + 0 ≤ enqueues h + 1
    omega
  · rcases List.suffix_cons_iff.mp hsuf with rfl | hsuf
    · exact hcall.elim
    · exact hc.named m env h₁ hsuf hcall
  · rcases List.suffix_cons_iff.mp hsuf with rfl | hsuf
    · exact hret.elim
    · exact ⟨(hc.returned m env h₁ hsuf hret).1, fun u hu => nomatch hu⟩
  · refine hc.later m env m' env' (hp.tail fun hcall => hcall) n v hn hv s ?_
    rcases hnum with hrow | ⟨u, hu, -⟩
    · exact Or.inl hrow
    · cases hu

theorem orderOk_lives [DecidableEq U] (r : Lives h c) : OrderOk h c := by
  induction r with
  | created => exact orderOk_created
  | @moved h c c' m r hn hc =>
    cases m with
    | spawn ev =>
      rcases queueMachine_next hc.world hn with ⟨t, heq, ha, rfl⟩ | ⟨_, _, _, _, _, heq, _⟩
      · cases heq
        exact hc.spawned ha
      · cases heq
    | act i ev =>
      obtain ⟨t, t', w, ht, hstep, rfl⟩ := next_act hn
      cases ev with
      | start => cases hstep
      | run e =>
        obtain ⟨⟨u, st'⟩, hraw, heq⟩ := Option.map_eq_some_iff.mp hstep
        cases heq
        have hnames := hc.world.names t (List.mem_of_getElem? ht)
        exact hc.stepped ht (QueueTask.stepped_of_step hc.world.keys hnames hraw) hraw
    | env ev =>
      obtain ⟨_, hs, _⟩ := next_env hn
      cases hs
  | @reopened h c fs st r hopen hc =>
    rcases new_cases fs c.shared.store.envelopes with ⟨err, he⟩ | he
    · rw [he] at hopen
      cases hopen
    · rw [he] at hopen
      cases hopen
      exact hc.reopened fs

/-- Of two elements of an ordered list the smaller one comes first. -/
theorem before_of_pairwise {α : Type} {R : α → α → Prop} {l : List α} (hl : l.Pairwise R) {x y : α}
    (hx : x ∈ l) (hy : y ∈ l) (hne : x ≠ y) (hyx : ¬R y x) :
    ∃ l₁ l₂ l₃, l = l₁ ++ x :: l₂ ++ y :: l₃ := by
  obtain ⟨a, b, rfl⟩ := List.append_of_mem hx
  have hb : y ∈ b := by
    rcases List.mem_append.mp hy with hya | hyb
    · exact absurd (List.pairwise_append.mp hl).2.2 fun h => hyx (h y hya x List.mem_cons_self)
    · exact (List.mem_cons.mp hyb).resolve_left (Ne.symm hne)
  obtain ⟨b₁, b₂, rfl⟩ := List.append_of_mem hb
  exact ⟨a, b₁, b₂, by rw [List.append_assoc, List.cons_append]⟩

/-- **Queue order survives concurrency and restarts.** No two rows have one sequence number,
    none has a larger one than there were calls, and a mailbox is flushed in the order of the
    calls that did not overlap. -/
theorem order_survives [DecidableEq U] (r : Lives h c) :
    (∀ k k' v v', c.shared.store.envelopes.get k = some v →
      c.shared.store.envelopes.get k' = some v' → v.s = v'.s → k = k') ∧
    (∀ k v, c.shared.store.envelopes.get k = some v → v.s ≤ enqueues h) ∧
    ∀ m env env', Precedes h m env m env' → ∀ fs l,
      ((QueueStore.flush U m).commit fs c.shared.store.envelopes).1 = .ok l →
      ∀ x ∈ l, ∀ y ∈ l, x.id = env.id → y.id = env'.id →
        ∃ l₁ l₂ l₃, l = l₁ ++ x :: l₂ ++ y :: l₃ := by
  have hc := orderOk_lives r
  refine ⟨fun k k' v v' hk hk' hs => ?_, fun k v hk => ?_, ?_⟩
  · exact Holder.row.inj (hc.seqs.apart (.row k) (.row k') v.s ⟨v, hk, rfl⟩ ⟨v', hk', hs.symm⟩)
  · have hlt := hc.seqs.below (.row k) v.s ⟨v, hk, rfl⟩
    have hb := hc.bounded.2
    omega
  · intro m env env' hp fs l hflush x hx y hy hxid hyid
    obtain ⟨h₂, hsuf, hcall, -⟩ := id hp
    have hm := hc.named m env' h₂ hsuf hcall
    have hrows : l = (queueRows U m c.shared.store.envelopes).map (toEnvelope m) := by
      rcases flush_cases (U := U) m fs c.shared.store.envelopes with ⟨err, he⟩ | he
      · rw [he] at hflush
        cases hflush
      · rw [he] at hflush
        exact (Except.ok.inj hflush).symm
    subst hrows
    obtain ⟨⟨id, v⟩, hv, rfl⟩ := List.mem_map.mp hx
    obtain ⟨⟨id', v'⟩, hv', rfl⟩ := List.mem_map.mp hy
    obtain rfl : id = env.id := hxid
    obtain rfl : id' = env'.id := hyid
    have hkeys := hc.world.keys
    have hlt : v.s < v'.s :=
      hc.later m env m env' hp m v hm ((mem_queueRows hkeys hm).mp hv) v'.s
        (Or.inl ⟨m, v', hm, (mem_queueRows hkeys hm).mp hv', rfl⟩)
    obtain ⟨l₁, l₂, l₃, hl⟩ := before_of_pairwise (queueRows_older hkeys hm) hv hv'
      (fun heq => absurd (congrArg (fun e => e.2.s) heq) hlt.ne)
      (fun h => absurd hlt (Fifo.Before.le h).not_gt)
    refine ⟨l₁.map (toEnvelope m), l₂.map (toEnvelope m), l₃.map (toEnvelope m), ?_⟩
    rw [hl, List.map_append, List.map_append, List.map_cons, List.map_cons]

end Order

/-! ## A run with a restart -/

section Replayed

variable {U : Type} [UuidText U] [DecidableEq U]

/-- The configuration after a move or a restart. -/
def happen (a : Happening U) (c : QueueConfig U) : Option (QueueConfig U) :=
  match a with
  | .move m => (queueMachine U).next m c
  | .reopen fs =>
    match (QueueStore.new.commit fs c.shared.store.envelopes).1 with
    | .ok st => some ⟨⟨st, c.shared.used⟩, []⟩
    | .error _ => none

/-- The history of a list of moves and restarts, oldest first. -/
def lived : List (Happening U) → QueueHistory U × QueueConfig U →
    Option (QueueHistory U × QueueConfig U)
  | [], r => some r
  | a :: l, (h, c) => (happen a c).bind fun c' => lived l ((c, a) :: h, c')

theorem lives_happen {a : Happening U} {h : QueueHistory U} {c c' : QueueConfig U}
    (r : Lives h c) (hc : happen a c = some c') : Lives ((c, a) :: h) c' := by
  cases a with
  | move m => exact .moved r hc
  | reopen fs =>
    unfold happen at hc
    dsimp only at hc
    split at hc
    · cases hc
      exact .reopened r ‹_›
    · cases hc

theorem lives_of_lived (l : List (Happening U)) {h h' : QueueHistory U} {c c' : QueueConfig U}
    (r : Lives h c) (hl : lived l (h, c) = some (h', c')) : Lives h' c' ∧ h <:+ h' := by
  induction l generalizing h c with
  | nil =>
    cases hl
    exact ⟨r, List.suffix_refl _⟩
  | cons a l ih =>
    obtain ⟨c₁, hc, hl⟩ := Option.bind_eq_some_iff.mp hl
    obtain ⟨r', hsuf⟩ := ih (lives_happen r hc) hl
    exact ⟨r', (List.suffix_cons _ _).trans hsuf⟩

theorem exists_lived (a : Happening U) (l : List (Happening U)) {h : QueueHistory U}
    {c : QueueConfig U} (r : Lives h c) {p : QueueHistory U × QueueConfig U → Bool}
    (hl : (lived (a :: l) (h, c)).any p = true) :
    ∃ h' c', Lives h' c' ∧ (c, a) :: h <:+ h' ∧ p (h', c') = true := by
  obtain ⟨⟨h', c'⟩, heq, hp⟩ := Option.any_eq_true _ _ |>.mp hl
  obtain ⟨c₁, hc, heq⟩ := Option.bind_eq_some_iff.mp heq
  obtain ⟨r', hsuf⟩ := lives_of_lived l (lives_happen r hc) heq
  exact ⟨h', c', r', hsuf, hp⟩

omit [DecidableEq U] in
/-- Does the next step of the call at place `i` end it with `Ok`? -/
def endsOk (c : QueueConfig U) (i : Nat) (e : StoreEvent) : Bool :=
  match c.pool[i]?.bind fun t => t.step e c.shared.store with
  | some (.done (.ok _), _) => true
  | _ => false

omit [DecidableEq U] in
theorem returned_of_endsOk {c : QueueConfig U} {i : Nat} {e : StoreEvent} {h : QueueHistory U}
    {m : String} {env : StoredEnvelope U} (hcall : callOf i h = some (m, env))
    (ha : endsOk c i e = true) : Returned m env ((c, .move (.act i (.run e))) :: h) := by
  unfold endsOk at ha
  split at ha
  · obtain ⟨t, ht, hstep⟩ := Option.bind_eq_some_iff.mp ‹_›
    exact ⟨hcall, t, _, _, ht, hstep⟩
  · cases ha

end Replayed

/-- What a flush of the mailbox returns. -/
def flushedIds (t : Envelopes) : List SampleUuid :=
  match ((QueueStore.flush SampleUuid sampleMailbox.1).commit [] t).1 with
  | .ok l => l.map StoredEnvelope.id
  | .error _ => []

/-- The database is opened again between two calls. -/
theorem order_survives_sample : ∃ h c, Lives h c ∧
    Precedes h sampleMailbox.1 (sampleEnvelope .u1) sampleMailbox.1 (sampleEnvelope .u2) ∧
    ∃ x y l₁ l₂ l₃, x.id = SampleUuid.u1 ∧ y.id = SampleUuid.u2 ∧
      ((QueueStore.flush SampleUuid sampleMailbox.1).commit [] c.shared.store.envelopes).1 =
        .ok (l₁ ++ x :: l₂ ++ y :: l₃) := by
  have hcheck : ((lived (.move (startEnqueue .u1) :: List.replicate 5 (.move (calm 0)))
      ([], freshQueue OrdMap.empty [])).any fun r =>
        decide (callOf 0 r.1 = some (sampleMailbox.1, sampleEnvelope .u1)) &&
        endsOk r.2 0 ⟨0, [], [], 0⟩ &&
        ((lived [.move (calm 0), .reopen []] r).any fun r₁ =>
          (lived (.move (startEnqueue .u2) :: List.replicate 6 (.move (calm 0))) r₁).any
            fun r₂ => decide (flushedIds r₂.2.shared.store.envelopes = [.u1, .u2]))) = true := by
    decide +kernel
  obtain ⟨h, c, r, -, hp⟩ := exists_lived _ _ .created hcheck
  obtain ⟨hp, hcheck⟩ := Bool.and_eq_true_iff.mp hp
  obtain ⟨hcall, hans⟩ := Bool.and_eq_true_iff.mp hp
  have hret := returned_of_endsOk (of_decide_eq_true hcall) hans
  obtain ⟨h₁, c₁, r₁, hsuf₁, hcheck⟩ := exists_lived _ _ r hcheck
  obtain ⟨h₂, c₂, r₂, hsuf₂, hids⟩ := exists_lived _ _ r₁ hcheck
  have hprec : Precedes h₂ sampleMailbox.1 (sampleEnvelope .u1) sampleMailbox.1
      (sampleEnvelope .u2) :=
    ⟨_, hsuf₂, rfl, _, hsuf₁.trans (List.suffix_cons _ _), hret⟩
  have hids := of_decide_eq_true hids
  unfold flushedIds at hids
  split at hids
  case h_2 => cases hids
  case h_1 l hflush =>
    have hmem : ∀ u ∈ [SampleUuid.u1, .u2], ∃ x ∈ l, x.id = u :=
      fun u hu => List.mem_map.mp (hids ▸ hu)
    obtain ⟨x, hx, hxid⟩ := hmem .u1 (by decide)
    obtain ⟨y, hy, hyid⟩ := hmem .u2 (by decide)
    obtain ⟨l₁, l₂, l₃, hl⟩ :=
      (order_survives r₂).2.2 _ _ _ hprec [] l hflush x hx y hy hxid hyid
    exact ⟨h₂, c₂, r₂, hprec, x, y, l₁, l₂, l₃, hxid, hyid, hl ▸ hflush⟩

end AxenoRelay
