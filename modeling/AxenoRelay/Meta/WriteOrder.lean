/-
  The metadata tables never go back.

  Whatever the tasks do meanwhile and whichever batches of the flush fail, a record of AUTH or
  BUNDLES is at each moment what the map in memory held at some moment before, and never from
  an earlier moment than what the table held already (`tables_in_order`). `writes_back` says
  what the tables hold when nothing is dirty; this says what they may hold at any time, and so
  what a crash can leave.
-/
import AxenoRelay.Lib.Trailing
import AxenoRelay.Meta.WriteBack
import AxenoRelay.Ws.Moves

namespace AxenoRelay

open Interleave Trailing

variable {U : Type}

/-- What a part of the relay has been at every moment, in the order of time. -/
def moments {A : Type} (v : RelayConfig U → A) (h : RelayPast U) (c : RelayConfig U) : List A :=
  (h.map fun e => v e.1).reverse ++ [v c]

theorem moments_snoc {A : Type} (v : RelayConfig U → A) (h : RelayPast U) (c c' : RelayConfig U)
    (m : Move (RelayMove U)) : moments v ((c, m) :: h) c' = moments v h c ++ [v c'] := by
  rw [moments, List.map_cons, List.reverse_cons, moments]

/-! ## One record -/

/-- What one step does to a record: the source is the map in memory, the copy the table, and
    the stage the table as the flush is about to leave it. -/
structure RecordMoves (c c' : RelayConfig U) : Prop where
  auth : ∀ k, Moves (c'.shared.app.mailboxAuth.get k) (c.shared.app.tables.auth.get k)
    ((savedAuth c).get k) (c'.shared.app.tables.auth.get k) ((savedAuth c').get k)
  bundles : ∀ k, Moves (c'.shared.app.bundles.get k) (c.shared.app.tables.bundles.get k)
    ((savedBundles c).get k) (c'.shared.app.tables.bundles.get k) ((savedBundles c').get k)

/-- A step that leaves the tables and the batch alone. -/
theorem recordMoves_of_same {c c' : RelayConfig U}
    (htables : c'.shared.app.tables = c.shared.app.tables)
    (hflush : flushTask c'.pool = flushTask c.pool) : RecordMoves c c' := by
  refine ⟨fun k => ?_, fun k => ?_⟩
  · unfold savedAuth
    rw [htables, hflush]
    exact Moves.keep
  · unfold savedBundles
    rw [htables, hflush]
    exact Moves.keep

section

variable {e : RelayEvent U} {f f' : FlushTask} {st st' : AppState}

theorem FlushTask.Stepped.authMoves (hs : FlushTask.Stepped e.store f st f' st')
    (k : RecipientId) : Moves (st'.mailboxAuth.get k) (st.tables.auth.get k)
      ((st.tables.auth.assignAll f.authBatch).get k) (st'.tables.auth.get k)
      ((st'.tables.auth.assignAll f'.authBatch).get k) := by
  cases hs
  case look hf hf' =>
    rcases hf with rfl | rfl <;> rcases hf' with rfl | rfl | rfl <;> exact Moves.keep
  case authRead j rest batch =>
    rw [FlushTask.authBatch, FlushTask.authBatch, OrdMap.assignAll_append, OrdMap.get_assign]
    split_ifs with hj
    · rw [hj]
      exact Moves.read
    · exact Moves.keep
  case authFailed => exact Moves.drop
  case authWritten => exact Moves.write
  all_goals exact Moves.keep

theorem FlushTask.Stepped.bundleMoves (hs : FlushTask.Stepped e.store f st f' st')
    (k : String) : Moves (st'.bundles.get k) (st.tables.bundles.get k)
      ((st.tables.bundles.assignAll f.bundleBatch).get k) (st'.tables.bundles.get k)
      ((st'.tables.bundles.assignAll f'.bundleBatch).get k) := by
  cases hs
  case look hf hf' =>
    rcases hf with rfl | rfl <;> rcases hf' with rfl | rfl | rfl <;> exact Moves.keep
  case bundleRead j rest batch =>
    rw [FlushTask.bundleBatch, FlushTask.bundleBatch, OrdMap.assignAll_append, OrdMap.get_assign]
    split_ifs with hj
    · rw [hj]
      exact Moves.read
    · exact Moves.keep
  case bundleFailed => exact Moves.drop
  case bundleWritten => exact Moves.write
  all_goals exact Moves.keep

end

/-! ## Runs -/

/-- The flush is the first of the tasks and the only flush. -/
def FlushFirst (pool : List (RelayTask U)) : Prop :=
  ∃ f rest, pool = .flush f :: rest ∧ ∀ t ∈ rest, t.isFlush = false

theorem FlushFirst.flush_at {pool : List (RelayTask U)} {i : Nat} {f : FlushTask}
    (h : FlushFirst pool) (hi : pool[i]? = some (.flush f)) : i = 0 ∧ flushTask pool = f := by
  obtain ⟨g, rest, rfl, hrest⟩ := h
  cases i with
  | zero =>
    cases hi
    exact ⟨rfl, rfl⟩
  | succ i => cases hrest _ (List.mem_of_getElem? hi)

theorem FlushFirst.spawn {pool : List (RelayTask U)} {t : RelayTask U} (h : FlushFirst pool)
    (ht : t.isFlush = false) :
    FlushFirst (pool ++ [t]) ∧ flushTask (pool ++ [t]) = flushTask pool := by
  obtain ⟨f, rest, rfl, hrest⟩ := h
  refine ⟨⟨f, rest ++ [t], List.cons_append, fun u hu => ?_⟩, rfl⟩
  rcases List.mem_append.mp hu with hu | hu
  · exact hrest u hu
  · rw [List.mem_singleton.mp hu]
    exact ht

theorem FlushFirst.flushed {pool : List (RelayTask U)} (h : FlushFirst pool) (f : FlushTask) :
    FlushFirst (pool.set 0 (.flush f)) ∧ flushTask (pool.set 0 (.flush f)) = f := by
  obtain ⟨g, rest, rfl, hrest⟩ := h
  exact ⟨⟨f, rest, rfl, hrest⟩, rfl⟩

/-- The entry of AUTH trails the one of `mailbox_auth`, as if the map had held what the table
    holds at the start. -/
def AuthStaged (st : AppState) (h : RelayPast U) (c : RelayConfig U) (k : RecipientId) : Prop :=
  Staged (st.tables.auth.get k :: moments (fun c => c.shared.app.mailboxAuth.get k) h c)
    (st.tables.auth.get k :: moments (fun c => c.shared.app.tables.auth.get k) h c)
    (c.shared.app.tables.auth.get k) ((savedAuth c).get k)

def BundleStaged (st : AppState) (h : RelayPast U) (c : RelayConfig U) (k : String) : Prop :=
  Staged (st.tables.bundles.get k :: moments (fun c => c.shared.app.bundles.get k) h c)
    (st.tables.bundles.get k :: moments (fun c => c.shared.app.tables.bundles.get k) h c)
    (c.shared.app.tables.bundles.get k) ((savedBundles c).get k)

structure RecordsStaged (st : AppState) (h : RelayPast U) (c : RelayConfig U) : Prop where
  pool : FlushFirst c.pool
  auth : ∀ k, AuthStaged st h c k
  bundles : ∀ k, BundleStaged st h c k

theorem recordsStaged_start (st : AppState) : RecordsStaged st [] (started st : RelayConfig U) where
  pool := ⟨.lookAuth, [], rfl, fun _ ht => absurd ht List.not_mem_nil⟩
  auth := fun k => (staged_start (st.tables.auth.get k)).step Moves.keep
  bundles := fun k => (staged_start (st.tables.bundles.get k)).step Moves.keep

section

variable [UuidText U] [DecidableEq U] {C : Crates}

/-- One step of the relay moves every record as a writer with a stage does. -/
theorem recordMoves_of_next {c c' : RelayConfig U} {m : Move (RelayMove U)}
    (h : FlushFirst c.pool) (hs : (relayMachine C).next m c = some c') :
    FlushFirst c'.pool ∧ RecordMoves c c' := by
  cases m with
  | spawn e =>
    obtain ⟨t, w', ht, rfl⟩ := next_spawn hs
    have hspawn := spawned_of_spawn ht
    have hnew : t.isFlush = false := by cases hspawn <;> rfl
    obtain ⟨n, happ⟩ := hspawn.app
    obtain ⟨hpool, hsame⟩ := h.spawn hnew
    exact ⟨hpool, recordMoves_of_same (by rw [happ]) hsame⟩
  | env e =>
    obtain ⟨w', hw, rfl⟩ := next_env hs
    exact ⟨h, recordMoves_of_same (by rw [(wrote_of_env hw).app]) rfl⟩
  | act i e =>
    obtain ⟨t, t', w', hi, ht, rfl⟩ := next_act hs
    cases e with
    | run e =>
      cases hflush : t.isFlush with
      | false =>
        obtain ⟨hflush', ha⟩ := accounted_of_step hflush ht
        obtain ⟨hsame, hpool⟩ := flushTask_set hi hflush h hflush'
        exact ⟨hpool, recordMoves_of_same ha.tables hsame⟩
      | true =>
        cases t with
        | flush f =>
          obtain ⟨⟨f', st'⟩, hf, heq⟩ := Option.map_eq_some_iff.mp ht
          cases heq
          obtain ⟨rfl, htask⟩ := h.flush_at hi
          obtain ⟨hpool, hset⟩ := h.flushed f'
          have hstep := FlushTask.stepped_of_step hf
          refine ⟨hpool, fun k => ?_, fun k => ?_⟩
          · simp only [savedAuth, htask, hset]
            exact hstep.authMoves k
          · simp only [savedBundles, htask, hset]
            exact hstep.bundleMoves k
        | _ => cases hflush
    | _ => cases ht

theorem RecordsStaged.step {st : AppState} {h : RelayPast U} {c c' : RelayConfig U}
    {m : Move (RelayMove U)} (hc : RecordsStaged st h c)
    (hs : (relayMachine C).next m c = some c') : RecordsStaged st ((c, m) :: h) c' := by
  obtain ⟨hpool, hmoves⟩ := recordMoves_of_next hc.pool hs
  refine ⟨hpool, fun k => ?_, fun k => ?_⟩
  · unfold AuthStaged
    rw [moments_snoc, moments_snoc]
    exact (hc.auth k).step (hmoves.auth k)
  · unfold BundleStaged
    rw [moments_snoc, moments_snoc]
    exact (hc.bundles k).step (hmoves.bundles k)

/-- At every moment a record of AUTH or BUNDLES is what the map in memory held at some moment
    before, or what the table held at the start, and those moments never go back. -/
theorem tables_in_order {st : AppState} {h : RelayPast U} {c : RelayConfig U}
    (r : Trace (relayMachine C) anyPast (started st) h c) :
    (∀ k, Trails
      (st.tables.auth.get k :: moments (fun c => c.shared.app.mailboxAuth.get k) h c)
      (st.tables.auth.get k :: moments (fun c => c.shared.app.tables.auth.get k) h c)) ∧
    ∀ k, Trails
      (st.tables.bundles.get k :: moments (fun c => c.shared.app.bundles.get k) h c)
      (st.tables.bundles.get k :: moments (fun c => c.shared.app.tables.bundles.get k) h c) := by
  have hstaged := r.invariant (recordsStaged_start st) fun _ _ _ _ hc _ hs => hc.step hs
  exact ⟨fun k => (hstaged.auth k).trails, fun k => (hstaged.bundles k).trails⟩

end

/-- A mailbox registers, and the flush writes its record. -/
theorem tables_in_order_sample : ∃ (h : RelayPast SampleUuid) (c : RelayConfig SampleUuid),
    c.shared.app.tables.auth.size = 1 ∧ ∀ k, Trails
      (none :: moments (fun c => c.shared.app.mailboxAuth.get k) h c)
      (none :: moments (fun c => c.shared.app.tables.auth.get k) h c) := by
  obtain ⟨h, c, r, hc⟩ := exists_trace (M := relayMachine sampleCrates) (G := anyPast)
    (c := started AppState.sampleState)
    (.spawn (.connect sampleTime) ::
      List.replicate 3 (sampleStep sampleTime 1 (sampleHello true) SampleUuid.u1 []) ++
      List.replicate 9 (sampleStep sampleTime 0 .ping SampleUuid.u1 []))
    (p := fun r => decide (r.2.shared.app.tables.auth.size = 1))
    (by decide +kernel)
  exact ⟨h, c, of_decide_eq_true hc, (tables_in_order r).1⟩

end AxenoRelay
