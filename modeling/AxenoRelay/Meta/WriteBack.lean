/-
  The metadata write-back over whole runs.

  In every configuration of a relay started over empty tables a record of
  `mailbox_auth` or `bundles` is saved (on disk, or in the batch the flush is about
  to write), dirty, or held by a task (`WrittenBack`). The counters beside the maps
  follow them up to what the tasks owe. So once nothing is in flight and nothing is
  dirty the tables hold the maps, and a restart restores them.

  SendEnvelope refreshes a lease and then gives up at its rate limit or at the
  storage limit without a mark; a prune can count a bundle that was replaced after
  its scan. `Marks` excludes such steps where they do harm; without it the tables
  fall behind (`write_back_forgets`).
-/
import AxenoRelay.Meta.Owed
import Mathlib

namespace AxenoRelay

open Interleave WriteBack

variable {U : Type}

/-- The flush task, which is the first of the pool. -/
def flushTask : List (RelayTask U) → FlushTask
  | .flush f :: _ => f
  | _ => .lookAuth

/-- AUTH once the batch in progress is written. -/
def savedAuth (c : RelayConfig U) : OrdMap RecipientId MailboxAuth :=
  c.shared.app.tables.auth.assignAll (flushTask c.pool).authBatch

/-- BUNDLES once the batch in progress is written. -/
def savedBundles (c : RelayConfig U) : OrdMap String HostedBundle :=
  c.shared.app.tables.bundles.assignAll (flushTask c.pool).bundleBatch

/-- Is the record of mailbox `k` saved, dirty or held by one of these tasks? -/
def AuthTracked (c : RelayConfig U) (pool : List (RelayTask U)) (k : RecipientId) : Prop :=
  Tracked RelayTask.holdsAuth (savedAuth c) c.shared.app.mailboxAuth c.shared.app.dirtyAuth pool k

def BundleTracked (c : RelayConfig U) (pool : List (RelayTask U)) (k : String) : Prop :=
  Tracked RelayTask.holdsBundle (savedBundles c) c.shared.app.bundles c.shared.app.dirtyBundles
    pool k

/-- The writes of the flush succeed. -/
def FlushWrites (c : RelayConfig U) : Move (RelayMove U) → Prop
  | .act i (.run e) => ∀ t, c.pool[i]? = some t → t.flushFails e = false
  | _ => True

/-- The steps under which the write-back is exact: the writes of the flush succeed;
    a SendEnvelope that gives up leaves a record that is saved, dirty or held by another
    task; a bundle that is removed is the one scanned, and no subtraction saturates; and
    the clock is past its first day when a frame arrives. -/
def Marks (c : RelayConfig U) : Move (RelayMove U) → Prop
  | .act i (.run e) => ∀ t, c.pool[i]? = some t →
    t.flushFails e = false ∧ t.miscounts e c.shared.app = false ∧ t.stampsZero e = false ∧
      ∀ k, t.skipsMark e c.shared.app = some k → AuthTracked c (c.pool.eraseIdx i) k
  | _ => True

instance (c : RelayConfig U) : ∀ m, Decidable (FlushWrites c m)
  | .act _ (.run _) => decidableForallSome _ _
  | .act _ (.connect _) | .act _ .gc | .act _ .sweepQueues | .act _ .sweepFiles
  | .act _ (.drain _) | .act _ (.drop _) | .spawn _ | .env _ => isTrue trivial

instance (c : RelayConfig U) (pool : List (RelayTask U)) (k : RecipientId) :
    Decidable (AuthTracked c pool k) := by
  unfold AuthTracked Tracked
  infer_instance

instance (c : RelayConfig U) : ∀ m, Decidable (Marks c m)
  | .act _ (.run _) => decidableForallSome _ _
  | .act _ (.connect _) | .act _ .gc | .act _ .sweepQueues | .act _ .sweepFiles
  | .act _ (.drain _) | .act _ (.drop _) | .spawn _ | .env _ => isTrue trivial

/-- The invariant: every record is tracked and the counters are exact up to what is owed. -/
structure WrittenBack (c : RelayConfig U) : Prop where
  pool : ∃ f rest, c.pool = .flush f :: rest ∧ ∀ t ∈ rest, t.isFlush = false
  auth : ∀ k, AuthTracked c c.pool k
  bundles : ∀ k, BundleTracked c c.pool k
  ids : c.shared.app.bundles.All fun k b => b.id = k
  leases : c.shared.app.mailboxAuth.All fun _ a => a.lastActiveMs ≠ 0
  count : c.shared.app.mailboxCount =
    c.shared.app.mailboxAuth.size + c.total RelayTask.owesCount
  bytes : c.shared.app.totalBundleBytes + c.total RelayTask.owesAdd =
    bundleBytes c.shared.app.bundles + c.total RelayTask.owesSub

/-! ## The start -/

theorem writtenBack_start {now : Nat} {queues : QueueStore} {files : FileStore} {cfg : FileConfig}
    {root : String} {st : AppState} {t : MetaTables}
    (h : (AppState.build now queues files cfg root).commit [] ⟨OrdMap.empty, OrdMap.empty⟩ =
      (.ok st, t)) : WrittenBack (started st : RelayConfig U) := by
  rw [AppState.build_run] at h
  obtain ⟨hst, -⟩ := Prod.mk.inj h
  obtain rfl := Except.ok.inj hst
  exact {
    pool := ⟨.lookAuth, [], rfl, fun t ht => absurd ht (List.not_mem_nil)⟩
    auth := fun k => Or.inl rfl
    bundles := fun k => Or.inl rfl
    ids := OrdMap.all_empty
    leases := OrdMap.all_empty
    count := rfl
    bytes := rfl }

/-! ## A step of a task other than the flush -/

theorem flushTask_set {pool : List (RelayTask U)} {i : Nat} {t t' : RelayTask U}
    (hi : pool[i]? = some t) (ht : t.isFlush = false)
    (hpool : ∃ f rest, pool = .flush f :: rest ∧ ∀ t ∈ rest, t.isFlush = false)
    (ht' : t'.isFlush = false) :
    flushTask (pool.set i t') = flushTask pool ∧
      ∃ f rest, pool.set i t' = .flush f :: rest ∧ ∀ t ∈ rest, t.isFlush = false := by
  obtain ⟨f, rest, rfl, hrest⟩ := hpool
  cases i with
  | zero =>
    rw [List.getElem?_cons_zero] at hi
    rw [← Option.some.inj hi] at ht
    cases ht
  | succ i =>
    rw [List.set_cons_succ]
    refine ⟨rfl, f, rest.set i t', rfl, fun u hu => ?_⟩
    rcases mem_set_cases hu with rfl | hu
    · exact ht'
    · exact hrest u hu

/-- What a step of a task other than the flush keeps, in the terms of the invariant. -/
structure Accounted (e : RelayEvent U) (t t' : RelayTask U) (st st' : AppState) : Prop where
  tables : st'.tables = st.tables
  auth : Effect RelayTask.holdsAuth t t' st.mailboxAuth st'.mailboxAuth st.dirtyAuth
      st'.dirtyAuth ∨
    ∃ k, t.skipsMark e st = some k ∧ st'.mailboxAuth = st.mailboxAuth ∧
      st'.dirtyAuth = st.dirtyAuth
  bundles : Effect RelayTask.holdsBundle t t' st.bundles st'.bundles st.dirtyBundles
    st'.dirtyBundles
  ids : (st.bundles.All fun k b => b.id = k) → st'.bundles.All fun k b => b.id = k
  leases : t.stampsZero e = false → (st.mailboxAuth.All fun _ a => a.lastActiveMs ≠ 0) →
    st'.mailboxAuth.All fun _ a => a.lastActiveMs ≠ 0
  count : t.owesCount ≤ st.mailboxCount →
    st'.mailboxCount + st.mailboxAuth.size + t.owesCount =
      st.mailboxCount + st'.mailboxAuth.size + t'.owesCount
  bytes : t.miscounts e st = false →
    st'.totalBundleBytes + bundleBytes st.bundles + t'.owesAdd + t.owesSub =
      st.totalBundleBytes + bundleBytes st'.bundles + t.owesAdd + t'.owesSub

section

variable [UuidText U]

theorem SocketPc.Stepped.tables {C : Crates} {e : RelayEvent U} {s s' : Socket}
    {pc pc' : SocketPc U} {w w' : Relay U} (hs : SocketPc.Stepped C e s pc w s' pc' w') :
    w'.app.tables = w.app.tables := by
  cases hs
  case said => rw [Relay.say_app]
  case helloOk => rw [Relay.say_app]
  case pruned h => cases PruneTask.stepped_of_step h <;> rfl
  case hello h _ =>
    rcases SocketPc.helloEntry_cases h with ⟨_, _, _, _, rfl⟩ | ⟨_, _, _, rfl⟩ <;> rfl
  all_goals rfl

theorem SocketPc.Stepped.accounted {C : Crates} {e : RelayEvent U} {s s' : Socket}
    {pc pc' : SocketPc U} {w w' : Relay U} (hs : SocketPc.Stepped C e s pc w s' pc' w') :
    Accounted e (.socket s pc) (.socket s' pc') w.app w'.app where
  tables := hs.tables
  auth := hs.authEffect
  bundles := hs.bundleEffect
  ids := hs.bundleIds
  leases := hs.leases
  count := hs.countStep
  bytes := hs.bytesStep

theorem GcTask.Stepped.accounted {e : RelayEvent U} {g g' : GcTask U} {st st' : AppState}
    (hs : GcTask.Stepped e.store g st g' st') : Accounted e (.gc g) (.gc g') st st' where
  tables := by cases hs <;> rfl
  auth := Or.inl hs.authEffect
  bundles := by cases hs <;> exact .same rfl rfl (Or.inl rfl)
  ids := by cases hs <;> exact id
  leases := fun _ => hs.leases
  count := hs.countStep
  bytes := by cases hs <;> exact fun _ => rfl

variable [DecidableEq U]

theorem accounted_of_step {C : Crates} {e : RelayEvent U} {t t' : RelayTask U} {w w' : Relay U}
    (ht : t.isFlush = false) (h : t.step C e w = some (t', w')) :
    t'.isFlush = false ∧ Accounted e t t' w.app w'.app := by
  obtain ⟨r, hr, heq⟩ : ∃ r, t.step C e w = some r ∧ r = (t', w') := ⟨_, h, rfl⟩
  cases t with
  | socket s pc =>
    obtain ⟨⟨s1, pc1, w1⟩, hstep, heq⟩ := Option.map_eq_some_iff.mp h
    cases heq
    exact ⟨rfl, (SocketPc.stepped_of_step hstep).accounted⟩
  | flush f => cases ht
  | gc g =>
    obtain ⟨⟨g1, st⟩, hstep, heq⟩ := Option.map_eq_some_iff.mp h
    cases heq
    exact ⟨rfl, (GcTask.stepped_of_step hstep).accounted⟩
  | sweepQueues q =>
    obtain ⟨⟨q1, st⟩, hstep, heq⟩ := Option.map_eq_some_iff.mp h
    cases heq
    exact ⟨rfl, rfl, Or.inl (.same rfl rfl (Or.inl rfl)), .same rfl rfl (Or.inl rfl), id,
      fun _ => id, fun _ => rfl, fun _ => rfl⟩
  | sweepFiles f =>
    obtain ⟨⟨f1, st⟩, hstep, heq⟩ := Option.map_eq_some_iff.mp h
    cases heq
    exact ⟨rfl, rfl, Or.inl (.same rfl rfl (Or.inl rfl)), .same rfl rfl (Or.inl rfl), id,
      fun _ => id, fun _ => rfl, fun _ => rfl⟩

end

theorem WrittenBack.act {c : RelayConfig U} {i : Nat} {e : RelayEvent U} {t t' : RelayTask U}
    {w' : Relay U} (h : WrittenBack c) (hi : c.pool[i]? = some t)
    (hg : Marks c (.act i (.run e))) (ht : t.isFlush = false) (ht' : t'.isFlush = false)
    (ha : Accounted e t t' c.shared.app w'.app) : WrittenBack ⟨w', c.pool.set i t'⟩ := by
  obtain ⟨-, hcounts, hzero, hskip⟩ := hg t hi
  obtain ⟨hflush, hpool⟩ := flushTask_set hi ht h.pool ht'
  have hsavedAuth : savedAuth (⟨w', c.pool.set i t'⟩ : RelayConfig U) = savedAuth c := by
    unfold savedAuth
    rw [hflush, ha.tables]
  have hsavedBundles : savedBundles (⟨w', c.pool.set i t'⟩ : RelayConfig U) = savedBundles c := by
    unfold savedBundles
    rw [hflush, ha.tables]
  have hmem := List.mem_of_getElem? hi
  have hcount := h.count
  have hbytes := h.bytes
  have hle : t.owesCount ≤ c.shared.app.mailboxCount := by
    have := le_total (w := RelayTask.owesCount) hmem
    omega
  have hcountStep := ha.count hle
  have hbytesStep := ha.bytes hcounts
  have htotalCount := total_act RelayTask.owesCount (u := t') (s := w') hi
  have htotalAdd := total_act RelayTask.owesAdd (u := t') (s := w') hi
  have htotalSub := total_act RelayTask.owesSub (u := t') (s := w') hi
  refine {
    pool := hpool
    auth := fun k => ?_
    bundles := fun k => ?_
    ids := ha.ids h.ids
    leases := ha.leases hzero h.leases
    count := by dsimp only; omega
    bytes := by dsimp only; omega }
  · unfold AuthTracked
    rw [hsavedAuth]
    rcases ha.auth with heff | ⟨j, hj, hram, hdirty⟩
    · exact heff.tracked hi h.auth k
    · rw [hram, hdirty]
      by_cases hk : t.holdsAuth = some k
      · have hjk : j = k := by
          cases t with
          | socket s pc =>
            cases pc with
            | sendRate r m ty ct =>
              simp only [RelayTask.skipsMark] at hj
              split_ifs at hj
              exact Option.some.inj (hj.symm.trans hk)
            | sendCheck r env live =>
              simp only [RelayTask.skipsMark] at hj
              split_ifs at hj
              exact Option.some.inj (hj.symm.trans hk)
            | _ => cases hj
          | _ => cases hj
        exact (hjk ▸ hskip j hj).drop
      · exact (h.auth k).act hi rfl rfl id fun hheld => absurd hheld hk
  · unfold BundleTracked
    rw [hsavedBundles]
    exact ha.bundles.tracked hi h.bundles k

/-! ## A step of the flush -/

section

variable {e : RelayEvent U} {f f' : FlushTask} {st st' : AppState} {pool : List (RelayTask U)}
  {i : Nat}

theorem FlushTask.Stepped.frame (hs : FlushTask.Stepped e.store f st f' st') :
    st'.mailboxAuth = st.mailboxAuth ∧ st'.bundles = st.bundles ∧
      st'.mailboxCount = st.mailboxCount ∧ st'.totalBundleBytes = st.totalBundleBytes := by
  cases hs <;> exact ⟨rfl, rfl, rfl, rfl⟩

theorem FlushTask.Stepped.authTracked (hs : FlushTask.Stepped e.store f st f' st')
    (hi : pool[i]? = some (.flush f))
    (hok : (RelayTask.flush f : RelayTask U).flushFails e = false)
    (h : ∀ k, Tracked RelayTask.holdsAuth (st.tables.auth.assignAll f.authBatch) st.mailboxAuth
      st.dirtyAuth pool k) (k : RecipientId) :
    Tracked RelayTask.holdsAuth (st'.tables.auth.assignAll f'.authBatch) st'.mailboxAuth
      st'.dirtyAuth (pool.set i (.flush f')) k := by
  cases hs
  case look hf hf' =>
    rcases hf with rfl | rfl <;> rcases hf' with rfl | rfl | rfl <;>
      exact (h k).act hi rfl rfl id fun hk => by cases hk
  case authTake => exact (h k).take hi rfl rfl
  case authRead =>
    rw [FlushTask.authBatch, OrdMap.assignAll_append]
    exact (h k).read hi rfl
  case authFailed hf => exact absurd hf (of_decide_eq_false hok)
  case bundleFailed hf => exact absurd hf (of_decide_eq_false hok)
  all_goals exact (h k).act hi rfl rfl id fun hk => by cases hk

theorem FlushTask.Stepped.bundlesTracked (hs : FlushTask.Stepped e.store f st f' st')
    (hi : pool[i]? = some (.flush f))
    (hok : (RelayTask.flush f : RelayTask U).flushFails e = false)
    (h : ∀ k, Tracked RelayTask.holdsBundle (st.tables.bundles.assignAll f.bundleBatch) st.bundles
      st.dirtyBundles pool k) (k : String) :
    Tracked RelayTask.holdsBundle (st'.tables.bundles.assignAll f'.bundleBatch) st'.bundles
      st'.dirtyBundles (pool.set i (.flush f')) k := by
  cases hs
  case look hf hf' =>
    rcases hf with rfl | rfl <;> rcases hf' with rfl | rfl | rfl <;>
      exact (h k).act hi rfl rfl id fun hk => by cases hk
  case bundleTake => exact (h k).take hi rfl rfl
  case bundleRead =>
    rw [FlushTask.bundleBatch, OrdMap.assignAll_append]
    exact (h k).read hi rfl
  case authFailed hf => exact absurd hf (of_decide_eq_false hok)
  case bundleFailed hf => exact absurd hf (of_decide_eq_false hok)
  all_goals exact (h k).act hi rfl rfl id fun hk => by cases hk

end

/-- The flush is at its place, so a step of it is a step of `flushTask`. -/
theorem WrittenBack.flush {c : RelayConfig U} {i : Nat} {e : RelayEvent U} {f f' : FlushTask}
    {st' : AppState} (h : WrittenBack c) (hi : c.pool[i]? = some (.flush f))
    (hok : (RelayTask.flush f : RelayTask U).flushFails e = false)
    (hs : FlushTask.Stepped e.store f c.shared.app f' st') :
    WrittenBack ⟨{ c.shared with app := st' }, c.pool.set i (.flush f')⟩ := by
  obtain ⟨hauth, hbundles, hcount, hbytes⟩ := hs.frame
  have htotalCount := total_act RelayTask.owesCount (u := .flush f')
    (s := { c.shared with app := st' }) hi
  have htotalAdd := total_act RelayTask.owesAdd (u := .flush f')
    (s := { c.shared with app := st' }) hi
  have htotalSub := total_act RelayTask.owesSub (u := .flush f')
    (s := { c.shared with app := st' }) hi
  simp only [RelayTask.owesCount, RelayTask.owesAdd, RelayTask.owesSub, Nat.add_zero]
    at htotalCount htotalAdd htotalSub
  obtain ⟨f0, rest, hpool, hrest⟩ := h.pool
  obtain rfl : i = 0 := by
    by_contra hne
    obtain ⟨j, rfl⟩ := Nat.exists_eq_succ_of_ne_zero hne
    rw [hpool, List.getElem?_cons_succ] at hi
    cases hrest _ (List.mem_of_getElem? hi)
  obtain rfl : f0 = f := by
    rw [hpool, List.getElem?_cons_zero] at hi
    cases hi
    rfl
  have htask : flushTask c.pool = f0 := by rw [hpool, flushTask]
  have htask' : flushTask (c.pool.set 0 (.flush f')) = f' := by
    rw [hpool, List.set_cons_zero, flushTask]
  refine {
    pool := ⟨f', rest, by rw [hpool, List.set_cons_zero], hrest⟩
    auth := fun k => ?_
    bundles := fun k => ?_
    ids := by dsimp only; rw [hbundles]; exact h.ids
    leases := by dsimp only; rw [hauth]; exact h.leases
    count := by
      have := h.count
      dsimp only
      rw [hauth, hcount]
      omega
    bytes := by
      have := h.bytes
      dsimp only
      rw [hbundles, hbytes]
      omega }
  · have htracked := h.auth
    simp only [AuthTracked, savedAuth, htask] at htracked
    simp only [AuthTracked, savedAuth, htask']
    exact hs.authTracked hi hok htracked k
  · have htracked := h.bundles
    simp only [BundleTracked, savedBundles, htask] at htracked
    simp only [BundleTracked, savedBundles, htask']
    exact hs.bundlesTracked hi hok htracked k

/-! ## Runs -/

section

variable [UuidText U] [DecidableEq U]

/-- A task that begins owes nothing. -/
theorem WrittenBack.spawn {C : Crates} {c : RelayConfig U} {m : RelayMove U} {t : RelayTask U}
    {w' : Relay U} (h : WrittenBack c) (hs : (relayMachine C).spawn m c.shared = some (t, w')) :
    WrittenBack ⟨w', c.pool ++ [t]⟩ := by
  have hspawn := spawned_of_spawn hs
  have hnew : t.isFlush = false ∧ t.owesCount = 0 ∧ t.owesAdd = 0 ∧ t.owesSub = 0 := by
    cases hspawn <;> exact ⟨rfl, rfl, rfl, rfl⟩
  obtain ⟨n, happ⟩ := hspawn.app
  obtain ⟨hflush, hcount, hadd, hsub⟩ := hnew
  obtain ⟨f, rest, hpool, hrest⟩ := h.pool
  have htask : flushTask (c.pool ++ [t]) = flushTask c.pool := by
    rw [hpool]
    rfl
  have htotalCount := total_spawn RelayTask.owesCount c t w'
  have htotalAdd := total_spawn RelayTask.owesAdd c t w'
  have htotalSub := total_spawn RelayTask.owesSub c t w'
  rw [hcount, Nat.add_zero] at htotalCount
  rw [hadd, Nat.add_zero] at htotalAdd
  rw [hsub, Nat.add_zero] at htotalSub
  refine {
    pool := ⟨f, rest ++ [t], by rw [hpool, List.cons_append], ?_⟩
    auth := fun k => ?_
    bundles := fun k => ?_
    ids := by dsimp only; rw [happ]; exact h.ids
    leases := by dsimp only; rw [happ]; exact h.leases
    count := by dsimp only; rw [htotalCount, happ]; exact h.count
    bytes := by dsimp only; rw [htotalAdd, htotalSub, happ]; exact h.bytes }
  · intro u hu
    rcases List.mem_append.mp hu with hu | hu
    · exact hrest u hu
    · rw [List.mem_singleton.mp hu]
      exact hflush
  · unfold AuthTracked savedAuth
    dsimp only
    rw [htask, happ]
    exact (h.auth k).spawn t
  · unfold BundleTracked savedBundles
    dsimp only
    rw [htask, happ]
    exact (h.bundles k).spawn t

theorem WrittenBack.env {C : Crates} {c : RelayConfig U} {m : RelayMove U} {w' : Relay U}
    (h : WrittenBack c) (hs : (relayMachine C).env m c.shared = some w') :
    WrittenBack ⟨w', c.pool⟩ := by
  have happ := (wrote_of_env hs).app
  obtain ⟨hpool, hauth, hbundles, hids, hleases, hcount, hbytes⟩ := h
  unfold AuthTracked savedAuth at hauth
  unfold BundleTracked savedBundles at hbundles
  rw [← happ] at hauth hbundles hids hleases hcount hbytes
  exact ⟨hpool, hauth, hbundles, hids, hleases, hcount, hbytes⟩

/-- The invariant is kept by every step that marks what it changed. -/
theorem WrittenBack.step {C : Crates} {c c' : RelayConfig U} {m : Move (RelayMove U)}
    (h : WrittenBack c) (hg : Marks c m) (hs : (relayMachine C).next m c = some c') :
    WrittenBack c' := by
  cases m with
  | spawn e =>
    obtain ⟨t, w', ht, rfl⟩ := next_spawn hs
    exact h.spawn ht
  | env e =>
    obtain ⟨w', hw, rfl⟩ := next_env hs
    exact h.env hw
  | act i e =>
    obtain ⟨t, t', w', hi, ht, rfl⟩ := next_act hs
    cases e with
    | run e =>
      cases hflush : t.isFlush with
      | false =>
        obtain ⟨hflush', ha⟩ := accounted_of_step hflush ht
        exact h.act hi hg hflush hflush' ha
      | true =>
        cases t with
        | flush f =>
          obtain ⟨⟨f', st'⟩, hf, heq⟩ := Option.map_eq_some_iff.mp ht
          cases heq
          exact h.flush hi (hg _ hi).1 (FlushTask.stepped_of_step hf)
        | _ => cases hflush
    | _ => cases ht

end

theorem holds_of_resting {t : RelayTask U} (h : t.resting = true) : t.holdsAuth = none ∧
    t.holdsBundle = none ∧ t.owesCount = 0 ∧ t.owesAdd = 0 ∧ t.owesSub = 0 := by
  unfold RelayTask.resting at h
  split at h <;> first | exact ⟨rfl, rfl, rfl, rfl, rfl⟩ | cases h

/-- The tables hold exactly the maps, and a restart over them restores the maps, the
    mailbox count and the bundle total. -/
def Restorable (st : AppState) : Prop :=
  st.tables.auth = st.mailboxAuth ∧ st.tables.bundles = st.bundles ∧
    ∀ now queues files cfg root, ∃ st',
      (AppState.build now queues files cfg root).commit [] st.tables = (.ok st', st.tables) ∧
        st'.mailboxAuth = st.mailboxAuth ∧ st'.bundles = st.bundles ∧
        st'.mailboxCount = st.mailboxCount ∧ st'.totalBundleBytes = st.totalBundleBytes

theorem WrittenBack.restorable {c : RelayConfig U} (h : WrittenBack c) (hrest : Resting c)
    (hauth : c.shared.app.dirtyAuth = OrdMap.empty)
    (hbundles : c.shared.app.dirtyBundles = OrdMap.empty) : Restorable c.shared.app := by
  have hclear := fun t ht => holds_of_resting (hrest t ht)
  have hlook : (flushTask c.pool).authBatch = [] ∧ (flushTask c.pool).bundleBatch = [] := by
    obtain ⟨f, rest, hpool, -⟩ := h.pool
    have hf : (RelayTask.flush f : RelayTask U).resting = true :=
      hrest _ (hpool ▸ List.mem_cons_self)
    rw [hpool, flushTask]
    cases f <;> first | exact ⟨rfl, rfl⟩ | cases hf
  have hsaved : c.shared.app.tables.auth = c.shared.app.mailboxAuth := by
    have := saved_of_tracked h.auth hauth fun t ht => (hclear t ht).1
    rwa [savedAuth, hlook.1] at this
  have hsaved' : c.shared.app.tables.bundles = c.shared.app.bundles := by
    have := saved_of_tracked h.bundles hbundles fun t ht => (hclear t ht).2.1
    rwa [savedBundles, hlook.2] at this
  refine ⟨hsaved, hsaved', fun now queues files cfg root =>
    ⟨_, AppState.build_run now queues files cfg root _, ?_, ?_, ?_, ?_⟩⟩
  · rw [hsaved]
    exact AppState.ofLoaded_mailboxAuth h.leases _ _ _ _ _ _ _
  · rw [hsaved']
    exact AppState.ofLoaded_bundles h.ids _ _ _ _ _ _ _
  · have hcount := h.count
    rw [total_eq_zero fun t ht => (hclear t ht).2.2.1, Nat.add_zero] at hcount
    rw [hcount, hsaved]
    conv_rhs => rw [← AppState.ofLoaded_mailboxAuth h.leases now
      (c.shared.app.tables.bundles.entries.map Prod.snd) c.shared.app.tables queues files cfg root]
    rfl
  · have hbytes := h.bytes
    rw [total_eq_zero fun t ht => (hclear t ht).2.2.2.1,
      total_eq_zero fun t ht => (hclear t ht).2.2.2.2, Nat.add_zero, Nat.add_zero] at hbytes
    rw [hbytes, hsaved']
    simp only [AppState.ofLoaded, List.map_map]
    rfl

/-- Whenever nothing is in flight and nothing is dirty, the tables hold the maps. -/
theorem writes_back [UuidText U] [DecidableEq U] {C : Crates} {now : Nat} {queues : QueueStore}
    {files : FileStore} {cfg : FileConfig} {root : String} {st : AppState} {t : MetaTables}
    {c : RelayConfig U}
    (hbuild : (AppState.build now queues files cfg root).commit []
      ⟨OrdMap.empty, OrdMap.empty⟩ = (.ok st, t))
    (hrun : Run (relayMachine C) Marks (started st) c) (hrest : Resting c)
    (hauth : c.shared.app.dirtyAuth = OrdMap.empty)
    (hbundles : c.shared.app.dirtyBundles = OrdMap.empty) : Restorable c.shared.app :=
  (hrun.invariant (writtenBack_start hbuild) fun _ _ _ h hg hs => h.step hg hs).restorable hrest
    hauth hbundles

/-- A mailbox registers and the flush writes it. -/
theorem writes_back_sample : ∃ c : RelayConfig SampleUuid,
    c.shared.app.mailboxAuth.size = 1 ∧ Restorable c.shared.app := by
  obtain ⟨c, hrun, hc⟩ := exists_run (M := relayMachine sampleCrates) (G := Marks)
    (c := started AppState.sampleState)
    (.spawn (.connect sampleTime) ::
      List.replicate 3 (sampleStep sampleTime 1 (sampleHello true) SampleUuid.u1 []) ++
      List.replicate 9 (sampleStep sampleTime 0 .ping SampleUuid.u1 []))
    (p := fun c => decide (Resting c ∧ c.shared.app.dirtyAuth = OrdMap.empty ∧
      c.shared.app.dirtyBundles = OrdMap.empty ∧ c.shared.app.mailboxAuth.size = 1))
    (by decide +kernel)
  obtain ⟨hrest, hauth, hbundles, hsize⟩ := of_decide_eq_true hc
  exact ⟨c, hsize, writes_back (AppState.build_run 0 _ _ _ _ _) hrun hrest hauth hbundles⟩

/-! ## A send refused after midnight -/

/-- One SendEnvelope whose enqueue fails, from the frame to the reply. -/
def failedSend (n : Nat) : List (Move (RelayMove Nat)) :=
  List.replicate 6 (sampleStep sampleTime 1 sampleSend n []) ++
    [sampleStep sampleTime 1 sampleSend n [true]] ++
    List.replicate 3 (sampleStep sampleTime 1 sampleSend n [])

/-- A mailbox registers and gets as many envelopes as its window allows, all is flushed, and
    one more envelope comes two seconds later, after midnight. -/
def midnightRun : List (Move (RelayMove Nat)) :=
  .spawn (.connect sampleTime) ::
    List.replicate 3 (sampleStep sampleTime 1 (sampleHello true) 0 []) ++
    (List.range maxSendsPerDestPerWindow).flatMap failedSend ++
    List.replicate 9 (sampleStep sampleTime 0 .ping 0 []) ++
    List.replicate 3 (sampleStep (sampleTime + 2000) 1 sampleSend 0 [])

/-- The rate-limited send refreshed the lease and did not mark it: with nothing in flight and
    nothing dirty, AUTH holds the lease of the day before. -/
theorem write_back_forgets :
    ¬∀ (C : Crates) (now : Nat) (queues : QueueStore) (files : FileStore) (cfg : FileConfig)
      (root : String) (st : AppState) (t : MetaTables) (c : RelayConfig Nat),
      (AppState.build now queues files cfg root).commit [] ⟨OrdMap.empty, OrdMap.empty⟩ =
        (.ok st, t) →
      Run (relayMachine C) FlushWrites (started st) c → Resting c →
      c.shared.app.dirtyAuth = OrdMap.empty → c.shared.app.dirtyBundles = OrdMap.empty →
      Restorable c.shared.app := by
  intro hall
  obtain ⟨c, hrun, hc⟩ := exists_run (M := relayMachine sampleCrates) (G := FlushWrites)
    (c := started AppState.sampleState) midnightRun
    (p := fun c => decide (Resting c ∧ c.shared.app.dirtyAuth = OrdMap.empty ∧
      c.shared.app.dirtyBundles = OrdMap.empty ∧
      c.shared.app.tables.auth ≠ c.shared.app.mailboxAuth))
    (by decide +kernel)
  obtain ⟨hrest, hauth, hbundles, hne⟩ := of_decide_eq_true hc
  exact hne (hall _ _ _ _ _ _ _ _ c (AppState.build_run 0 _ _ _ _ _) hrun hrest hauth
    hbundles).1

end AxenoRelay
