/-
  The relay comes to rest.

  `rank` gives every task a stage, which its steps never raise, and the work left in that
  stage: the rows, keys and ids that a loop still has to take up. Each step of a task at work
  lowers the rank, so work that is begun ends, whatever the other tasks do meanwhile. No
  handler waits for another one: an awaited send waits for the writer task of its own channel
  only, and then the writer has frames to take.
-/
import AxenoRelay.Lib.Settling
import AxenoRelay.Ws.Moves

namespace AxenoRelay

open Interleave

/-! ## Ranks -/

theorem pickFrom_length {α : Type} {e : StoreEvent} {l rest : List α} {a : α}
    (h : pickFrom e l = some (a, rest)) : rest.length + 1 = l.length := by
  obtain ⟨b, hb, heq⟩ := Option.map_eq_some_iff.mp h
  cases heq
  obtain ⟨hlt, _⟩ := List.getElem?_eq_some_iff.mp hb
  rw [List.length_eraseIdx_of_lt hlt]
  omega

/-- A lower stage, or the same stage with less work. -/
theorem rank_lt {a b c d : ℕ} (h : a < c ∨ a = c ∧ b < d) :
    (toLex (a, b) : ℕ ×ₗ ℕ) < toLex (c, d) :=
  Prod.Lex.toLex_lt_toLex.mpr h

theorem rank_lt_add {a b c d : ℕ} (h : a < c ∨ a = c ∧ b < d) (r : ℕ ×ₗ ℕ) :
    (toLex (a, b) : ℕ ×ₗ ℕ) < toLex (c, d) + r := by
  obtain ⟨x, y⟩ := r
  apply rank_lt
  show a < c + x ∨ a = c + x ∧ b < d + y
  omega

def PruneTask.rank : PruneTask → ℕ ×ₗ ℕ
  | check => toLex (4, 0)
  | stamp _ => toLex (3, 0)
  | scan _ => toLex (2, 0)
  | remove rest _ => toLex (1, 2 * rest.length)
  | mark _ rest _ => toLex (1, 2 * rest.length + 1)
  | sub _ => toLex (0, 1)
  | done => toLex (0, 0)

theorem PruneTask.step_rank {e : StoreEvent} {p p' : PruneTask} {st st' : AppState}
    (h : p.step e st = some (p', st')) : p'.rank < p.rank := by
  cases p with
  | check =>
    cases h
    split_ifs <;> exact rank_lt (by omega)
  | stamp now =>
    cases h
    exact rank_lt (by omega)
  | scan now =>
    cases h
    split_ifs <;> exact rank_lt (by omega)
  | remove rest freed =>
    simp only [step] at h
    split_ifs at h with hrest
    · cases h
      exact rank_lt (by omega)
    · cases hp : pickFrom e rest with
      | none =>
        rw [hp] at h
        cases h
      | some r =>
        obtain ⟨⟨id, n⟩, rest'⟩ := r
        have hlen := pickFrom_length hp
        rw [hp] at h
        dsimp only at h
        split_ifs at h
        all_goals
          cases h
          exact rank_lt (by omega)
  | mark id rest freed =>
    cases h
    exact rank_lt (by omega)
  | sub freed =>
    cases h
    exact rank_lt (by omega)
  | done => cases h

def QueueTask.rank {U : Type} : QueueTask U → ℕ ×ₗ ℕ
  | sweepTxn => toLex (1, 0)
  | enqSeq _ _ => toLex (0, 7)
  | enqIndex _ _ _ => toLex (0, 6)
  | enqRead _ _ _ => toLex (0, 5)
  | enqWrite _ _ _ _ _ => toLex (0, 4)
  | enqAdd _ _ _ _ | ackTxn _ _ | purgeTxn _ => toLex (0, 3)
  | enqSub _ _ _ _ | ackSub _ _ _ | purgeSub _ _ _ => toLex (0, 2)
  | enqUpdate _ _ _ _ | ackUpdate _ _ _ | purgeUpdate _ _ _ => toLex (0, 1)
  | sweepSub _ _ perMailbox => toLex (0, perMailbox.size + 2)
  | sweepUpdate _ rest => toLex (0, rest.size + 1)
  | done _ => toLex (0, 0)

theorem QueueTask.step_rank {U : Type} [UuidText U] {e : StoreEvent} {q q' : QueueTask U}
    {st st' : QueueStore} (h : q.step e st = some (q', st')) : q'.rank < q.rank := by
  cases q with
  | enqIndex m env v =>
    simp only [step] at h
    split_ifs at h
    all_goals
      cases h
      exact rank_lt (by omega)
  | enqRead m env v =>
    simp only [step] at h
    split at h
    all_goals
      cases h
      exact rank_lt (by omega)
  | enqWrite m env v ids b =>
    simp only [step] at h
    split at h
    all_goals
      cases h
      exact rank_lt (by omega)
  | ackTxn m ids =>
    simp only [step] at h
    split_ifs at h
    · cases h
      exact rank_lt (by omega)
    · split at h
      all_goals
        cases h
        exact rank_lt (by omega)
  | ackSub m r f =>
    cases h
    split_ifs <;> exact rank_lt (by omega)
  | purgeTxn m =>
    simp only [step] at h
    split at h
    all_goals
      cases h
      exact rank_lt (by omega)
  | sweepTxn =>
    simp only [step] at h
    split at h
    all_goals
      cases h
      exact rank_lt (by omega)
  | sweepUpdate n rest =>
    simp only [step] at h
    split_ifs at h
    · cases h
      exact rank_lt (by omega)
    · cases hp : rest.entries[e.pick]? with
      | none =>
        rw [hp] at h
        cases h
      | some r =>
        obtain ⟨m, c, b⟩ := r
        rw [hp] at h
        cases h
        have hsize := OrdMap.size_erase_old (OrdMap.get_eq_some_iff.mpr (List.mem_of_getElem? hp))
        exact rank_lt (by omega)
  | done r => cases h
  | _ =>
    cases h
    exact rank_lt (by omega)

/-- The work left after a delete. -/
def After.work : After → Nat
  | ret => 0
  | sweep rest _ => 5 * rest.length + 1

def FileTask.rank : FileTask → ℕ ×ₗ ℕ
  | sweepScan => toLex (1, 0)
  | storeClaim _ => toLex (0, 7)
  | storeSlot _ => toLex (0, 6)
  | storeWrite _ _ => toLex (0, 5)
  | storeFreeSlot _ _ | storeRelease _ _ => toLex (0, 4)
  | storeUnclaim _ _ | storeMirror _ _ => toLex (0, 3)
  | fetchShape _ _ => toLex (0, 2)
  | fetchRead _ _ _ => toLex (0, 1)
  | delTxn _ k => toLex (0, k.work + 4)
  | delUncache _ _ k => toLex (0, k.work + 3)
  | delSlot _ _ k => toLex (0, k.work + 2)
  | delBytes _ _ k => toLex (0, k.work + 1)
  | sweepNext rest _ => toLex (0, 5 * rest.length + 1)
  | done _ => toLex (0, 0)

theorem After.failed_rank (err : DbError) (k : After) {n : Nat} (h : 0 < n) :
    (k.failed err).rank < toLex (0, n) := by
  cases k <;> exact rank_lt (by omega)

theorem After.returned_rank (existed : Bool) (k : After) {n : Nat} (h : k.work < n) :
    (k.returned existed).rank < toLex (0, n) := by
  cases k
  all_goals
    rw [After.work] at h
    exact rank_lt (by omega)

theorem FileTask.step_rank {e : StoreEvent} {t t' : FileTask} {st st' : FileStore}
    (h : t.step e st = some (t', st')) : t'.rank < t.rank := by
  cases t with
  | storeClaim u =>
    simp only [step] at h
    split at h
    · cases h
      exact rank_lt (by omega)
    · split at h
      all_goals
        cases h
        exact rank_lt (by omega)
  | storeSlot u =>
    simp only [step] at h
    split at h
    all_goals
      cases h
      exact rank_lt (by omega)
  | storeWrite u creating =>
    simp only [step] at h
    split at h
    all_goals
      cases h
      split_ifs <;> exact rank_lt (by omega)
  | fetchShape id i =>
    simp only [step] at h
    split at h
    all_goals
      cases h
      exact rank_lt (by omega)
  | delTxn id k =>
    simp only [step] at h
    split at h
    · cases h
      exact k.failed_rank _ (by omega)
    · cases h
      exact k.returned_rank _ (by omega)
    · cases h
      exact rank_lt (by omega)
  | delBytes id stored k =>
    cases h
    exact k.returned_rank _ (by omega)
  | sweepNext rest removed =>
    simp only [step] at h
    split_ifs at h
    · cases h
      exact rank_lt (by omega)
    · cases hp : rest[e.pick]? with
      | none =>
        rw [hp] at h
        cases h
      | some id =>
        rw [hp] at h
        cases h
        obtain ⟨hlt, _⟩ := List.getElem?_eq_some_iff.mp hp
        have hlen := List.length_eraseIdx_of_lt hlt
        refine rank_lt (Or.inr ⟨rfl, ?_⟩)
        rw [After.work, hlen]
        omega
  | done r => cases h
  | _ =>
    cases h
    exact rank_lt (by omega)

def FlushTask.rank : FlushTask → ℕ ×ₗ ℕ
  | lookBundles => toLex (7, 0)
  | authKeys => toLex (6, 0)
  | authTake rest _ => toLex (5, 2 * rest.length)
  | authRead _ rest _ => toLex (5, 2 * rest.length + 1)
  | authTxn _ => toLex (4, 0)
  | bundleKeys => toLex (3, 0)
  | bundleTake rest _ => toLex (2, 2 * rest.length)
  | bundleRead _ rest _ => toLex (2, 2 * rest.length + 1)
  | bundleTxn _ => toLex (1, 0)
  | lookAuth => toLex (0, 0)

theorem FlushTask.step_rank {e : StoreEvent} {f f' : FlushTask} {st st' : AppState}
    (hf : f ≠ .lookAuth) (h : f.step e st = some (f', st')) : f'.rank < f.rank := by
  cases f with
  | lookAuth => exact absurd rfl hf
  | lookBundles =>
    cases h
    split_ifs <;> exact rank_lt (by omega)
  | authTake rest batch =>
    simp only [step] at h
    split_ifs at h
    · cases h
      exact rank_lt (by omega)
    · cases hp : pickFrom e rest with
      | none =>
        rw [hp] at h
        cases h
      | some r =>
        obtain ⟨k, rest'⟩ := r
        have hlen := pickFrom_length hp
        rw [hp] at h
        cases h
        exact rank_lt (by omega)
  | authTxn batch =>
    simp only [step] at h
    split at h
    all_goals
      cases h
      exact rank_lt (by omega)
  | bundleTake rest batch =>
    simp only [step] at h
    split_ifs at h
    · cases h
      exact rank_lt (by omega)
    · cases hp : pickFrom e rest with
      | none =>
        rw [hp] at h
        cases h
      | some r =>
        obtain ⟨k, rest'⟩ := r
        have hlen := pickFrom_length hp
        rw [hp] at h
        cases h
        exact rank_lt (by omega)
  | _ =>
    cases h
    exact rank_lt (by omega)

def GcTask.rank {U : Type} : GcTask U → ℕ ×ₗ ℕ
  | scan => toLex (3, 0)
  | empty _ rest _ => toLex (2, 2 * rest.length)
  | offline _ _ _ rest _ => toLex (2, 2 * rest.length + 1)
  | collect _ stale => toLex (1, 8 * stale.length)
  | count _ _ stale => toLex (1, 8 * stale.length + 7)
  | mark _ _ stale => toLex (1, 8 * stale.length + 6)
  | purge _ _ q stale => toLex (1, 8 * stale.length + 2) + q.rank
  | rate _ _ stale => toLex (1, 8 * stale.length + 1)
  | done => toLex (0, 0)

theorem GcTask.step_rank {U : Type} [UuidText U] {e : StoreEvent} {g g' : GcTask U}
    {st st' : AppState} (h : g.step e st = some (g', st')) : g'.rank < g.rank := by
  cases g with
  | empty now rest stale =>
    simp only [step] at h
    split_ifs at h
    · cases h
      exact rank_lt (by omega)
    · cases hp : pickFrom e rest with
      | none =>
        rw [hp] at h
        cases h
      | some r =>
        obtain ⟨rid, rest'⟩ := r
        have hlen := pickFrom_length hp
        rw [hp] at h
        cases h
        exact rank_lt (by omega)
  | collect now stale =>
    cases stale with
    | nil =>
      cases h
      exact rank_lt (by omega)
    | cons rid stale =>
      simp only [step] at h
      split at h
      all_goals
        cases h
        refine rank_lt (Or.inr ⟨rfl, ?_⟩)
        rw [List.length_cons]
        omega
  | mark now rid stale =>
    cases h
    exact rank_lt (Or.inr ⟨rfl, Nat.lt_succ_self _⟩)
  | purge now rid q stale =>
    cases q with
    | done r =>
      cases h
      exact rank_lt (Or.inr ⟨rfl, Nat.lt_succ_self _⟩)
    | _ =>
      simp only [step] at h
      obtain ⟨r, hr, heq⟩ := Option.map_eq_some_iff.mp h
      cases heq
      exact add_lt_add_right (QueueTask.step_rank hr) _
  | done => cases h
  | _ =>
    cases h
    exact rank_lt (by omega)

def SocketPc.rank {U : Type} : SocketPc U → ℕ ×ₗ ℕ
  | prune p _ => toLex (12, 0) + p.rank
  | uploadLook _ _ _ _ => toLex (11, 0)
  | helloMark _ _ _ | sendRate _ _ _ _ | uploadCount _ _ _ _ => toLex (10, 0)
  | helloOk _ _ _ | sendLive _ _ _ _ | uploadBytes _ _ _ _ | retireCount _ => toLex (9, 0)
  | helloOnline _ _ | sendStale _ _ | uploadInsert _ _ _ _ => toLex (8, 0)
  | retirePurge _ q => toLex (8, 0) + q.rank
  | helloFlush _ _ | sendCheck _ _ _ | uploadSub _ _ _ _ _ | retireRate _ => toLex (7, 0)
  | helloPush rest _ _ => toLex (6, rest.length)
  | sendQueue _ _ _ q => toLex (5, 1) + q.rank
  | uploadAdd _ _ _ _ | retireOnline _ => toLex (6, 0)
  | file t _ _ _ => toLex (5, 0) + t.rank
  | ackQueue q => toLex (5, 0) + q.rank
  | helloSynced _ _ | tokensMark _ _ | sendMark _ _ _ _ | uploadMark _ _ _ | fetchBundle _ _
  | retireMark _ => toLex (5, 0)
  | reply _ _ => toLex (4, 0)
  | closeLook => toLex (3, 0)
  | closeRemove _ => toLex (2, 0)
  | closeEnd => toLex (1, 0)
  | ready | closed => toLex (0, 0)

/-! ## Sockets -/

section

variable {U : Type}

theorem SocketPc.fileReply_rank (C : Crates) (r id : String) (i : Nat) (res : FileResult) :
    (fileReply C r id i res : SocketPc U).rank = toLex (4, 0) := by
  unfold fileReply
  split <;> rfl

theorem SocketPc.fileNotRun_rank (r id : String) (t : FileTask) :
    (fileNotRun r id t : SocketPc U).rank = toLex (4, 0) := by
  unfold fileNotRun
  split <;> rfl

theorem SocketPc.Inner.rank {C : Crates} {e : RelayEvent U} {w : Relay U}
    {pc pc' : SocketPc U} (h : SocketPc.Inner C e w pc pc') (hpc : pc.isReady = false) :
    pc'.rank < pc.rank := by
  cases h with
  | pruned f => cases f <;> exact rank_lt_add (by omega) _
  | fileDone res r id i =>
    rw [fileReply_rank]
    exact rank_lt_add (by omega) _
  | fileLost t r id i _ _ =>
    rw [fileNotRun_rank]
    exact rank_lt_add (by omega) _
  | found | vacant | countFull | countOk | bytesFull | bytesOk | fetched =>
    exact rank_lt (by omega)
  | _ => cases hpc

theorem SocketPc.Stepped.rank [UuidText U] {C : Crates} {e : RelayEvent U} {s s' : Socket}
    {pc pc' : SocketPc U} {w w' : Relay U} (h : SocketPc.Stepped C e s pc w s' pc' w')
    (hpc : pc.isReady = false) : pc'.rank < pc.rank := by
  cases h
  case inner h => exact h.rank hpc
  case said last => cases last <;> exact rank_lt (by omega)
  case helloOk certOnly _ => cases certOnly <;> exact rank_lt (by omega)
  case helloPush => exact rank_lt (Or.inr ⟨rfl, Nat.lt_succ_self _⟩)
  -- a step of a nested call
  case filed h => exact add_lt_add_right (FileTask.step_rank h) _
  case pruned h => exact add_lt_add_right (PruneTask.step_rank h) _
  case sendQueue h => exact add_lt_add_right (QueueTask.step_rank h) _
  case ackQueue h => exact add_lt_add_right (QueueTask.step_rank h) _
  case retirePurge h => exact add_lt_add_right (QueueTask.step_rank h) _
  -- the call has returned, or was not run
  case sendQueued => exact rank_lt_add (by omega) _
  case acked => exact rank_lt_add (by omega) _
  case retirePurged => exact rank_lt_add (by omega) _
  -- a call begins
  case sendStart =>
    show (toLex (5, 8) : ℕ ×ₗ ℕ) < toLex (7, 0)
    exact rank_lt (by omega)
  case retireCount =>
    show (toLex (8, 3) : ℕ ×ₗ ℕ) < toLex (9, 0)
    exact rank_lt (by omega)
  all_goals first | cases hpc; done | exact rank_lt (by omega)

end

/-! ## The relay -/

section

variable {U : Type}

def RelayTask.rank : RelayTask U → ℕ ×ₗ ℕ
  | socket _ pc => pc.rank
  | flush f => f.rank
  | gc g => g.rank
  | sweepQueues q => q.rank
  | sweepFiles t => t.rank

/-- The frames that the writer tasks have not taken yet. -/
def Relay.backlog (w : Relay U) : Nat := (w.chans.map fun c => c.sent.length - c.taken).sum

variable [UuidText U] [DecidableEq U]

theorem RelayTask.step_rank {C : Crates} {e : RelayEvent U} {t t' : RelayTask U}
    {w w' : Relay U} (h : t.step C e w = some (t', w')) (ht : t.resting = false) :
    t'.rank < t.rank := by
  cases t with
  | socket s pc =>
    obtain ⟨⟨s', pc', w1⟩, hs, heq⟩ := Option.map_eq_some_iff.mp h
    cases heq
    refine (SocketPc.stepped_of_step hs).rank ?_
    cases pc <;> first | rfl | cases ht
  | flush f =>
    obtain ⟨⟨f', st⟩, hs, heq⟩ := Option.map_eq_some_iff.mp h
    cases heq
    refine FlushTask.step_rank ?_ hs
    rintro rfl
    cases ht
  | gc g =>
    obtain ⟨⟨g', st⟩, hs, heq⟩ := Option.map_eq_some_iff.mp h
    cases heq
    exact GcTask.step_rank hs
  | sweepQueues q =>
    obtain ⟨⟨q', st⟩, hs, heq⟩ := Option.map_eq_some_iff.mp h
    cases heq
    exact QueueTask.step_rank hs
  | sweepFiles t =>
    obtain ⟨⟨t', st⟩, hs, heq⟩ := Option.map_eq_some_iff.mp h
    cases heq
    exact FileTask.step_rank hs

/-- A task goes on with what it is at, or a writer task takes a frame. -/
inductive Works (C : Crates) (c c' : RelayConfig U) : Prop
  | task (i : Nat) (e : RelayEvent U) (t : RelayTask U) (ht : c.pool[i]? = some t)
      (hwork : t.resting = false) (hn : (relayMachine C).next (.act i (.run e)) c = some c')
  | writer (sid : Nat) (hn : (relayMachine C).next (.env (.drain sid)) c = some c')

/-- The writer task of a socket gives up. -/
def GivesUp (C : Crates) (c c' : RelayConfig U) : Prop :=
  ∃ sid, (relayMachine C).next (.env (.drop sid)) c = some c'

omit [UuidText U] [DecidableEq U] in
/-- A drain takes a frame off the backlog. -/
theorem backlog_drain {w : Relay U} {sid : Nat} {ch : Chan U} (hch : w.chans[sid]? = some ch)
    (h : ch.taken < ch.sent.length) :
    { w with chans := w.chans.set sid { ch with taken := ch.taken + 1 } }.backlog < w.backlog := by
  have hsum := sum_map_set (fun c : Chan U => c.sent.length - c.taken) hch
    { ch with taken := ch.taken + 1 }
  dsimp only at hsum
  show ((w.chans.set sid { ch with taken := ch.taken + 1 }).map _).sum < (w.chans.map _).sum
  omega

omit [UuidText U] [DecidableEq U] in
theorem backlog_drop (w : Relay U) (sid : Nat) :
    { w with chans := w.chans.modify sid fun c => { c with isOpen := false } }.backlog =
      w.backlog := by
  refine congrArg List.sum (List.ext_getElem? fun i => ?_)
  simp only [List.getElem?_map, List.getElem?_modify]
  split_ifs <;> cases w.chans[i]? <;> rfl

theorem Works.measure_lt {C : Crates} {c c' : RelayConfig U} (h : Works C c c') :
    c'.measure RelayTask.rank Relay.backlog < c.measure RelayTask.rank Relay.backlog := by
  cases h with
  | task i e t ht hwork hn =>
    obtain ⟨u, t', w, hu, hs, rfl⟩ := next_act hn
    obtain rfl : t = u := Option.some.inj (ht.symm.trans hu)
    exact measure_act_lt w ht (RelayTask.step_rank hs hwork)
  | writer sid hn =>
    obtain ⟨w, hs, rfl⟩ := next_env hn
    simp only [relayMachine] at hs
    cases hch : c.shared.chans[sid]? with
    | none =>
      rw [hch] at hs
      cases hs
    | some ch =>
      rw [hch] at hs
      dsimp only at hs
      split_ifs at hs with htaken
      cases hs
      exact measure_env_lt (backlog_drain hch htaken)

theorem GivesUp.measure_le {C : Crates} {c c' : RelayConfig U} (h : GivesUp C c c') :
    c'.measure RelayTask.rank Relay.backlog ≤ c.measure RelayTask.rank Relay.backlog := by
  obtain ⟨sid, hn⟩ := h
  obtain ⟨w, hs, rfl⟩ := next_env hn
  cases hs
  exact measure_env_le (backlog_drop c.shared sid).le

/-! ## Nobody is stuck -/

/-- An event at which nothing fails and the first entry is picked. -/
def plainEvent (id : U) : RelayEvent U := ⟨⟨0, [], [], 0⟩, .other, id, false, .error ""⟩

theorem enabled_map {α β : Type} {o : Option α} (h : ∃ a, o = some a) (f : α → β) :
    ∃ b, o.map f = some b := by
  obtain ⟨a, rfl⟩ := h
  exact ⟨f a, rfl⟩

theorem pickFrom_isSome {α : Type} {e : StoreEvent} (he : e.pick = 0) {l : List α}
    (hl : l.isEmpty = false) : ∃ r, pickFrom e l = some r := by
  cases l with
  | nil => cases hl
  | cons a l =>
    refine ⟨(a, l), ?_⟩
    rw [pickFrom, he]
    rfl

theorem PruneTask.step_enabled {e : StoreEvent} (he : e.pick = 0) {p : PruneTask}
    (hp : p ≠ .done) (st : AppState) : ∃ r, p.step e st = some r := by
  cases p with
  | remove rest freed =>
    simp only [step]
    split_ifs with hrest
    · exact ⟨_, rfl⟩
    · obtain ⟨⟨⟨id, n⟩, rest'⟩, hpick⟩ := pickFrom_isSome he (Bool.not_eq_true _ ▸ hrest)
      rw [hpick]
      dsimp only
      split_ifs <;> exact ⟨_, rfl⟩
  | done => exact absurd rfl hp
  | _ => exact ⟨_, rfl⟩

omit [DecidableEq U] in
theorem QueueTask.step_enabled {e : StoreEvent} (he : e.pick = 0) {q : QueueTask U}
    (hq : q.finished = false) (st : QueueStore) : ∃ r, q.step e st = some r := by
  cases q with
  | enqIndex m env v =>
    simp only [step]
    split_ifs <;> exact ⟨_, rfl⟩
  | enqRead m env v =>
    simp only [step]
    split <;> exact ⟨_, rfl⟩
  | enqWrite m env v ids b =>
    simp only [step]
    split <;> exact ⟨_, rfl⟩
  | ackTxn m ids =>
    simp only [step]
    split_ifs
    · exact ⟨_, rfl⟩
    · split <;> exact ⟨_, rfl⟩
  | purgeTxn m =>
    simp only [step]
    split <;> exact ⟨_, rfl⟩
  | sweepTxn =>
    simp only [step]
    split <;> exact ⟨_, rfl⟩
  | sweepUpdate n rest =>
    simp only [step, he]
    cases rest.entries with
    | nil => exact ⟨_, rfl⟩
    | cons p l => exact ⟨_, rfl⟩
  | done r => cases hq
  | _ => exact ⟨_, rfl⟩

theorem FileTask.step_enabled {e : StoreEvent} (he : e.pick = 0) {t : FileTask}
    (ht : t.finished = false) (st : FileStore) : ∃ r, t.step e st = some r := by
  cases t with
  | storeClaim u =>
    simp only [step]
    split
    · exact ⟨_, rfl⟩
    · split <;> exact ⟨_, rfl⟩
  | storeSlot u =>
    simp only [step]
    split <;> exact ⟨_, rfl⟩
  | storeWrite u creating =>
    simp only [step]
    split <;> exact ⟨_, rfl⟩
  | fetchShape id i =>
    simp only [step]
    split <;> exact ⟨_, rfl⟩
  | delTxn id k =>
    simp only [step]
    split <;> exact ⟨_, rfl⟩
  | sweepNext rest removed =>
    cases rest with
    | nil => exact ⟨_, rfl⟩
    | cons id rest =>
      simp only [step, he]
      exact ⟨_, rfl⟩
  | done r => cases ht
  | _ => exact ⟨_, rfl⟩

theorem FlushTask.step_enabled {e : StoreEvent} (he : e.pick = 0) (f : FlushTask)
    (st : AppState) : ∃ r, f.step e st = some r := by
  cases f with
  | authTake rest batch =>
    simp only [step]
    split_ifs with hrest
    · exact ⟨_, rfl⟩
    · obtain ⟨⟨k, rest'⟩, hpick⟩ := pickFrom_isSome he (Bool.not_eq_true _ ▸ hrest)
      rw [hpick]
      exact ⟨_, rfl⟩
  | authTxn batch =>
    simp only [step]
    split <;> exact ⟨_, rfl⟩
  | bundleTake rest batch =>
    simp only [step]
    split_ifs with hrest
    · exact ⟨_, rfl⟩
    · obtain ⟨⟨k, rest'⟩, hpick⟩ := pickFrom_isSome he (Bool.not_eq_true _ ▸ hrest)
      rw [hpick]
      exact ⟨_, rfl⟩
  | _ => exact ⟨_, rfl⟩

omit [DecidableEq U] in
theorem GcTask.step_enabled {e : StoreEvent} (he : e.pick = 0) {g : GcTask U}
    (hg : (RelayTask.gc g).resting = false) (st : AppState) : ∃ r, g.step e st = some r := by
  cases g with
  | empty now rest stale =>
    simp only [step]
    split_ifs with hrest
    · exact ⟨_, rfl⟩
    · obtain ⟨⟨rid, rest'⟩, hpick⟩ := pickFrom_isSome he (Bool.not_eq_true _ ▸ hrest)
      rw [hpick]
      exact ⟨_, rfl⟩
  | collect now stale =>
    cases stale with
    | nil => exact ⟨_, rfl⟩
    | cons rid stale =>
      simp only [step]
      split <;> exact ⟨_, rfl⟩
  | purge now rid q stale =>
    cases hq : q.finished with
    | true =>
      cases q with
      | done r => exact ⟨_, rfl⟩
      | _ => cases hq
    | false =>
      have hstep := QueueTask.step_enabled he hq st.queues
      cases q with
      | done r => cases hq
      | _ =>
        simp only [step]
        exact enabled_map hstep _
  | done => cases hg
  | _ => exact ⟨_, rfl⟩

omit [DecidableEq U] in
theorem SocketPc.queueStep_enabled {e : RelayEvent U} (he : e.store.pick = 0) (q : QueueTask U)
    (w : Relay U) (next : QueueTask U → SocketPc U) (done : Except DbError Nat → SocketPc U) :
    ∃ r, queueStep e q w next done = some r := by
  unfold queueStep
  split
  · exact ⟨_, rfl⟩
  · rename_i hne
    split_ifs
    · exact ⟨_, rfl⟩
    · have hq : q.finished = false := by
        cases q <;> first | rfl | exact absurd rfl (hne _)
      exact enabled_map (QueueTask.step_enabled he hq w.app.queues) _

omit [UuidText U] [DecidableEq U] in
/-- An awaited send that has to wait leaves the writer task frames to take. -/
theorem SocketPc.awaitSend_enabled (w : Relay U) (sid : Nat) (f : ServerFrame U) :
    (∃ r, awaitSend w sid f = some r) ∨
      ∃ ch, w.chans[sid]? = some ch ∧ ch.taken < ch.sent.length := by
  unfold awaitSend
  cases hch : w.chans[sid]? with
  | none => exact Or.inl ⟨_, rfl⟩
  | some ch =>
    dsimp only
    split_ifs with hopen hroom
    · exact Or.inl ⟨_, rfl⟩
    · exact Or.inl ⟨_, rfl⟩
    · refine Or.inr ⟨ch, rfl, ?_⟩
      have hfull : ¬ ch.sent.length - ch.taken < outboundQueueCapacity :=
        fun h => hroom (decide_eq_true h)
      unfold outboundQueueCapacity at hfull
      omega

/-- A handler at work can go on, or its writer task can. -/
theorem SocketPc.step_enabled (C : Crates) {e : RelayEvent U} (he : e.store.pick = 0) (s : Socket)
    {w : Relay U} (hid : e.uuid ∉ w.issued) {pc : SocketPc U}
    (hpc : (RelayTask.socket s pc).resting = false) :
    (∃ r, pc.step C e s w = some r) ∨
      ∃ ch, w.chans[s.sid]? = some ch ∧ ch.taken < ch.sent.length := by
  cases pc with
  | ready => cases hpc
  | closed => cases hpc
  | helloPush rest delivered selected =>
    cases rest with
    | nil => exact Or.inl ⟨_, rfl⟩
    | cons env rest =>
      exact (awaitSend_enabled w s.sid (.envelope env)).imp_left fun h => enabled_map h _
  | helloSynced delivered selected =>
    simp only [step]
    split_ifs
    · exact (awaitSend_enabled w s.sid (.synced delivered)).imp_left fun h => enabled_map h _
    · exact Or.inl ⟨_, rfl⟩
  | sendRate r m ty ct =>
    simp only [step]
    split <;> exact Or.inl ⟨_, rfl⟩
  | sendLive r m ty ct =>
    simp only [step, if_neg hid]
    split
    · exact Or.inl ⟨_, rfl⟩
    · split <;> exact Or.inl ⟨_, rfl⟩
  | sendCheck r env live =>
    simp only [step]
    split_ifs <;> exact Or.inl ⟨_, rfl⟩
  | sendQueue r env live q =>
    exact Or.inl (enabled_map (queueStep_enabled he q w _ _) _)
  | prune p f =>
    left
    cases hp : decide (p = .done) with
    | true =>
      rw [of_decide_eq_true hp]
      exact ⟨_, rfl⟩
    | false =>
      have hstep := PruneTask.step_enabled he (of_decide_eq_false hp) w.app
      cases p with
      | done => cases hp
      | _ =>
        simp only [step]
        exact enabled_map hstep _
  | uploadLook r id ct x =>
    simp only [step]
    split <;> exact Or.inl ⟨_, rfl⟩
  | fetchBundle r id =>
    simp only [step]
    split <;> exact Or.inl ⟨_, rfl⟩
  | file t r id i =>
    left
    cases ht : t.finished with
    | true =>
      cases t with
      | done res => exact ⟨_, rfl⟩
      | _ => cases ht
    | false =>
      cases hrun : e.notRun && t.starts with
      | true =>
        cases t with
        | done res => cases ht
        | _ =>
          simp only [step, hrun, if_true]
          exact ⟨_, rfl⟩
      | false =>
        have hstep := FileTask.step_enabled he ht w.app.files
        cases t with
        | done res => cases ht
        | _ =>
          simp only [step, hrun, Bool.false_eq_true, if_false]
          exact enabled_map hstep _
  | ackQueue q =>
    exact Or.inl (enabled_map (queueStep_enabled he q w _ _) _)
  | retirePurge rid q =>
    exact Or.inl (enabled_map (queueStep_enabled he q w _ _) _)
  | closeLook =>
    simp only [step]
    split <;> exact Or.inl ⟨_, rfl⟩
  | _ => exact Or.inl ⟨_, rfl⟩

theorem RelayTask.step_enabled (C : Crates) {e : RelayEvent U} (he : e.store.pick = 0)
    {w : Relay U} (hid : e.uuid ∉ w.issued) {t : RelayTask U} (ht : t.resting = false) :
    (∃ r, t.step C e w = some r) ∨
      ∃ (sid : Nat) (ch : Chan U), w.chans[sid]? = some ch ∧ ch.taken < ch.sent.length := by
  cases t with
  | socket s pc =>
    rcases SocketPc.step_enabled C he s hid ht with hstep | hwait
    · exact Or.inl (enabled_map hstep _)
    · exact Or.inr ⟨s.sid, hwait⟩
  | flush f => exact Or.inl (enabled_map (f.step_enabled he w.app) _)
  | gc g => exact Or.inl (enabled_map (GcTask.step_enabled he ht w.app) _)
  | sweepQueues q =>
    have hq : q.finished = false := by
      cases q <;> first | rfl | cases ht
    exact Or.inl (enabled_map (QueueTask.step_enabled he hq w.app.queues) _)
  | sweepFiles t =>
    have hfin : t.finished = false := by
      cases t <;> first | rfl | cases ht
    exact Or.inl (enabled_map (FileTask.step_enabled he hfin w.app.files) _)

/-- A relay that is not at rest can go on with its work. -/
theorem works_of_not_resting [Infinite U] (C : Crates) {c : RelayConfig U} (hc : ¬ Resting c) :
    ∃ c', Works C c c' := by
  obtain ⟨t, hmem, ht⟩ : ∃ t ∈ c.pool, t.resting ≠ true := by
    unfold Resting at hc
    push Not at hc
    exact hc
  obtain ⟨i, hi⟩ := List.mem_iff_getElem?.mp hmem
  have hwork : t.resting = false := Bool.not_eq_true _ ▸ ht
  obtain ⟨id, hid⟩ := Infinite.exists_notMem_finset c.shared.issued.toFinset
  rw [List.mem_toFinset] at hid
  rcases RelayTask.step_enabled C (e := plainEvent id) rfl hid hwork with ⟨r, hr⟩ | hwait
  · exact ⟨_, .task i (plainEvent id) t hi hwork (next_of_step hi hr)⟩
  · obtain ⟨sid, ch, hch, htaken⟩ := hwait
    refine ⟨⟨{ c.shared with chans := c.shared.chans.set sid { ch with taken := ch.taken + 1 } },
      c.pool⟩, .writer sid ?_⟩
    simp only [Machine.next, relayMachine, hch, if_pos htaken, Option.map_some]

/-- Whatever order the tasks are run in and whichever writers give up, in a run without new
    messages, timers and connections the relay works finitely often; and it never has work left
    that nobody can go on with. -/
theorem comes_to_rest [Infinite U] (C : Crates) :
    (∀ run : ℕ → RelayConfig U,
      (∀ n, Works C (run n) (run (n + 1)) ∨ GivesUp C (run n) (run (n + 1))) →
        ∃ N, ∀ n, N ≤ n → ¬ Works C (run n) (run (n + 1))) ∧
      ∀ c : RelayConfig U, ¬ Resting c → ∃ c', Works C c c' := by
  refine ⟨fun run hrun => ?_, fun c hc => works_of_not_resting C hc⟩
  apply eventually_not (fun c => c.measure RelayTask.rank Relay.backlog) (Works C)
    (fun _ _ h => h.measure_lt) run
  intro n
  rcases hrun n with h | h
  · exact h.measure_lt.le
  · exact h.measure_le

end

/-! ## A run -/

/-- A Hello that waits for its writer task: the channel is full. -/
def blocked : RelayConfig Nat :=
  ⟨⟨AppState.sampleState, [⟨List.replicate outboundQueueCapacity (.ackOk 0), 0, true⟩], []⟩,
    [.socket ⟨0, none, 0, 1⟩ (.helloSynced 0 6)]⟩

/-- The handler cannot go on, but the relay can. -/
theorem comes_to_rest_sample :
    (∀ e, (RelayTask.socket ⟨0, none, 0, 1⟩ (.helloSynced 0 6)).step sampleCrates e
      blocked.shared = none) ∧ ∃ c', Works sampleCrates blocked c' := by
  refine ⟨fun e => ?_, (comes_to_rest sampleCrates).2 blocked (by decide)⟩
  simp [RelayTask.step, SocketPc.step, SocketPc.awaitSend, blocked, Chan.hasRoom]

end AxenoRelay
