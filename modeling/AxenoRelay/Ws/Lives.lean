/-
  The relay over any number of starts and crashes.

  A crash leaves what the database holds: the rows, the metadata tables and the file tables,
  each as its last committed transaction left it. `reopen` is the start over such a disk
  (`async_main` with nothing left to migrate), and `RelayLives` the runs of a relay that is
  stopped and started anywhere. Every life begins with a state that the theorems about runs
  ask for (`WellStarted`), and an envelope that the relay holds in one life was sent to it in
  this life or in an earlier one.
-/
import AxenoRelay.Startup.Basic
import AxenoRelay.FileStore.Transfers
import AxenoRelay.Ws.Origins
import AxenoRelay.Meta.WriteBack

namespace AxenoRelay

open Interleave QueueStore

/-! ## Opening the database -/

/-- What the database holds. -/
structure Disk where
  envelopes : Envelopes
  tables : MetaTables
  files : FileTables

/-- A new database. -/
def Disk.empty : Disk := ⟨OrdMap.empty, ⟨OrdMap.empty, OrdMap.empty⟩, ⟨OrdMap.empty, OrdMap.empty⟩⟩

/-- The clock, the configuration and the failing database calls of a start. -/
structure OpenEvent where
  now : Nat
  config : FileConfig
  trustRoot : String
  queueFaults : Faults
  metaFaults : Faults
  fileFaults : Faults
  buildFaults : Faults

/-- The stores are opened one after the other, and the state is built over them. -/
def reopen (e : OpenEvent) (d : Disk) : Except DbError AppState :=
  match (QueueStore.new.commit e.queueFaults d.envelopes).1 with
  | .error err => .error err
  | .ok queues =>
    match (MetaTables.new.commit e.metaFaults d.tables).1 with
    | .error err => .error err
    | .ok () =>
      match ((FileStore.new e.config).commit e.fileFaults d.files).1 with
      | .error err => .error err
      | .ok files =>
        ((AppState.build e.now queues files e.config e.trustRoot).commit e.buildFaults d.tables).1

/-- What a crash leaves behind. -/
def AppState.disk (st : AppState) : Disk := ⟨st.queues.envelopes, st.tables, st.files.tables⟩

theorem AppState.build_cases (now : Nat) (queues : QueueStore) (files : FileStore)
    (cfg : FileConfig) (trustRoot : String) (fs : Faults) (t : MetaTables) :
    (∃ err, (AppState.build now queues files cfg trustRoot).commit fs t = (.error err, t)) ∨
      (AppState.build now queues files cfg trustRoot).commit fs t =
        (.ok (ofLoaded now t.auth.entries (t.bundles.entries.map Prod.snd) t queues files cfg
          trustRoot), t) := by
  refine Txn.commit_cases ?_ ?_ fs
  · have hload : ∀ {β : Type} (l : List β), (Txn.each (fun _ : β => Txn.touch (T := MetaTables)
        DbError.db) l).Sound := fun l => Txn.sound_each (fun _ => Txn.sound_touch _) l
    exact Txn.sound_bind (Txn.sound_bind (Txn.sound_touch _) fun _ => Txn.sound_bind
        (Txn.sound_touch _) fun _ => Txn.sound_bind (Txn.sound_read _ _) fun _ =>
          Txn.sound_bind (hload _) fun _ => Txn.sound_pure _) fun _ =>
      Txn.sound_bind (Txn.sound_bind (Txn.sound_touch _) fun _ => Txn.sound_bind
        (Txn.sound_touch _) fun _ => Txn.sound_bind (Txn.sound_read _ _) fun _ =>
          Txn.sound_bind (hload _) fun _ => Txn.sound_pure _) fun _ =>
      Txn.sound_bind (Txn.sound_read _ _) fun _ => Txn.sound_pure _
  · simp only [AppState.build, Txn.bind_run, MetaTables.loadAllAuth_run,
      MetaTables.loadAllBundles_run]
    rfl

/-- A start that succeeds builds the state from what the disk holds, and changes none of it. -/
theorem reopen_ok {e : OpenEvent} {d : Disk} {st : AppState} (h : reopen e d = .ok st) :
    st = AppState.ofLoaded e.now d.tables.auth.entries (d.tables.bundles.entries.map Prod.snd)
      d.tables (QueueStore.ofTable d.envelopes) (FileStore.ofTables e.config d.files) e.config
      e.trustRoot := by
  unfold reopen at h
  rcases new_cases e.queueFaults d.envelopes with ⟨err, hq⟩ | hq
  · rw [hq] at h
    cases h
  rw [hq] at h
  dsimp only at h
  cases hm : (MetaTables.new.commit e.metaFaults d.tables).1 with
  | error err =>
    rw [hm] at h
    cases h
  | ok u =>
    rw [hm] at h
    dsimp only at h
    rcases FileStore.new_cases e.config e.fileFaults d.files with ⟨err, hf⟩ | hf
    · rw [hf] at h
      cases h
    rw [hf] at h
    dsimp only at h
    rcases AppState.build_cases e.now (QueueStore.ofTable d.envelopes)
      (FileStore.ofTables e.config d.files) e.config e.trustRoot e.buildFaults d.tables with
      ⟨err, hb⟩ | hb
    · rw [hb] at h
      cases h
    · rw [hb] at h
      exact (Except.ok.inj h).symm

/-- A start at which nothing fails. -/
theorem reopen_plain (now : Nat) (cfg : FileConfig) (trustRoot : String) (d : Disk) :
    ∃ st, reopen ⟨now, cfg, trustRoot, [], [], [], []⟩ d = .ok st := by
  have hq : (QueueStore.new.commit [] d.envelopes).1 = .ok (QueueStore.ofTable d.envelopes) :=
    congrArg Prod.fst (Txn.commit_nil (new_txn_run d.envelopes))
  have hm : (MetaTables.new.commit [] d.tables).1 = .ok () := rfl
  unfold reopen
  dsimp only
  rw [hq, FileStore.new_run]
  dsimp only
  rw [hm]
  dsimp only
  rw [AppState.build_run]
  exact ⟨_, rfl⟩

/-! ## What every life begins with -/

section

variable {U : Type} [UuidText U]

/-- What the theorems about the runs of a relay ask of the state it is started over. -/
structure WellStarted (U : Type) [UuidText U] (st : AppState) : Prop where
  keys : KeysOk U st.queues.envelopes
  names : st.mailboxAuth.All fun m _ => NameOk m
  ids : st.bundles.All fun k b => b.id = k
  offline : st.online = OrdMap.empty

/-- A disk that a relay can be started over. -/
structure DiskOk (U : Type) [UuidText U] (d : Disk) : Prop where
  keys : KeysOk U d.envelopes
  names : d.tables.auth.All fun m _ => NameOk m
  ids : d.tables.bundles.All fun k b => b.id = k

theorem diskOk_empty : DiskOk U Disk.empty := ⟨keysOk_empty, OrdMap.all_empty, OrdMap.all_empty⟩

theorem reopen_wellStarted {e : OpenEvent} {d : Disk} {st : AppState} (hd : DiskOk U d)
    (h : reopen e d = .ok st) : WellStarted U st ∧ st.disk = d := by
  obtain rfl := reopen_ok h
  refine ⟨⟨hd.keys, ?_, ?_, rfl⟩, rfl⟩
  · refine OrdMap.all_collect fun x hx => ?_
    obtain ⟨y, hy, rfl⟩ := List.mem_map.mp hx
    exact hd.names y.1 y.2 (OrdMap.get_eq_some_iff.mpr hy)
  · refine OrdMap.all_collect fun x hx => ?_
    obtain ⟨b, _, rfl⟩ := List.mem_map.mp hx
    rfl

/-! ## What every life leaves behind -/

/-- The tables, and what the flush task is about to write to them. -/
structure Saved (c : RelayConfig U) : Prop where
  named : Named c
  ids : c.shared.app.bundles.All fun k b => b.id = k
  auth : c.shared.app.tables.auth.All fun m _ => NameOk m
  bundles : c.shared.app.tables.bundles.All fun k b => b.id = k
  authBatch : ∀ f, RelayTask.flush f ∈ c.pool → ∀ m a, (m, some a) ∈ f.authBatch → NameOk m
  bundleBatch : ∀ f, RelayTask.flush f ∈ c.pool →
    ∀ k (b : HostedBundle), (k, some b) ∈ f.bundleBatch → b.id = k

theorem Saved.diskOk {c : RelayConfig U} (h : Saved c) : DiskOk U c.shared.app.disk :=
  ⟨h.named.keys, h.auth, h.bundles⟩

theorem saved_start {st : AppState} (h : WellStarted U st) (hd : DiskOk U st.disk) :
    Saved (started st : RelayConfig U) := by
  refine ⟨named_start h.keys h.names, h.ids, hd.names, hd.ids, fun f hf => ?_, fun f hf => ?_⟩
  · cases List.mem_singleton.mp hf
    intro m a hmem
    cases hmem
  · cases List.mem_singleton.mp hf
    intro k b hmem
    cases hmem

/-- What one step of the flush keeps of the tables and its batches. -/
theorem FlushTask.Stepped.saved {e : StoreEvent} {f f' : FlushTask} {st st' : AppState}
    (hs : FlushTask.Stepped e f st f' st')
    (hnames : st.mailboxAuth.All fun m _ => NameOk m) (hids : st.bundles.All fun k b => b.id = k)
    (hauth : st.tables.auth.All fun m _ => NameOk m)
    (hbundles : st.tables.bundles.All fun k b => b.id = k)
    (hab : ∀ m a, (m, some a) ∈ f.authBatch → NameOk m)
    (hbb : ∀ k (b : HostedBundle), (k, some b) ∈ f.bundleBatch → b.id = k) :
    (st'.tables.auth.All fun m _ => NameOk m) ∧ (st'.tables.bundles.All fun k b => b.id = k) ∧
      (∀ m a, (m, some a) ∈ f'.authBatch → NameOk m) ∧
      ∀ k (b : HostedBundle), (k, some b) ∈ f'.bundleBatch → b.id = k := by
  have hnone : ∀ {α : Type} {x : α}, x ∉ ([] : List α) := List.not_mem_nil
  cases hs with
  | look _ _ _ _ hf' =>
    refine ⟨hauth, hbundles, ?_, ?_⟩
    all_goals
      intro _ _ hmem
      rcases hf' with rfl | rfl | rfl <;> cases hmem
  | authRead k rest batch =>
    refine ⟨hauth, hbundles, fun m a hmem => ?_, fun k b hmem => absurd hmem hnone⟩
    rcases List.mem_append.mp hmem with hold | hnew
    · exact hab m a hold
    · have heq := Prod.mk.inj (List.mem_singleton.mp hnew)
      exact hnames m a (heq.1 ▸ heq.2.symm)
  | bundleRead k rest batch =>
    refine ⟨hauth, hbundles, fun m a hmem => absurd hmem hnone, fun k' b hmem => ?_⟩
    rcases List.mem_append.mp hmem with hold | hnew
    · exact hbb k' b hold
    · have heq := Prod.mk.inj (List.mem_singleton.mp hnew)
      exact hids k' b (heq.1 ▸ heq.2.symm)
  | authWritten batch =>
    exact ⟨hauth.assignAll hab, hbundles, fun _ _ hmem => absurd hmem hnone,
      fun _ _ hmem => absurd hmem hnone⟩
  | bundleWritten batch =>
    exact ⟨hauth, hbundles.assignAll hbb, fun _ _ hmem => absurd hmem hnone,
      fun _ _ hmem => absurd hmem hnone⟩
  | authKeys | authFailed | bundleKeys | bundleFailed =>
    exact ⟨hauth, hbundles, fun _ _ hmem => absurd hmem hnone, fun _ _ hmem => absurd hmem hnone⟩
  | authTake | authTaken => exact ⟨hauth, hbundles, hab, fun _ _ hmem => absurd hmem hnone⟩
  | bundleTake | bundleTaken => exact ⟨hauth, hbundles, fun _ _ hmem => absurd hmem hnone, hbb⟩

theorem Moved.saved {C : Crates} {c c' : RelayConfig U} {mv : Move (RelayMove U)}
    (hm : Moved C c mv c') (h : Saved c) : Saved c' := by
  have hnamed := h.named.step hm
  have hids := hm.bundleIds h.ids
  -- a move that leaves the tables and the flush task as they are
  have hquiet : c'.shared.app.tables = c.shared.app.tables →
      (∀ f, RelayTask.flush f ∈ c'.pool → RelayTask.flush f ∈ c.pool) → Saved c' := by
    intro htables hpool
    refine ⟨hnamed, hids, ?_, ?_, fun f hf => h.authBatch f (hpool f hf),
      fun f hf => h.bundleBatch f (hpool f hf)⟩
    · rw [htables]
      exact h.auth
    · rw [htables]
      exact h.bundles
  cases hm with
  | spawned ev t c w hs =>
    obtain ⟨n, happ⟩ := hs.app
    refine hquiet (by dsimp only; rw [happ]) fun f hf => ?_
    rcases List.mem_append.mp hf with hold | hnew
    · exact hold
    · cases hs <;> cases List.mem_singleton.mp hnew
  | wrote ev c w hs => exact hquiet (by dsimp only; rw [hs.app]) fun f hf => hf
  | stepped i e t t' c w ht hs =>
    have hother : (∀ f, t' ≠ .flush f) →
        ∀ f, RelayTask.flush f ∈ c.pool.set i t' → RelayTask.flush f ∈ c.pool := by
      intro hno f hf
      rcases mem_set_cases hf with heq | hold
      · exact absurd heq.symm (hno f)
      · exact hold
    cases hs with
    | socket s s' pc pc' _ _ hs => exact hquiet hs.tables (hother fun _ => by simp)
    | gc g g' st _ hs =>
      refine hquiet ?_ (hother fun _ => by simp)
      cases hs <;> rfl
    | sweepQueues => exact hquiet rfl (hother fun _ => by simp)
    | sweepFiles => exact hquiet rfl (hother fun _ => by simp)
    | flush f f' st _ hs =>
      have hmem := List.mem_of_getElem? ht
      obtain ⟨hauth, hbundles, hab, hbb⟩ := hs.saved h.named.names h.ids h.auth h.bundles
        (h.authBatch f hmem) (h.bundleBatch f hmem)
      refine ⟨hnamed, hids, hauth, hbundles, fun f'' hf => ?_, fun f'' hf => ?_⟩
      · rcases mem_set_cases hf with heq | hold
        · cases heq
          exact hab
        · exact h.authBatch f'' hold
      · rcases mem_set_cases hf with heq | hold
        · cases heq
          exact hbb
        · exact h.bundleBatch f'' hold

/-! ## Lives -/

variable [DecidableEq U]

/-- The relay in a life that began with `st`: the pasts of the lives before, newest first, and
    the past and the configuration of this one. -/
inductive RelayLives (C : Crates) :
    List (RelayPast U) → AppState → RelayPast U → RelayConfig U → Prop
  | created (e : OpenEvent) (st : AppState) (hopen : reopen e Disk.empty = .ok st) :
      RelayLives C [] st [] (started st)
  | moved (old : List (RelayPast U)) (st : AppState) (h : RelayPast U) (c c' : RelayConfig U)
      (mv : Move (RelayMove U)) (r : RelayLives C old st h c)
      (hn : (relayMachine C).next mv c = some c') : RelayLives C old st ((c, mv) :: h) c'
  | reopened (old : List (RelayPast U)) (st st' : AppState) (h : RelayPast U)
      (c : RelayConfig U) (e : OpenEvent) (r : RelayLives C old st h c)
      (hopen : reopen e c.shared.app.disk = .ok st') : RelayLives C (h :: old) st' [] (started st')

variable {C : Crates} {old : List (RelayPast U)} {st : AppState} {h : RelayPast U}
  {c : RelayConfig U}

/-- Every life is a run of the relay over a state it can be started over, and leaves a disk it
    can be started over. -/
theorem RelayLives.run (r : RelayLives C old st h c) :
    WellStarted U st ∧ Trace (relayMachine C) anyPast (started st) h c ∧ Saved c := by
  induction r with
  | created e st hopen =>
    obtain ⟨hst, hdisk⟩ := reopen_wellStarted (U := U) diskOk_empty hopen
    exact ⟨hst, .nil, saved_start hst (hdisk ▸ diskOk_empty)⟩
  | moved old st h c c' mv r hn ih =>
    exact ⟨ih.1, .snoc ih.2.1 trivial hn, (moved_of_next hn).saved ih.2.2⟩
  | reopened old st st' h c e r hopen ih =>
    obtain ⟨hst, hdisk⟩ := reopen_wellStarted ih.2.2.diskOk hopen
    exact ⟨hst, .nil, saved_start hst (hdisk ▸ ih.2.2.diskOk)⟩

/-- An envelope that the relay holds in a life was sent in it, or was there when it began. -/
theorem RelayLives.sent (r : RelayLives C old st h c) {env : StoredEnvelope U}
    (hp : Present env c) : (NameOk env.toId ∧ Queued env st.queues.envelopes) ∨
      ∃ b ∈ births h, b.env = env ∧
        AcceptedSend C b.place b.text env.toId env.envelopeType env.ciphertext h := by
  obtain ⟨hst, htrace, _⟩ := r.run
  have hb := Born.of_trace hst.keys hst.names hst.ids htrace
  refine (hb.present env hp).imp_right ?_
  rintro ⟨b, hmem, rfl⟩
  exact ⟨b, hmem, rfl, hb.accepted b hmem⟩

/-- The rows that a life begins with were sent in the lives before. -/
theorem RelayLives.rows (r : RelayLives C old st h c) {env : StoredEnvelope U}
    (hm : NameOk env.toId) (hq : Queued env st.queues.envelopes) :
    ∃ h' ∈ old, ∃ b ∈ births h', b.env = env ∧
      AcceptedSend C b.place b.text env.toId env.envelopeType env.ciphertext h' := by
  induction r with
  | created e st hopen =>
    obtain rfl := reopen_ok hopen
    obtain ⟨v, hv, _⟩ := hq
    cases hv
  | moved old st h c c' mv r hn ih => exact ih hq
  | reopened old st st' h c e r hopen ih =>
    obtain rfl := reopen_ok hopen
    rcases r.sent (.queued hm hq) with ⟨_, hq'⟩ | hb
    · obtain ⟨h', hmem, hsent⟩ := ih hq'
      exact ⟨h', List.mem_cons_of_mem _ hmem, hsent⟩
    · exact ⟨h, List.mem_cons_self, hb⟩

/-- Over any number of starts and crashes, an envelope that the relay holds or has delivered in
    the current life was sent to it, with this destination, type and ciphertext and a token that
    the destination accepted, in this life or in one before. -/
theorem envelopes_sent_in_some_life (r : RelayLives C old st h c) {env : StoredEnvelope U}
    (hp : Present env c) : ∃ h' ∈ h :: old, ∃ b ∈ births h', b.env = env ∧
      AcceptedSend C b.place b.text env.toId env.envelopeType env.ciphertext h' := by
  rcases r.sent hp with ⟨hm, hq⟩ | hb
  · obtain ⟨h', hmem, hsent⟩ := r.rows hm hq
    exact ⟨h', List.mem_cons_of_mem _ hmem, hsent⟩
  · exact ⟨h, List.mem_cons_self, hb⟩

end

/-! ## Two lives -/

theorem RelayLives.of_trace {U : Type} [UuidText U] [DecidableEq U] {C : Crates}
    {old : List (RelayPast U)} {st : AppState} {h : RelayPast U} {c : RelayConfig U}
    (r₀ : RelayLives C old st [] (started st))
    (r : Trace (relayMachine C) anyPast (started st) h c) : RelayLives C old st h c := by
  induction r with
  | nil => exact r₀
  | snoc _ _ hn ih => exact .moved _ _ _ _ _ _ ih hn

/-- Bob's envelope is committed, the relay crashes, and the next life holds it. -/
theorem envelopes_sent_in_some_life_sample : ∃ (h : RelayPast Nat) (st : AppState),
    RelayLives sampleCrates [h] st [] (started st) ∧ Present sampleEnvelope (started st) ∧
      ∃ h' ∈ [[], h], ∃ b ∈ births h', b.env = sampleEnvelope ∧
        AcceptedSend sampleCrates b.place b.text AppState.sampleRid "message" "hi" h' := by
  obtain ⟨st₀, hopen₀⟩ := reopen_plain 0 AppState.sampleLimits "" Disk.empty
  obtain rfl : st₀ = AppState.sampleState := reopen_ok hopen₀
  obtain ⟨h, c, r, hend⟩ := exists_trace (M := relayMachine sampleCrates) (G := anyPast)
    (c := started (U := Nat) AppState.sampleState) (bothOnline ++ handled 2 8 sampleSend)
    (p := fun r => decide ((r.2.shared.app.queues.envelopes.get (keyFor AppState.sampleRid 1)).map
      (toEnvelope AppState.sampleRid ⟨1, ·⟩) = some sampleEnvelope)) (by decide +kernel)
  obtain ⟨v, hv, henv⟩ := Option.map_eq_some_iff.mp (of_decide_eq_true hend)
  obtain ⟨st, hopen⟩ := reopen_plain 0 AppState.sampleLimits "" c.shared.app.disk
  have hlife := RelayLives.reopened [] AppState.sampleState st h c _
    (RelayLives.of_trace (.created _ _ hopen₀) r) hopen
  have hname : NameOk AppState.sampleRid := by decide
  have hpresent : Present sampleEnvelope (started st : RelayConfig Nat) := by
    obtain rfl := reopen_ok hopen
    exact .queued hname ⟨v, hv, henv⟩
  exact ⟨h, st, hlife, hpresent, envelopes_sent_in_some_life hlife hpresent⟩

end AxenoRelay
