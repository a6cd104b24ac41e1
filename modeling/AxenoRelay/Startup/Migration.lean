/-
  The migration of the legacy state.

  Up to the rename the state file is the legacy one, so every process carries what it holds
  (`Carried`): the records and envelopes, and the bundles not expired when it pruned. A
  migration step fills an empty table and leaves any other (`MetaAt`). A process works on
  the queue store it has opened over the table on disk (`InSync`).
-/
import AxenoRelay.Lib.Trace
import AxenoRelay.Startup.Identity

namespace AxenoRelay

open Interleave QueueStore

/-- The moves of the starts so far. -/
abbrev BootPast (U : Type) := Interleave.Past (Boot U) Empty BootMove

/-! ## What a process carries -/

section Carried

variable {U : Type}

/-- The records, envelopes and bundles are the same. -/
structure SameLegacy (disk d : DiskState U) : Prop where
  auth : d.mailboxAuth = disk.mailboxAuth
  queues : d.queues = disk.queues
  bundles : d.bundles = disk.bundles

/-- The clock of a move that prunes the state. -/
def pruneClock (p : BootConfig U × Move BootMove) : Option Nat :=
  match p.2, p.1.shared.stage with
  | .env (.step e), .prune _ => some e.now
  | _, _ => none

/-- The clocks of the prunes so far, the last one first. -/
def pruneClocks (h : BootPast U) : List Nat := h.filterMap pruneClock

/-- What a lookup of the secret keeps of the state file. -/
def Purpose.Carried (disk : DiskState U) : Purpose U → Prop
  | load d _ => SameLegacy disk d
  | persist _ _ => True

/-- What a process holds of the state file, which it pruned at a clock of `clocks`. -/
def Carried (disk : DiskState U) (clocks : List Nat) : Stage U → Prop
  | .resolve p | .keyOpen p _ | .keyWrite p _ _ | .keySync p _ => p.Carried disk
  | .decrypt d _ _ | .init d | .prune d => SameLegacy disk d
  | .openQueues d | .openMeta d _ | .openFiles d _ | .auth d _ | .bundles d _ =>
    ∃ now ∈ clocks, SameLegacy (pruneDiskState now disk) d
  | .queues d rest _ => rest <:+ disk.legacy ∧
    ∃ now ∈ clocks, SameLegacy (pruneDiskState now disk) d
  | _ => True

theorem SameLegacy.legacy {disk d : DiskState U} (h : SameLegacy disk d) :
    d.legacy = disk.legacy := by
  unfold DiskState.legacy
  rw [h.queues]

theorem Purpose.Carried.next {disk : DiskState U} {clocks : List Nat} {secret : String}
    {p : Purpose U} (h : p.Carried disk) : AxenoRelay.Carried disk clocks (p.next secret) := by
  cases p with
  | load d blob => exact h
  | persist crypto st => trivial

theorem Carried.mono {disk : DiskState U} {clocks clocks' : List Nat} (hsub : clocks ⊆ clocks')
    {s : Stage U} (h : Carried disk clocks s) : Carried disk clocks' s := by
  cases s with
  | openQueues | openMeta | openFiles | auth | bundles =>
    obtain ⟨now, hnow, hd⟩ := h
    exact ⟨now, hsub hnow, hd⟩
  | queues =>
    obtain ⟨hrest, now, hnow, hd⟩ := h
    exact ⟨hrest, now, hsub hnow, hd⟩
  | _ => exact h

end Carried

section Steps

variable {U : Type} [UuidText U]

theorem carried_stepped {C : KeyCrates} {env : SecretEnv} {e : StartEvent} {disk : DiskState U}
    {s s' : Stage U} {h h' : Host U} (hs : s.Stepped C env e h s' h')
    (hfile : h.stateFile = some disk) {clocks : List Nat} (hc : Carried disk clocks s)
    (hprune : ∀ d, s = .prune d → e.now ∈ clocks) : Carried disk clocks s' := by
  have same : ∀ {d d' : DiskState U}, SameLegacy disk d → d'.mailboxAuth = d.mailboxAuth →
      d'.queues = d.queues → d'.bundles = d.bundles → SameLegacy disk d' :=
    fun h h1 h2 h3 => ⟨h1.trans h.auth, h2.trans h.queues, h3.trans h.bundles⟩
  cases hs with
  | loadNone h hnone =>
    rw [hfile] at hnone
    cases hnone
  | loadPlain d h hd he =>
    rw [hfile] at hd
    cases hd
    exact ⟨rfl, rfl, rfl⟩
  | loadSealed d blob h hd he =>
    rw [hfile] at hd
    cases hd
    exact ⟨rfl, rfl, rfl⟩
  | resolved | synced => exact Purpose.Carried.next hc
  | generate | opened | wrote | wroteAll => exact hc
  | decrypted d blob secret crypto h hd => exact same hc rfl rfl rfl
  | kept d saved h hk => exact hc
  | generated d h hk => exact same hc rfl rfl rfl
  | pruned d h =>
    have hd : SameLegacy disk d := hc
    refine ⟨e.now, hprune d rfl, ?_, hd.queues, ?_⟩
    · exact congrArg (List.map _) hd.auth
    · exact congrArg (List.filter _) hd.bundles
  | openedFiles d st h =>
    obtain ⟨now, hnow, hd⟩ := hc
    refine ⟨?_, now, hnow, hd⟩
    rw [hd.legacy]
    exact List.suffix_refl _
  | enqueue d rid env' rest st st' h hr =>
    obtain ⟨hrest, hd⟩ := hc
    exact ⟨(List.suffix_cons _ _).trans hrest, hd⟩
  | queuesDone d st h => exact hc.2
  | openedQueues | openedMeta | authDone => exact hc
  | _ => trivial

/-! ## The two tables -/

/-- Is the process past the migration of AUTH? -/
def Stage.pastAuth : Stage U → Bool
  | .bundles _ _ | .resolve (.persist _ _) | .keyOpen (.persist _ _) _
  | .keyWrite (.persist _ _) _ _ | .keySync (.persist _ _) _ | .encrypt _ _ _ | .writeTmp _ _ _
  | .rename _ _ _ | .done _ _ => true
  | _ => false

/-- Is the process past the migration of BUNDLES? -/
def Stage.pastBundles : Stage U → Bool
  | .bundles _ _ => false
  | s => s.pastAuth

/-- The records of the legacy state, each with its tokens listed. -/
def DiskState.records (disk : DiskState U) : List (RecipientId × MailboxAuth) :=
  disk.mailboxAuth.map fun e => (e.1, listToken e.2)

/-- The bundles of the legacy state that a process started at `now` keeps, under their ids. -/
def DiskState.unexpired (now : Nat) (disk : DiskState U) : List (String × HostedBundle) :=
  (disk.bundles.filter fun b => now < b.expiresAtMs).map fun b => (b.id, b)

omit [UuidText U] in
theorem get_of_isEmpty {V : Type} {t : OrdMap String V} (h : t.entries.isEmpty = true)
    (k : String) : t.get k = none := by
  rw [Option.eq_none_iff_forall_ne_some]
  intro v hv
  have hmem := OrdMap.get_eq_some_iff.mp hv
  rw [List.isEmpty_iff.mp h] at hmem
  cases hmem

omit [UuidText U] in
/-- A second migration does nothing, or what it would have done as the first. -/
theorem migrated_migrated {V : Type} (l l' : List (String × V)) (t : OrdMap String V) :
    migrated l' (migrated l t) = migrated l t ∨ migrated l' (migrated l t) = migrated l' t := by
  by_cases hmid : (migrated l t).entries.isEmpty = true
  · right
    have hsame : migrated l t = t := by
      by_cases ht : t.entries.isEmpty = true
      · refine OrdMap.ext_get fun k => ?_
        rw [get_of_isEmpty hmid, get_of_isEmpty ht]
      · unfold migrated
        rw [if_neg ht]
    rw [hsame]
  · left
    exact if_neg hmid

/-- The tables on the way: as they were at first, or migrated. -/
structure MetaAt (disk : DiskState U) (t₀ : MetaTables) (h : BootPast U) (b : Boot U) :
    Prop where
  file : (∀ K st, b.stage ≠ .done K st) → b.host.stateFile = some disk
  carried : Carried disk (pruneClocks h) b.stage
  auth : b.host.tables.auth = t₀.auth ∨ b.host.tables.auth = migrated disk.records t₀.auth
  authDone : b.stage.pastAuth = true → b.host.tables.auth = migrated disk.records t₀.auth
  bundles : b.host.tables.bundles = t₀.bundles ∨ ∃ now ∈ pruneClocks h,
    b.host.tables.bundles = migrated (disk.unexpired now) t₀.bundles
  bundlesDone : b.stage.pastBundles = true → ∃ now ∈ pruneClocks h,
    b.host.tables.bundles = migrated (disk.unexpired now) t₀.bundles

/-- Starts up to the first process that ends well. -/
def UpToFirst (_ : BootPast U) (c : BootConfig U) (m : Move BootMove) : Prop :=
  m = .env .restart → c.shared.stage.running = none

instance : ∀ (h : BootPast U) (c : BootConfig U) (m : Move BootMove),
    Decidable (UpToFirst h c m)
  | _, c, .env .restart =>
    if hr : c.shared.stage.running = none then isTrue fun _ => hr else isFalse fun h => hr (h rfl)
  | _, _, .env (.step _) => isTrue nofun
  | _, _, .spawn _ => isTrue nofun
  | _, _, .act _ _ => isTrue nofun

/-- No process after the first. -/
def OneProcess (_ : BootPast U) (_ : BootConfig U) (m : Move BootMove) : Prop :=
  m ≠ .env .restart

instance : ∀ (h : BootPast U) (c : BootConfig U) (m : Move BootMove),
    Decidable (OneProcess h c m)
  | _, _, .env .restart => isFalse fun h => h rfl
  | _, _, .env (.step _) => isTrue nofun
  | _, _, .spawn _ => isTrue nofun
  | _, _, .act _ _ => isTrue nofun

omit [UuidText U] in
theorem pruneClocks_subset (p : BootConfig U × Move BootMove) (h : BootPast U) :
    pruneClocks h ⊆ pruneClocks (p :: h) := by
  intro now hnow
  obtain ⟨q, hq, hnow⟩ := List.mem_filterMap.mp hnow
  exact List.mem_filterMap.mpr ⟨q, List.mem_cons_of_mem _ hq, hnow⟩

/-- A step leaves the tables as they are, or migrates one of them. -/
theorem tables_stepped {C : KeyCrates} {env : SecretEnv} {e : StartEvent} {s s' : Stage U}
    {h h' : Host U} (hs : s.Stepped C env e h s' h') :
    (h'.tables = h.tables ∧ (s'.pastAuth = true → s.pastAuth = true) ∧
      (s'.pastBundles = true → s.pastBundles = true)) ∨
    (∃ d st, s = .auth d st ∧ s' = .bundles d st ∧ h'.tables = migratedTables d h.tables) ∨
    ∃ d crypto st, s = .bundles d st ∧ s' = .resolve (.persist crypto st) ∧
      h'.tables = migratedBundles d h.tables := by
  cases hs with
  | authDone d st h => exact Or.inr (Or.inl ⟨d, st, rfl, rfl, rfl⟩)
  | bundlesDone d crypto st h hc => exact Or.inr (Or.inr ⟨d, crypto, st, rfl, rfl, rfl⟩)
  | resolved p | generate p | opened p | wrote p | wroteAll p | synced p =>
    left
    cases p <;> exact ⟨rfl, id, id⟩
  | kept d saved h hc =>
    left
    exact ⟨rfl, id, id⟩
  | _ =>
    left
    refine ⟨rfl, ?_, ?_⟩ <;> intro hp <;> first | exact hp | cases hp

/-- Only the rename replaces the state file. -/
theorem stateFile_of_not_done {C : KeyCrates} {env : SecretEnv} {e : StartEvent} {s s' : Stage U}
    {h h' : Host U} (hs : s.Stepped C env e h s' h') (hd : ∀ K st, s' ≠ .done K st) :
    h'.stateFile = h.stateFile := by
  cases hs with
  | renamed file crypto st h => exact absurd rfl (hd crypto st)
  | _ => rfl

theorem metaAt_step {C : KeyCrates} {env : SecretEnv} {disk : DiskState U} {t₀ : MetaTables}
    {h : BootPast U} {c c' : BootConfig U} {m : Move BootMove}
    (hm : MetaAt disk t₀ h c.shared) (hg : UpToFirst h c m)
    (hn : (bootMachine U C env).next m c = some c') : MetaAt disk t₀ ((c, m) :: h) c'.shared := by
  have hsub := pruneClocks_subset (c, m) h
  have hbundles : ∀ {t : OrdMap String HostedBundle}, (∃ now ∈ pruneClocks h,
      t = migrated (disk.unexpired now) t₀.bundles) → ∃ now ∈ pruneClocks ((c, m) :: h),
      t = migrated (disk.unexpired now) t₀.bundles :=
    fun ⟨now, hnow, ht⟩ => ⟨now, hsub hnow, ht⟩
  rcases boot_next hn with ⟨rfl, rfl⟩ | ⟨e, s', h', rfl, hs, rfl⟩
  · have hrun := hg rfl
    have hlive : ∀ K st, c.shared.stage ≠ .done K st := by
      intro K st hd
      rw [hd] at hrun
      cases hrun
    exact ⟨fun _ => hm.file hlive, trivial, hm.auth, fun hp => (Bool.false_ne_true hp).elim,
      hm.bundles.imp_right hbundles, fun hp => (Bool.false_ne_true hp).elim⟩
  · have hlive : ∀ K st, c.shared.stage ≠ .done K st := by
      intro K st hd
      rw [hd] at hs
      cases hs
    have hs := Stage.stepped_of_step hs
    have hfile := hm.file hlive
    have hprune : ∀ d, c.shared.stage = .prune d →
        e.now ∈ pruneClocks ((c, .env (.step e)) :: h) := by
      intro d hd
      refine List.mem_filterMap.mpr ⟨_, List.mem_cons_self, ?_⟩
      simp only [pruneClock, hd]
    have hcarried := carried_stepped hs hfile (hm.carried.mono hsub) hprune
    have hfile' : (∀ K st, s' ≠ .done K st) → h'.stateFile = some disk := by
      intro hd
      rw [stateFile_of_not_done hs hd]
      exact hfile
    rcases tables_stepped hs with ⟨ht, ha, hb⟩ | ⟨d, st, hs0, rfl, ht⟩ |
      ⟨d, crypto, st, hs0, rfl, ht⟩
    · refine ⟨hfile', hcarried, ?_, ?_, ?_, ?_⟩ <;> rw [ht]
      · exact hm.auth
      · exact fun hp => hm.authDone (ha hp)
      · exact hm.bundles.imp_right hbundles
      · exact fun hp => hbundles (hm.bundlesDone (hb hp))
    · have hd := hm.carried
      rw [hs0] at hd
      obtain ⟨now, _, hd⟩ := hd
      have hauth : h'.tables.auth = migrated disk.records t₀.auth := by
        have hrecords : d.mailboxAuth = disk.records := hd.auth
        rw [ht, migratedTables, hrecords]
        rcases hm.auth with h0 | h1
        · rw [h0]
        · rw [h1]
          rcases migrated_migrated disk.records disk.records t₀.auth with hmm | hmm <;> exact hmm
      refine ⟨hfile', hcarried, Or.inr hauth, fun _ => hauth, ?_, fun hp => ?_⟩
      · rw [ht]
        exact hm.bundles.imp_right hbundles
      · cases hp
    · have hd := hm.carried
      have hauth := hm.authDone (by rw [hs0]; rfl)
      rw [hs0] at hd
      obtain ⟨now, hnow, hd⟩ := hd
      have hdone : ∃ now ∈ pruneClocks ((c, .env (.step e)) :: h),
          h'.tables.bundles = migrated (disk.unexpired now) t₀.bundles := by
        have hkept : (d.bundles.map fun b => (b.id, b)) = disk.unexpired now :=
          congrArg (List.map _) hd.bundles
        rw [ht, migratedBundles, hkept]
        rcases hm.bundles with h0 | ⟨now', hnow', h1⟩
        · exact ⟨now, hsub hnow, by rw [h0]⟩
        · rw [h1]
          rcases migrated_migrated (disk.unexpired now') (disk.unexpired now) t₀.bundles with
            hmm | hmm
          · exact ⟨now', hsub hnow', hmm⟩
          · exact ⟨now, hsub hnow, hmm⟩
      refine ⟨hfile', hcarried, ?_, ?_, Or.inr hdone, fun _ => hdone⟩
      · rw [ht]
        exact Or.inr hauth
      · rw [ht]
        exact fun _ => hauth

omit [UuidText U] in
theorem metaAt_start {disk : DiskState U} {host : Host U} (hfile : host.stateFile = some disk) :
    MetaAt disk host.tables [] (firstBoot host).shared :=
  ⟨fun _ => hfile, trivial, Or.inl rfl, fun hp => (Bool.false_ne_true hp).elim, Or.inl rfl,
    fun hp => (Bool.false_ne_true hp).elim⟩

/-! ## The queues -/

/-- The opened queue store of a process. -/
def Stage.store : Stage U → Option QueueStore
  | .openMeta _ st | .openFiles _ st | .queues _ _ st | .auth _ st | .bundles _ st
  | .resolve (.persist _ st) | .keyOpen (.persist _ st) _ | .keyWrite (.persist _ st) _ _
  | .keySync (.persist _ st) _ | .encrypt _ st _ | .writeTmp _ _ st | .rename _ _ st
  | .done _ st => some st
  | _ => none

/-- The store a process has open is over the table on disk. -/
def InSync (b : Boot U) : Prop := ∀ st, b.stage.store = some st → st.envelopes = b.host.envelopes

/-- The call of `enqueue` for a legacy envelope. -/
def enqueueCall (e : StartEvent) (x : RecipientId × StoredEnvelope U) (st : QueueStore) :
    Except DbError Nat × QueueStore :=
  QueueStore.enqueue e.now e.readFaults e.writeFaults x.1 x.2 st

/-- The enqueue that a move is: its event, the envelope, and the store before it. -/
def enqueuing (p : BootConfig U × Move BootMove) :
    Option (StartEvent × (RecipientId × StoredEnvelope U) × QueueStore) :=
  match p.2, p.1.shared.stage with
  | .env (.step e), .queues _ (x :: _) st => some (e, x, st)
  | _, _ => none

/-- A call of `enqueue` fails and leaves the table, or puts the envelope in place of others of
    its mailbox. -/
theorem enqueueCall_cases (e : StartEvent) (x : RecipientId × StoredEnvelope U)
    (st : QueueStore) :
    ((enqueueCall e x st).1.isOk = false ∧ (enqueueCall e x st).2.envelopes = st.envelopes) ∨
      ((enqueueCall e x st).1.isOk = true ∧ ∃ ids : List U,
        (enqueueCall e x st).2.envelopes =
          enqueueTable x.1 x.2.id (storedValue e.now st.nextSeq x.2) ids st.envelopes) := by
  unfold enqueueCall QueueStore.enqueue
  dsimp only
  cases selectVictims U e.readFaults x.1 (len x.2.ciphertext) st.takeSeq.2 with
  | error err => exact Or.inl ⟨rfl, rfl⟩
  | ok r =>
    obtain ⟨ids, b⟩ := r
    dsimp only
    rcases enqueueTxn_cases x.1 x.2.id (storedValue e.now st.takeSeq.1 x.2) ids e.writeFaults
      st.takeSeq.2.envelopes with ⟨err, he⟩ | he
    · rw [he]
      exact Or.inl ⟨rfl, rfl⟩
    · rw [he]
      exact Or.inr ⟨rfl, ids, rfl⟩

/-- A step keeps the store of the process over the table on disk. -/
theorem inSync_stepped {C : KeyCrates} {env : SecretEnv} {e : StartEvent} {s s' : Stage U}
    {h h' : Host U} (hs : s.Stepped C env e h s' h') (hb : InSync ⟨h, s⟩) : InSync ⟨h', s'⟩ := by
  cases hs with
  | openedQueues d h =>
    intro st hst
    cases hst
    rfl
  | enqueue d rid env' rest st st' h hr =>
    intro st hst
    cases hst
    rfl
  | resolved p | generate p | opened p | wrote p | wroteAll p | synced p => cases p <;> exact hb
  | _ =>
    intro st hst
    first
      | exact hb st hst
      | cases hst

theorem inSync_next {C : KeyCrates} {env : SecretEnv} {c c' : BootConfig U} {m : Move BootMove}
    (hb : InSync c.shared) (hn : (bootMachine U C env).next m c = some c') :
    InSync c'.shared := by
  rcases boot_next hn with ⟨rfl, rfl⟩ | ⟨e, s', h', rfl, hs, rfl⟩
  · intro st hst
    cases hst
  · exact inSync_stepped (Stage.stepped_of_step hs) hb

/-- The envelopes a process has yet to enqueue. -/
def Stage.waiting (legacy : List (RecipientId × StoredEnvelope U)) : Stage U →
    List (RecipientId × StoredEnvelope U)
  | .queues _ rest _ => rest
  | .auth _ _ => []
  | s => if s.pastAuth then [] else legacy

/-- A move is a call of `enqueue`, or leaves the table: then a process starts, or fails, or
    goes on with the same envelopes waiting, with its store or with one it opens. -/
theorem migration_next {C : KeyCrates} {env : SecretEnv} {disk : DiskState U} {clocks : List Nat}
    {c c' : BootConfig U} {m : Move BootMove} (hb : InSync c.shared)
    (hc : Carried disk clocks c.shared.stage) (hn : (bootMachine U C env).next m c = some c') :
    (enqueuing (c, m) = none ∧ c'.shared.host.envelopes = c.shared.host.envelopes ∧
      (m = .env .restart ∧ c'.shared.stage = .load ∨ c'.shared.stage = .failed ∨
        m ≠ .env .restart ∧
        c'.shared.stage.waiting disk.legacy = c.shared.stage.waiting disk.legacy ∧
        (c'.shared.stage.store = c.shared.stage.store ∨ c.shared.stage.store = none ∧
          c'.shared.stage.store = some (QueueStore.ofTable c.shared.host.envelopes)))) ∨
    ∃ e d x rest st, enqueuing (c, m) = some (e, x, st) ∧
      c.shared.stage = .queues d (x :: rest) st ∧
      c'.shared.stage = .queues d rest (enqueueCall e x st).2 ∧
      c'.shared.host.envelopes = (enqueueCall e x st).2.envelopes := by
  obtain ⟨⟨host, s⟩, pool⟩ := c
  rcases boot_next hn with ⟨rfl, rfl⟩ | ⟨e, s', h', rfl, hs, rfl⟩
  · exact Or.inl ⟨rfl, rfl, Or.inl ⟨rfl, rfl⟩⟩
  · cases Stage.stepped_of_step hs with
    | enqueue d rid env' rest st st' _ hr =>
      refine Or.inr ⟨e, d, (rid, env'), rest, st, rfl, rfl, ?_, ?_⟩ <;> rw [← hr] <;> rfl
    | failed _ _ hf =>
      left
      refine ⟨?_, rfl, Or.inr (Or.inl rfl)⟩
      cases s with
      | queues => cases hf
      | _ => rfl
    | openedFiles d st h =>
      obtain ⟨now, _, hd⟩ := hc
      refine Or.inl ⟨rfl, rfl, Or.inr (Or.inr ⟨nofun, ?_, Or.inl rfl⟩)⟩
      exact hd.legacy
    | openedQueues d h =>
      exact Or.inl ⟨rfl, rfl, Or.inr (Or.inr ⟨nofun, rfl, Or.inr ⟨rfl, rfl⟩⟩)⟩
    | resolved p | generate p | opened p | wrote p | wroteAll p | synced p =>
      cases p <;> exact Or.inl ⟨rfl, rfl, Or.inr (Or.inr ⟨nofun, rfl, Or.inl rfl⟩)⟩
    | _ => exact Or.inl ⟨rfl, rfl, Or.inr (Or.inr ⟨nofun, rfl, Or.inl rfl⟩)⟩

end Steps

/-! ## A legacy state to run on -/

/-- A legacy state with one envelope, one record and one bundle. -/
def legacyDisk : DiskState SampleUuid :=
  { crypto := none
    encryptedCrypto := none
    mailboxAuth := [("alice", ⟨"r", "d", [], 0⟩)]
    queues := [("alice", [⟨.u1, "alice", "Msg", "c"⟩])]
    bundles := [⟨"b", "c", 0, 9⟩] }

def legacyHost : Host SampleUuid := { newHost with stateFile := some legacyDisk }

/-- The steps of a start on it; the write of the enqueue runs under `faults`. -/
def legacyStart (faults : Faults) : List (Move BootMove) :=
  List.replicate 6 (.env (.step (sampleStart oneKey))) ++
    .env (.step { sampleStart oneKey with writeFaults := faults }) ::
      List.replicate 10 (.env (.step (sampleStart oneKey)))

end AxenoRelay
