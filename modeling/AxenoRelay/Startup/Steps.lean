/-
  What one operation of a starting process does.

  `Stage.Stepped` lists the operations, each with what it read; `stepped_of_step` is the
  inversion of `Stage.step`, and `boot_next` that of a move of the machine.
-/
import AxenoRelay.Startup.Basic
import AxenoRelay.QueueStore.Invariant

namespace AxenoRelay

open Interleave

/-- What the migration of a table does: an empty table gets the legacy entries. -/
def migrated {V : Type} (legacy : List (String × V)) (t : OrdMap String V) : OrdMap String V :=
  if t.entries.isEmpty then t.assignAll (legacy.map fun e => (e.1, some e.2)) else t

def migratedTables {U : Type} (disk : DiskState U) (t : MetaTables) : MetaTables :=
  { t with auth := migrated disk.mailboxAuth t.auth }

def migratedBundles {U : Type} (disk : DiskState U) (t : MetaTables) : MetaTables :=
  { t with bundles := migrated (disk.bundles.map fun b => (b.id, b)) t.bundles }

namespace Stage

variable {U : Type} [UuidText U]

omit [UuidText U] in
/-- Can the next operation end the process? A failed enqueue does not. -/
def mayFail : Stage U → Bool
  | queues _ _ _ | done _ _ | failed => false
  | _ => true

/-- The operations of a starting process. -/
inductive Stepped (C : KeyCrates) (env : SecretEnv) (e : StartEvent) :
    Stage U → Host U → Stage U → Host U → Prop
  | failed (s : Stage U) (h : Host U) (hf : s.mayFail = true) : Stepped C env e s h .failed h
  | loadNone (h : Host U) (hs : h.stateFile = none) : Stepped C env e load h (init .default) h
  | loadPlain (disk : DiskState U) (h : Host U) (hs : h.stateFile = some disk)
      (he : disk.encryptedCrypto = none) : Stepped C env e load h (init disk) h
  | loadSealed (disk : DiskState U) (blob : EncryptedCryptoBlob) (h : Host U)
      (hs : h.stateFile = some disk) (he : disk.encryptedCrypto = some blob) :
      Stepped C env e load h (resolve (.load disk blob)) h
  | resolved (p : Purpose U) (secret : String) (h : Host U)
      (hk : lookupKey env h.keyFile = .found secret) :
      Stepped C env e (resolve p) h (p.next secret) h
  | generate (p : Purpose U) (h : Host U) (hk : lookupKey env h.keyFile = .absent) :
      Stepped C env e (resolve p) h (keyOpen p (hexEncode e.raw.toList)) h
  | opened (p : Purpose U) (secret : String) (h : Host U) :
      Stepped C env e (keyOpen p secret) h (keyWrite p secret 0) { h with keyFile := some "" }
  | wrote (p : Purpose U) (secret : String) (w n : Nat) (h : Host U) :
      Stepped C env e (keyWrite p secret w) h (keyWrite p secret n)
        { h with keyFile := some (String.ofList (secret.toList.take n)) }
  | wroteAll (p : Purpose U) (secret : String) (w : Nat) (h : Host U) :
      Stepped C env e (keyWrite p secret w) h (keySync p secret)
        { h with keyFile := some secret }
  | synced (p : Purpose U) (secret : String) (h : Host U) :
      Stepped C env e (keySync p secret) h (p.next secret) h
  | decrypted (disk : DiskState U) (blob : EncryptedCryptoBlob) (secret : String)
      (crypto : DiskCrypto) (h : Host U) (hd : C.decrypt secret blob = some crypto) :
      Stepped C env e (decrypt disk blob secret) h (init { disk with crypto := some crypto }) h
  | kept (disk : DiskState U) (saved : DiskCrypto) (h : Host U)
      (hc : disk.crypto = some saved) : Stepped C env e (init disk) h (prune disk) h
  | generated (disk : DiskState U) (h : Host U) (hc : disk.crypto = none) :
      Stepped C env e (init disk) h (prune { disk with crypto := some e.keys }) h
  | pruned (disk : DiskState U) (h : Host U) :
      Stepped C env e (prune disk) h (openQueues (pruneDiskState e.now disk)) h
  | openedQueues (disk : DiskState U) (h : Host U) :
      Stepped C env e (openQueues disk) h (openMeta disk (QueueStore.ofTable h.envelopes)) h
  | openedMeta (disk : DiskState U) (st : QueueStore) (h : Host U) :
      Stepped C env e (openMeta disk st) h (openFiles disk st) h
  | openedFiles (disk : DiskState U) (st : QueueStore) (h : Host U) :
      Stepped C env e (openFiles disk st) h (queues disk disk.legacy st) h
  | enqueue (disk : DiskState U) (rid : RecipientId) (env' : StoredEnvelope U)
      (rest : List (RecipientId × StoredEnvelope U)) (st st' : QueueStore) (h : Host U)
      (hr : (QueueStore.enqueue e.now e.readFaults e.writeFaults rid env' st).2 = st') :
      Stepped C env e (queues disk ((rid, env') :: rest) st) h (queues disk rest st')
        { h with envelopes := st'.envelopes }
  | queuesDone (disk : DiskState U) (st : QueueStore) (h : Host U) :
      Stepped C env e (queues disk [] st) h (auth disk st) h
  | authDone (disk : DiskState U) (st : QueueStore) (h : Host U) :
      Stepped C env e (auth disk st) h (bundles disk st)
        { h with tables := migratedTables disk h.tables }
  | bundlesDone (disk : DiskState U) (crypto : DiskCrypto) (st : QueueStore) (h : Host U)
      (hc : disk.crypto = some crypto) :
      Stepped C env e (bundles disk st) h (resolve (.persist crypto st))
        { h with tables := migratedBundles disk h.tables }
  | encrypted (crypto : DiskCrypto) (st : QueueStore) (secret : String) (h : Host U) :
      Stepped C env e (encrypt crypto st secret) h
        (writeTmp (persistedState (encryptDiskCrypto C e crypto secret)) crypto st) h
  | wroteTmp (file : DiskState U) (crypto : DiskCrypto) (st : QueueStore) (h : Host U) :
      Stepped C env e (writeTmp file crypto st) h (rename file crypto st) h
  | renamed (file : DiskState U) (crypto : DiskCrypto) (st : QueueStore) (h : Host U) :
      Stepped C env e (rename file crypto st) h (done crypto st) { h with stateFile := some file }

/-! ## The transactions of the start -/

omit [UuidText U] in
theorem authIsEmpty_cases (fs : Faults) (t : MetaTables) :
    (∃ e, (MetaTables.authIsEmpty.commit fs t).1 = .error e) ∨
      (MetaTables.authIsEmpty.commit fs t).1 = .ok t.auth.entries.isEmpty := by
  have hsound : MetaTables.authIsEmpty.Sound :=
    Txn.sound_bind (Txn.sound_touch _) fun _ => Txn.sound_bind (Txn.sound_touch _) fun _ =>
      Txn.sound_bind (Txn.sound_read _ _) fun _ => Txn.sound_pure _
  rcases Txn.commit_cases (t := MetaTables.authIsEmpty) hsound rfl fs with ⟨e, he⟩ | he
  · exact Or.inl ⟨e, by rw [he]⟩
  · exact Or.inr (by rw [he]; rfl)

omit [UuidText U] in
theorem bundlesIsEmpty_cases (fs : Faults) (t : MetaTables) :
    (∃ e, (MetaTables.bundlesIsEmpty.commit fs t).1 = .error e) ∨
      (MetaTables.bundlesIsEmpty.commit fs t).1 = .ok t.bundles.entries.isEmpty := by
  have hsound : MetaTables.bundlesIsEmpty.Sound :=
    Txn.sound_bind (Txn.sound_touch _) fun _ => Txn.sound_bind (Txn.sound_touch _) fun _ =>
      Txn.sound_bind (Txn.sound_read _ _) fun _ => Txn.sound_pure _
  rcases Txn.commit_cases (t := MetaTables.bundlesIsEmpty) hsound rfl fs with ⟨e, he⟩ | he
  · exact Or.inl ⟨e, by rw [he]⟩
  · exact Or.inr (by rw [he]; rfl)

/-- The guard of a migration step: without it the batch has nothing to do. -/
theorem migrated_of_guard {V : Type} {legacy : List (String × V)} {t : OrdMap String V}
    (h : ¬(t.entries.isEmpty && !legacy.isEmpty) = true) : migrated legacy t = t := by
  unfold migrated
  split_ifs with ht
  · cases legacy with
    | nil => rfl
    | cons a l => exact absurd (by rw [ht]; rfl) h
  · rfl

theorem migrated_of_empty {V : Type} {legacy : List (String × V)} {t : OrdMap String V}
    (h : (t.entries.isEmpty && !legacy.isEmpty) = true) :
    migrated legacy t = t.assignAll (legacy.map fun e => (e.1, some e.2)) := by
  rw [Bool.and_eq_true] at h
  exact if_pos h.1

/-- Every step of a process is one of these. -/
theorem stepped_of_step {C : KeyCrates} {env : SecretEnv} {e : StartEvent} {s s' : Stage U}
    {h h' : Host U} (hstep : s.step C env e h = some (s', h')) : Stepped C env e s h s' h' := by
  cases s with
  | load =>
    simp only [step] at hstep
    split_ifs at hstep
    · cases hstep
      exact .failed _ _ rfl
    · cases hs : h.stateFile with
      | none =>
        rw [hs] at hstep
        cases hstep
        exact .loadNone _ hs
      | some disk =>
        rw [hs] at hstep
        cases he : disk.encryptedCrypto with
        | none =>
          simp only [he] at hstep
          cases hstep
          exact .loadPlain _ _ hs he
        | some blob =>
          simp only [he] at hstep
          cases hstep
          exact .loadSealed _ _ _ hs he
  | resolve p =>
    simp only [step] at hstep
    cases hk : lookupKey env h.keyFile with
    | found secret =>
      rw [hk] at hstep
      cases hstep
      exact .resolved _ _ _ hk
    | broken =>
      rw [hk] at hstep
      cases hstep
      exact .failed _ _ rfl
    | absent =>
      simp only [hk] at hstep
      split_ifs at hstep <;> cases hstep
      · exact .failed _ _ rfl
      · exact .generate _ _ hk
  | keyOpen p secret =>
    simp only [step] at hstep
    split_ifs at hstep <;> cases hstep
    · exact .failed _ _ rfl
    · exact .opened _ _ _
  | keyWrite p secret w =>
    simp only [step] at hstep
    split_ifs at hstep <;> cases hstep
    · exact .failed _ _ rfl
    · exact .wrote _ _ _ _ _
    · exact .wroteAll _ _ _ _
  | keySync p secret =>
    simp only [step] at hstep
    split_ifs at hstep <;> cases hstep
    · exact .failed _ _ rfl
    · exact .synced _ _ _
  | decrypt disk blob secret =>
    simp only [step] at hstep
    cases hd : C.decrypt secret blob with
    | none =>
      rw [hd] at hstep
      cases hstep
      exact .failed _ _ rfl
    | some crypto =>
      rw [hd] at hstep
      cases hstep
      exact .decrypted _ _ _ _ _ hd
  | init disk =>
    simp only [step] at hstep
    split_ifs at hstep
    · cases hstep
      exact .failed _ _ rfl
    · cases hc : disk.crypto with
      | none =>
        rw [hc] at hstep
        cases hstep
        exact .generated _ _ hc
      | some saved =>
        simp only [hc] at hstep
        split_ifs at hstep <;> cases hstep
        · exact .kept _ _ _ hc
        · exact .failed _ _ rfl
  | prune disk =>
    cases hstep
    exact .pruned _ _
  | openQueues disk =>
    simp only [step] at hstep
    rcases QueueStore.new_cases e.writeFaults h.envelopes with ⟨err, he⟩ | he
    · rw [he] at hstep
      cases hstep
      exact .failed _ _ rfl
    · rw [he] at hstep
      cases hstep
      exact .openedQueues _ _
  | openMeta disk st =>
    simp only [step] at hstep
    split at hstep <;> cases hstep
    · exact .failed _ _ rfl
    · exact .openedMeta _ _ _
  | openFiles disk st =>
    simp only [step] at hstep
    split_ifs at hstep <;> cases hstep
    · exact .failed _ _ rfl
    · exact .openedFiles _ _ _
  | queues disk rest st =>
    cases rest with
    | nil =>
      cases hstep
      exact .queuesDone _ _ _
    | cons x rest =>
      cases hstep
      exact .enqueue _ _ _ _ _ _ _ rfl
  | auth disk st =>
    simp only [step] at hstep
    rcases authIsEmpty_cases e.readFaults h.tables with ⟨err, he⟩ | he
    · rw [he] at hstep
      cases hstep
      exact .failed _ _ rfl
    · simp only [he] at hstep
      split_ifs at hstep with hguard
      · rcases writeBatch_cases (disk.mailboxAuth.map fun r => (r.1, some r.2)) e.writeFaults
          h.tables.auth with ⟨-, err, hw⟩ | ⟨-, hw⟩
        · simp only [MetaTables.flushAuth, hw] at hstep
          cases hstep
          exact .failed _ _ rfl
        · simp only [MetaTables.flushAuth, hw] at hstep
          cases hstep
          have hdone : Stepped C env e _ _ _ _ := .authDone disk st h
          rw [migratedTables, migrated_of_empty hguard] at hdone
          exact hdone
      · cases hstep
        have hdone : Stepped C env e _ _ _ _ := .authDone disk st h
        rw [migratedTables, migrated_of_guard hguard] at hdone
        exact hdone
  | bundles disk st =>
    simp only [step] at hstep
    rcases bundlesIsEmpty_cases e.readFaults h.tables with ⟨err, he⟩ | he
    · rw [he] at hstep
      cases hstep
      exact .failed _ _ rfl
    · simp only [he] at hstep
      cases hc : disk.crypto with
      | none =>
        rw [hc] at hstep
        cases hstep
        exact .failed _ _ rfl
      | some crypto =>
        simp only [hc] at hstep
        have hdone : Stepped C env e _ _ _ _ := .bundlesDone disk crypto st h hc
        split_ifs at hstep with hguard
        · rcases writeBatch_cases (disk.bundles.map fun b => (b.id, some b)) e.writeFaults
            h.tables.bundles with ⟨-, err, hw⟩ | ⟨-, hw⟩
          · simp only [MetaTables.flushBundles, hw] at hstep
            cases hstep
            exact .failed _ _ rfl
          · simp only [MetaTables.flushBundles, hw] at hstep
            cases hstep
            rw [migratedBundles, migrated_of_empty (by simpa using hguard), List.map_map] at hdone
            exact hdone
        · cases hstep
          rw [migratedBundles, migrated_of_guard (by simpa using hguard)] at hdone
          exact hdone
  | encrypt crypto st secret =>
    simp only [step] at hstep
    split_ifs at hstep <;> cases hstep
    · exact .failed _ _ rfl
    · exact .encrypted _ _ _ _
  | writeTmp file crypto st =>
    simp only [step] at hstep
    split_ifs at hstep <;> cases hstep
    · exact .failed _ _ rfl
    · exact .wroteTmp _ _ _ _
  | rename file crypto st =>
    simp only [step] at hstep
    split_ifs at hstep <;> cases hstep
    · exact .failed _ _ rfl
    · exact .renamed _ _ _ _
  | done crypto st => cases hstep
  | failed => cases hstep

end Stage

/-- A move starts a new process or is a step of the one there. -/
theorem boot_next {U : Type} [UuidText U] {C : KeyCrates} {env : SecretEnv} {c c' : BootConfig U}
    {m : Move BootMove} (hn : (bootMachine U C env).next m c = some c') :
    (m = .env .restart ∧ c' = ⟨⟨c.shared.host, .load⟩, c.pool⟩) ∨
      ∃ e s' h', m = .env (.step e) ∧
        c.shared.stage.step C env e c.shared.host = some (s', h') ∧
        c' = ⟨⟨h', s'⟩, c.pool⟩ := by
  cases m with
  | spawn e =>
    obtain ⟨t, s, hs, _⟩ := next_spawn hn
    cases hs
  | act i e =>
    obtain ⟨t, t', s, _, hs, _⟩ := next_act hn
    cases hs
  | env e =>
    obtain ⟨b, hb, rfl⟩ := next_env hn
    cases e with
    | restart =>
      cases hb
      exact Or.inl ⟨rfl, rfl⟩
    | step e =>
      obtain ⟨⟨s', h'⟩, hs, hb⟩ := Option.map_eq_some_iff.mp hb
      cases hb
      exact Or.inr ⟨e, s', h', rfl, hs, rfl⟩

end AxenoRelay
