/-
  The cap on mailboxes.

  `mailbox_count` is the number of records in `mailbox_auth` and of those that a
  retirement or a collection has removed and not yet taken off the counter
  (`MailboxesCounted`). A Hello reserves its slot and inserts its record while it holds
  the lock of the entry, so the two are one step here. Each removal owes exactly one
  `fetch_sub`, whoever registers the mailbox in between, so the counter never wraps and
  never passes the cap (`mailbox_cap`).
-/
import AxenoRelay.Ws.Moves
import AxenoRelay.Meta.Owed

namespace AxenoRelay

open Interleave

/-! ## The state `build` makes -/

theorem AppState.build_sound (now : Nat) (queues : QueueStore) (files : FileStore)
    (cfg : FileConfig) (trustRoot : String) : (build now queues files cfg trustRoot).Sound := by
  unfold build MetaTables.loadAllAuth MetaTables.loadAllBundles
  refine Txn.sound_bind ?_ fun _ => Txn.sound_bind ?_ fun _ =>
    Txn.sound_bind (Txn.sound_read _ _) fun _ => Txn.sound_pure _
  · exact Txn.sound_bind (Txn.sound_touch _) fun _ => Txn.sound_bind (Txn.sound_touch _) fun _ =>
      Txn.sound_bind (Txn.sound_read _ _) fun _ =>
        Txn.sound_bind (Txn.sound_each (fun _ => Txn.sound_touch _) _) fun _ => Txn.sound_pure _
  · exact Txn.sound_bind (Txn.sound_touch _) fun _ => Txn.sound_bind (Txn.sound_touch _) fun _ =>
      Txn.sound_bind (Txn.sound_read _ _) fun _ =>
        Txn.sound_bind (Txn.sound_each (fun _ => Txn.sound_touch _) _) fun _ => Txn.sound_pure _

/-- A build that succeeds made its state of what the tables hold. -/
theorem AppState.build_ok {now : Nat} {queues : QueueStore} {files : FileStore} {cfg : FileConfig}
    {trustRoot : String} {fs : Faults} {t t' : MetaTables} {st : AppState}
    (h : (build now queues files cfg trustRoot).commit fs t = (.ok st, t')) :
    st = ofLoaded now t.auth.entries (t.bundles.entries.map Prod.snd) t queues files cfg
      trustRoot := by
  have hrun : build now queues files cfg trustRoot t [] = .ok (ofLoaded now t.auth.entries
      (t.bundles.entries.map Prod.snd) t queues files cfg trustRoot, t, []) := by
    simp only [build, Txn.bind_run, MetaTables.loadAllAuth_run, MetaTables.loadAllBundles_run]
    rfl
  rcases Txn.commit_cases (build_sound now queues files cfg trustRoot) hrun fs with ⟨e, he⟩ | hok
  · rw [he] at h
    cases h
  · rw [hok] at h
    cases h
    rfl

/-! ## One step -/

section

variable {U : Type} [UuidText U] {C : Crates}

/-- A Hello that registers its mailbox found a free slot. -/
theorem SocketPc.helloEntry_count {now : Nat} {rid auth delivery : String} {pow : Option String}
    {st st' : AppState} (h : helloEntry C now rid auth delivery pow st = .ok st') :
    st'.mailboxCount = st.mailboxCount ∨
      st.mailboxCount < maxMailboxes ∧ st'.mailboxCount = st.mailboxCount + 1 := by
  unfold helloEntry at h
  cases hget : st.mailboxAuth.get rid with
  | some a =>
    simp only [hget] at h
    split_ifs at h
    cases h
    exact Or.inl rfl
  | none =>
    simp only [hget, AppState.reserveMailboxSlot] at h
    split_ifs at h with hpow hfull
    cases h
    exact Or.inr ⟨Nat.lt_of_not_le hfull, rfl⟩

theorem SocketPc.Stepped.count_cases {e : RelayEvent U} {s s' : Socket} {pc pc' : SocketPc U}
    {w w' : Relay U} (hs : SocketPc.Stepped C e s pc w s' pc' w') :
    w'.app.mailboxCount = w.app.mailboxCount ∨
      (w.app.mailboxCount < maxMailboxes ∧ w'.app.mailboxCount = w.app.mailboxCount + 1) ∨
      pc.owesCount = 1 ∧ w'.app.mailboxCount = fetchSubOne w.app.mailboxCount := by
  cases hs
  case said => exact Or.inl (by rw [Relay.say_app])
  case helloOk => exact Or.inl (by rw [Relay.say_app])
  case pruned hp => cases PruneTask.stepped_of_step hp <;> exact Or.inl rfl
  case hello hentry _ =>
    rcases SocketPc.helloEntry_count hentry with h | h
    · exact Or.inl h
    · exact Or.inr (Or.inl h)
  case retireCount => exact Or.inr (Or.inr ⟨rfl, rfl⟩)
  all_goals exact Or.inl rfl

/-- `mailbox_count` stays, takes a free slot, or gives back the one the task owes. -/
theorem RelayTask.Stepped.count_cases {e : RelayEvent U} {t t' : RelayTask U} {w w' : Relay U}
    (hs : t.Stepped C e w t' w') :
    w'.app.mailboxCount = w.app.mailboxCount ∨
      (w.app.mailboxCount < maxMailboxes ∧ w'.app.mailboxCount = w.app.mailboxCount + 1) ∨
      t.owesCount = 1 ∧ w'.app.mailboxCount = fetchSubOne w.app.mailboxCount := by
  cases hs with
  | socket s s' pc pc' w w' h => exact h.count_cases
  | flush f f' st w h => cases h <;> exact Or.inl rfl
  | gc g g' st w h =>
    cases h
    case count => exact Or.inr (Or.inr ⟨rfl, rfl⟩)
    all_goals exact Or.inl rfl
  | sweepQueues | sweepFiles => exact Or.inl rfl

theorem RelayTask.Stepped.countStep {e : RelayEvent U} {t t' : RelayTask U} {w w' : Relay U}
    (hs : t.Stepped C e w t' w') (h : t.owesCount ≤ w.app.mailboxCount) :
    w'.app.mailboxCount + w.app.mailboxAuth.size + t.owesCount =
      w.app.mailboxCount + w'.app.mailboxAuth.size + t'.owesCount := by
  cases hs with
  | socket s s' pc pc' w w' hs => exact hs.countStep h
  | flush f f' st w hs => cases hs <;> rfl
  | gc g g' st w hs => exact hs.countStep h
  | sweepQueues | sweepFiles => rfl

end

/-! ## Runs -/

section

variable {U : Type}

/-- The counter counts the records and the removals not yet counted off, within the cap. -/
structure MailboxesCounted (c : RelayConfig U) : Prop where
  count : c.shared.app.mailboxCount =
    c.shared.app.mailboxAuth.size + c.total RelayTask.owesCount
  cap : c.shared.app.mailboxCount ≤ maxMailboxes

theorem MailboxesCounted.owes {c : RelayConfig U} (h : MailboxesCounted c) {t : RelayTask U}
    (ht : t ∈ c.pool) : t.owesCount ≤ c.shared.app.mailboxCount := by
  have hle := le_total (w := RelayTask.owesCount) ht
  have hcount := h.count
  omega

theorem mailboxesCounted_start {now : Nat} {queues : QueueStore} {files : FileStore}
    {cfg : FileConfig} {root : String} {fs : Faults} {t t' : MetaTables} {st : AppState}
    (hbuild : (AppState.build now queues files cfg root).commit fs t = (.ok st, t'))
    (hmax : t.auth.size ≤ maxMailboxes) : MailboxesCounted (started st : RelayConfig U) := by
  rw [AppState.build_ok hbuild]
  refine ⟨rfl, ?_⟩
  refine (OrdMap.size_collect_le _).trans ?_
  rw [List.length_map]
  exact hmax

theorem MailboxesCounted.step [UuidText U] {C : Crates} {c c' : RelayConfig U}
    {m : Move (RelayMove U)} (h : MailboxesCounted c) (hm : Moved C c m c') :
    MailboxesCounted c' := by
  cases hm with
  | spawned ev t c w hs =>
    obtain ⟨n, happ⟩ := hs.app
    have howes : t.owesCount = 0 := by cases hs <;> rfl
    constructor
    · dsimp only
      rw [happ, total_spawn, howes, Nat.add_zero]
      exact h.count
    · dsimp only
      rw [happ]
      exact h.cap
  | wrote ev c w hs =>
    have happ := hs.app
    constructor
    · dsimp only
      rw [happ]
      exact h.count
    · dsimp only
      rw [happ]
      exact h.cap
  | stepped i e t t' c w ht hs =>
    have howes := h.owes (List.mem_of_getElem? ht)
    have hcount := h.count
    have hcap := h.cap
    have hstep := hs.countStep howes
    have htotal := total_act RelayTask.owesCount (u := t') (s := w) ht
    constructor
    · dsimp only
      omega
    · dsimp only
      rcases hs.count_cases with hsame | ⟨hfree, hadd⟩ | ⟨hone, hsub⟩
      · omega
      · omega
      · rw [hsub, fetchSubOne, if_neg (by omega)]
        omega

/-- **The mailbox cap.** The counter is never below the number of records nor above the cap,
    no `fetch_sub` finds it at 0, and it is exact whenever only flushes are in flight. -/
theorem mailbox_cap [UuidText U] [DecidableEq U] {C : Crates} {now : Nat} {queues : QueueStore}
    {files : FileStore} {cfg : FileConfig} {root : String} {fs : Faults} {t t' : MetaTables}
    {st : AppState} {c : RelayConfig U}
    (hbuild : (AppState.build now queues files cfg root).commit fs t = (.ok st, t'))
    (hmax : t.auth.size ≤ maxMailboxes) (r : Run (relayMachine C) anyMove (started st) c) :
    c.shared.app.mailboxAuth.size ≤ c.shared.app.mailboxCount ∧
      c.shared.app.mailboxCount ≤ maxMailboxes ∧
      (∀ u ∈ c.pool, u.owesCount = 1 → 1 ≤ c.shared.app.mailboxCount) ∧
      ((∀ u ∈ c.pool, u.resting = true ∨ u.isFlush = true) →
        c.shared.app.mailboxCount = c.shared.app.mailboxAuth.size) := by
  have h : MailboxesCounted c := r.invariant (mailboxesCounted_start hbuild hmax)
    fun c m c' h _ hn => h.step (moved_of_next hn)
  have hcount := h.count
  refine ⟨by omega, h.cap, fun u hu hone => hone ▸ h.owes hu, fun hrest => ?_⟩
  rw [hcount, total_eq_zero, Nat.add_zero]
  intro u hu
  rcases hrest u hu with hr | hf
  · unfold RelayTask.resting at hr
    split at hr <;> first | rfl | cases hr
  · cases u with
    | flush f => rfl
    | _ => cases hf

/-- A mailbox is registered over a database with none, and its socket is at rest. -/
theorem mailbox_cap_sample : ∃ c : RelayConfig Nat,
    c.shared.app.mailboxAuth.size = 1 ∧ c.shared.app.mailboxCount = 1 := by
  obtain ⟨c, r, hend⟩ := exists_run (M := relayMachine sampleCrates) (G := anyMove)
    (c := started (U := Nat) AppState.sampleState)
    (.spawn (.connect sampleTime) ::
      List.replicate 3 (sampleStep sampleTime 1 (sampleHello true) 0 []))
    (p := fun c => decide (Resting c ∧ c.shared.app.mailboxAuth.size = 1)) (by decide +kernel)
  obtain ⟨hrest, hsize⟩ := of_decide_eq_true hend
  obtain ⟨_, _, _, hexact⟩ := mailbox_cap
    (AppState.build_run 0 _ _ _ _ ⟨OrdMap.empty, OrdMap.empty⟩)
    (Nat.zero_le _) r
  exact ⟨c, hsize, (hexact fun u hu => Or.inl (hrest u hu)).trans hsize⟩

end

end AxenoRelay
