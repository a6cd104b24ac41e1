/-
  Garbage collection does not take a mailbox in use.

  A collection looks at the queue once, and before it removes a mailbox it looks only at the
  lease and at `online` again. What comes in between is a handler that passed its auth
  check, and that stamped the lease under the same lock. If handlers are prompt, such a
  stamp is recent, so the second look at the lease finds it (`Spared`); with `LeaseOk` as
  the invariant of a run, a mailbox that is removed has an empty queue, is offline, and
  no handler is about to change that (`collected_unused`).
-/
import AxenoRelay.Ws.Leases

namespace AxenoRelay

open Interleave QueueStore

/-! ## Handlers and collections -/

section

variable {U : Type}

/-- The mailbox that a handler past its auth check is still to put online or enqueue to. -/
def RelayTask.pendingFor : RelayTask U → Option RecipientId
  | socket _ (.helloMark m _ false) | socket _ (.helloOk m _ false)
  | socket _ (.helloOnline m _) | socket _ (.sendRate _ m _ _)
  | socket _ (.sendLive _ m _ _) => some m
  | socket _ (.sendStale _ env) | socket _ (.sendCheck _ env _) => some env.toId
  | socket _ (.sendQueue _ env _ q) => q.pendingId.map fun _ => env.toId
  | _ => none

/-- The clock that a collection read. -/
def GcTask.reading : GcTask U → Option Nat
  | empty now _ _ | offline now _ _ _ _ | collect now _ | count now _ _ | mark now _ _
  | purge now _ _ _ | rate now _ _ => some now
  | scan | done => none

/-- The mailboxes whose queue a collection saw empty. -/
def GcTask.passed : GcTask U → List RecipientId
  | empty _ _ stale | collect _ stale | count _ _ stale | mark _ _ stale | purge _ _ _ stale
  | rate _ _ stale => stale
  | offline _ rid queueEmpty _ stale => if queueEmpty then rid :: stale else stale
  | scan | done => []

/-- Is the next step the look at a queue? -/
def RelayTask.looksAtQueue : RelayTask U → Bool
  | gc (.empty _ _ _) => true
  | _ => false

/-- A handler that is still to put a mailbox online or to enqueue finishes within the idle
    time less two roundings: no clock is read later than that. -/
def Prompt (h : RelayPast U) (c : RelayConfig U) (mv : Move (RelayMove U)) : Prop :=
  ∀ i < c.pool.length, ∀ t, c.pool[i]? = some t → t.pendingFor.isSome = true →
    ∀ p, inHand i h = some p → ∀ now, RelayMove.clock mv = some now →
      now ≤ p.1 + (mailboxIdleTtlMs - 2 * mailboxActivityGranularityMs)

/-- The queue reads of a collection succeed. -/
def ReadsOk (c : RelayConfig U) : Move (RelayMove U) → Prop
  | .act i (.run e) =>
    ∀ t, c.pool[i]? = some t → t.looksAtQueue = true → true ∉ e.store.faults
  | _ => True

instance (h : RelayPast U) (c : RelayConfig U) (mv : Move (RelayMove U)) :
    Decidable (Prompt h c mv) :=
  haveI : ∀ i, Decidable (∀ t, c.pool[i]? = some t → t.pendingFor.isSome = true →
      ∀ p, inHand i h = some p → ∀ now, RelayMove.clock mv = some now →
        now ≤ p.1 + (mailboxIdleTtlMs - 2 * mailboxActivityGranularityMs)) := fun i =>
    haveI : ∀ p : Nat × ClientFrame U, Decidable (∀ now, RelayMove.clock mv = some now →
        now ≤ p.1 + (mailboxIdleTtlMs - 2 * mailboxActivityGranularityMs)) :=
      fun p => decidableForallSome _ fun now =>
        now ≤ p.1 + (mailboxIdleTtlMs - 2 * mailboxActivityGranularityMs)
    haveI : Decidable (∀ p, inHand i h = some p → ∀ now, RelayMove.clock mv = some now →
        now ≤ p.1 + (mailboxIdleTtlMs - 2 * mailboxActivityGranularityMs)) :=
      decidableForallSome _ _
    decidableForallSome _ _
  inferInstanceAs (Decidable (∀ i < c.pool.length, ∀ t, c.pool[i]? = some t →
    t.pendingFor.isSome = true → ∀ p, inHand i h = some p → ∀ now, RelayMove.clock mv = some now →
      now ≤ p.1 + (mailboxIdleTtlMs - 2 * mailboxActivityGranularityMs)))

instance (c : RelayConfig U) : DecidablePred (ReadsOk c)
  | .act i (.run e) =>
    decidableForallSome (c.pool[i]?) fun t => t.looksAtQueue = true → true ∉ e.store.faults
  | .act _ (.connect _) | .act _ .gc | .act _ .sweepQueues | .act _ .sweepFiles
  | .act _ (.drain _) | .act _ (.drop _) | .spawn _ | .env _ => isTrue trivial

/-- The clock does not go back, handlers are prompt, and the collection can read. -/
def PromptRun (h : RelayPast U) (c : RelayConfig U) (mv : Move (RelayMove U)) : Prop :=
  ClockOk h mv ∧ Prompt h c mv ∧ ReadsOk c mv

instance : ∀ (h : RelayPast U) (c : RelayConfig U) (mv : Move (RelayMove U)),
    Decidable (PromptRun h c mv) := fun _ _ _ => inferInstanceAs (Decidable (_ ∧ _ ∧ _))

end

/-! ## Empty queues -/

section

variable {U : Type} [UuidText U]

/-- No envelope is queued for `m`. -/
def NoRows (U : Type) [UuidText U] (m : RecipientId) (t : Envelopes) : Prop :=
  ∀ id : U, t.get (keyFor m id) = none

/-- `is_empty` that can read says so of a queue without rows, and of no other. -/
theorem isEmpty_read {fs : Faults} (hfs : true ∉ fs) (m : RecipientId) (t : Envelopes) :
    ((QueueStore.isEmpty m).commit fs t).1 =
      .ok (t.range (mailboxBounds m).1 (mailboxBounds m).2).isEmpty := by
  have htail : ∀ {l : Faults}, true ∉ l → true ∉ l.tail :=
    fun h hmem => h (List.mem_of_mem_tail hmem)
  unfold Txn.commit QueueStore.isEmpty
  dsimp only
  rw [Txn.bind_run, Txn.touch_run hfs]
  dsimp only
  rw [Txn.bind_run, Txn.touch_run (htail hfs)]
  dsimp only
  rw [Txn.bind_run, Txn.read_run (htail (htail hfs))]
  dsimp only
  rw [Txn.bind_run, Txn.attempt_run (htail (htail (htail hfs)))]
  rfl

theorem noRows_of_isEmpty {t : Envelopes} (ht : KeysOk U t) {m : RecipientId} (hm : NameOk m)
    (h : (t.range (mailboxBounds m).1 (mailboxBounds m).2).isEmpty = true) : NoRows U m t := by
  intro id
  cases hget : t.get (keyFor m id) with
  | none => rfl
  | some v =>
    have hmem := (mem_mailboxRows ht hm).mpr hget
    rw [mailboxRows, List.isEmpty_iff.mp h] at hmem
    cases hmem

/-- Only the write of an enqueue to `m` ends the emptiness of the queue of `m`. -/
theorem NoRows.step {e : StoreEvent} {t t' : RelayTask U} {tab tab' : Envelopes}
    (hr : RowsStep e t t' tab tab') {m : RecipientId} (hm : NameOk m) (h : NoRows U m tab) :
    NoRows U m tab' ∨ t.pendingFor = some m := by
  by_cases hpend : t.pendingFor = some m
  · exact Or.inr hpend
  · refine Or.inl fun id => ?_
    cases hget : tab'.get (keyFor m id) with
    | none => rfl
    | some v =>
      rcases hr.get_cases hget with hold | ⟨s, r, env, live, ids, b, rfl, -, hkey, henv, -⟩
      · cases (h id).symm.trans hold
      · exact absurd (congrArg some (keyFor_inj hm henv hkey).1.symm) hpend

end

/-! ## One step -/

section

variable {U : Type} [UuidText U] {C : Crates} {e : RelayEvent U} {t t' : RelayTask U}
  {w w' : Relay U}

omit [UuidText U] in
theorem pendingFor_plain {pc : SocketPc U} (h : pc.Plain) (s : Socket) :
    (RelayTask.socket s pc).pendingFor = none := by
  cases pc <;> first | exact h.elim | rfl

/-- A handler that is pending after a step was so before, or has just stamped the lease. -/
theorem pendingFor_cases (hs : t.Stepped C e w t' w') (ht : t.Named) {m : RecipientId}
    (h : t'.pendingFor = some m) :
    t.pendingFor = some m ∨ ∃ s n f, t = .socket s .ready ∧ e.incoming = .text n (.ok f) ∧
      Covers e.store.now m w'.app.mailboxAuth := by
  have hnew : ∀ {rid : RecipientId} {b : MailboxAuth} {tab : OrdMap RecipientId MailboxAuth},
      rid = m → b.lastActiveMs = nowActivityMs e.store.now →
        Covers e.store.now m (tab.insert rid b) := by
    intro rid b tab hrid hb a ha
    rw [OrdMap.get_insert, if_pos hrid.symm] at ha
    rw [← Option.some.inj ha, hb]
  cases hs with
  | socket s s' pc pc' _ _ hs =>
    cases hs
    case inner hin =>
      rw [pendingFor_plain hin.target] at h
      cases h
    case said last =>
      cases last <;> cases h
    case hello certOnly _ hin _ hentry _ =>
      cases certOnly
      · refine Or.inr ⟨_, _, _, rfl, hin, ?_⟩
        rcases SocketPc.helloEntry_cases hentry with ⟨_, b, _, hb, rfl⟩ | ⟨_, b, hb, rfl⟩
        · exact hnew (Option.some.inj h) hb
        · exact hnew (Option.some.inj h) hb
      · cases h
    case helloMark certOnly =>
      cases certOnly
      · exact Or.inl h
      · cases h
    case helloOk certOnly _ =>
      cases certOnly
      · exact Or.inl h
      · cases h
    case sendAuth hin _ _ _ _ =>
      exact Or.inr ⟨_, _, _, rfl, hin, hnew (Option.some.inj h) rfl⟩
    case sendQueue r env live q q' st hq =>
      have henq : q.Enqueues env := ht.2.2
      have hno : ∀ rid, q = .purgeTxn rid → False := by
        rintro rid rfl
        exact henq
      have hst := QueueTask.stepped_of_call (fun rid hr => (hno rid hr).elim) hq
      obtain ⟨id, hid, hm⟩ := Option.map_eq_some_iff.mp h
      left
      simp only [RelayTask.pendingFor, stepped_pendingId hst hid, Option.map_some, hm]
    all_goals first | exact Or.inl h | cases h
  | flush | gc | sweepQueues | sweepFiles => cases h

/-- What a step of a collection adds to the mailboxes it saw empty. -/
theorem GcTask.passed_step {e : StoreEvent} {g g' : GcTask U} {st st' : AppState}
    (hraw : g.step e st = some (g', st')) (hk : KeysOk U st.queues.envelopes) (hg : g.Named)
    (hreads : (RelayTask.gc g).looksAtQueue = true → true ∉ e.faults) {r : Nat}
    (hr : g'.reading = some r) :
    (g.reading = some r ∨ r = e.now) ∧
      ∀ m ∈ g'.passed, g.reading = some r ∧ m ∈ g.passed ∨ NoRows U m st.queues.envelopes := by
  cases g with
  | scan =>
    cases hraw
    exact ⟨Or.inr (Option.some.inj hr).symm, fun m hm => absurd hm List.not_mem_nil⟩
  | empty now rest stale =>
    simp only [step] at hraw
    by_cases hrest : rest.isEmpty = true
    · rw [if_pos hrest] at hraw
      cases hraw
      exact ⟨Or.inl hr, fun m hm => Or.inl ⟨hr, hm⟩⟩
    · rw [if_neg hrest] at hraw
      cases hpick : pickFrom e rest with
      | none =>
        rw [hpick] at hraw
        cases hraw
      | some p =>
        obtain ⟨rid, rest'⟩ := p
        rw [hpick] at hraw
        dsimp only at hraw
        rw [isEmpty_read (hreads rfl)] at hraw
        cases hraw
        refine ⟨Or.inl hr, fun m hm => ?_⟩
        simp only [passed] at hm
        split_ifs at hm with hempty
        · rcases List.mem_cons.mp hm with rfl | hm
          · have hname : NameOk m := hg.1 m (pickFrom_cases hpick).1
            exact Or.inr (noRows_of_isEmpty hk hname hempty)
          · exact Or.inl ⟨hr, hm⟩
        · exact Or.inl ⟨hr, hm⟩
  | offline now rid queueEmpty rest stale =>
    cases hraw
    refine ⟨Or.inl hr, fun m hm => Or.inl ⟨hr, ?_⟩⟩
    simp only [passed] at hm ⊢
    cases queueEmpty with
    | false => exact hm
    | true =>
      rw [if_pos rfl]
      split_ifs at hm
      · rcases List.mem_append.mp hm with hm | hm
        · exact List.mem_cons_of_mem _ hm
        · exact List.mem_cons.mpr (Or.inl (List.mem_singleton.mp hm))
      · exact List.mem_cons_of_mem _ hm
  | collect now stale =>
    cases stale with
    | nil =>
      cases hraw
      cases hr
    | cons rid stale =>
      simp only [step] at hraw
      split at hraw <;> cases hraw
      · exact ⟨Or.inl hr, fun m hm => Or.inl ⟨hr, List.mem_cons_of_mem _ hm⟩⟩
      · exact ⟨Or.inl hr, fun m hm => Or.inl ⟨hr, List.mem_cons_of_mem _ hm⟩⟩
  | purge now rid q stale =>
    cases q
    case done =>
      cases hraw
      exact ⟨Or.inl hr, fun m hm => Or.inl ⟨hr, hm⟩⟩
    all_goals
      simp only [step] at hraw
      obtain ⟨_, _, heq⟩ := Option.map_eq_some_iff.mp hraw
      cases heq
      exact ⟨Or.inl hr, fun m hm => Or.inl ⟨hr, hm⟩⟩
  | count | mark | rate =>
    cases hraw
    exact ⟨Or.inl hr, fun m hm => Or.inl ⟨hr, hm⟩⟩
  | done => cases hraw

/-- A removal goes on with the reading of its collection, from a mailbox that passed. -/
theorem GcTask.removed_from {e : StoreEvent} {r t : Nat} {m : RecipientId}
    {l stale : List RecipientId} {st st' : AppState}
    (h : GcTask.step (U := U) e (.collect r l) st = some (.count t m stale, st')) :
    (GcTask.collect r l : GcTask U).reading = some t ∧ m ∈ (GcTask.collect r l : GcTask U).passed := by
  cases l with
  | nil => cases h
  | cons rid l =>
    simp only [step] at h
    split at h <;> cases h
    exact ⟨rfl, List.mem_cons_self⟩

/-- Nothing queued for `m`, or a recent lease: what the look at the queue leaves behind. -/
def Spared (U : Type) [UuidText U] (r : Nat) (m : RecipientId) (st : AppState) : Prop :=
  NoRows U m st.queues.envelopes ∨ Fresh r m st.mailboxAuth

/-- An envelope enqueued since the look was stamped for. -/
theorem Spared.step (hs : t.Stepped C e w t' w')
    (hrows : RowsStep e.store t t' w.app.queues.envelopes w'.app.queues.envelopes) {r : Nat}
    {m : RecipientId} (hm : NameOk m) (hclock : r ≤ e.store.now)
    (hstamp : t.pendingFor = some m → Fresh r m w.app.mailboxAuth) (h : Spared U r m w.app) :
    Spared U r m w'.app := by
  rcases h with h | h
  · rcases h.step hrows hm with hno | hpend
    · exact Or.inl hno
    · exact Or.inr ((hstamp hpend).step hs hclock)
  · exact Or.inr (h.step hs hclock)

end

/-! ## Runs -/

section

variable {U : Type} [UuidText U]

/-- What holds in a run whose handlers are prompt. -/
structure LeaseOk (h : RelayPast U) (c : RelayConfig U) : Prop where
  named : Named c
  /-- The lease covers the stamp of every handler that is still to use it. -/
  stamped : ∀ i t m, c.pool[i]? = some t → t.pendingFor = some m →
    ∃ p, inHand i h = some p ∧ p.1 ≤ lastClock h ∧ Covers p.1 m c.shared.app.mailboxAuth
  /-- A mailbox that passed the look at its queue has no envelope, or a recent lease. -/
  passed : ∀ g : GcTask U, .gc g ∈ c.pool → ∀ r, g.reading = some r →
    r ≤ lastClock h ∧ ∀ m ∈ g.passed, NameOk m ∧ Spared U r m c.shared.app

variable {C : Crates} {h : RelayPast U} {c c' : RelayConfig U} {mv : Move (RelayMove U)}

omit [UuidText U] in
theorem GcTask.Named.passed {g : GcTask U} (hg : g.Named) : ∀ m ∈ g.passed, NameOk m := by
  intro m hm
  cases g with
  | empty => exact hg.2 m hm
  | offline now rid queueEmpty rest stale =>
    simp only [GcTask.passed] at hm
    split_ifs at hm
    · rcases List.mem_cons.mp hm with rfl | hm
      · exact hg.1
      · exact hg.2.2 m hm
    · exact hg.2.2 m hm
  | collect => exact hg m hm
  | count | mark | rate => exact hg.2 m hm
  | purge => exact hg.2.2 m hm
  | scan | done => cases hm

/-- A prompt handler's stamp is recent for every collection. -/
theorem LeaseOk.fresh_of_pending (hc : LeaseOk h c) (hp : Prompt h c mv) {now : Nat}
    (hnow : RelayMove.clock mv = some now) {r : Nat} (hr : r ≤ now) {i : Nat} {t : RelayTask U}
    {m : RecipientId} (ht : c.pool[i]? = some t) (hpend : t.pendingFor = some m) :
    Fresh r m c.shared.app.mailboxAuth := by
  obtain ⟨p, hin, -, hcov⟩ := hc.stamped i t m ht hpend
  have hsome : t.pendingFor.isSome = true := by rw [hpend]; rfl
  have hle := hp i (List.getElem?_eq_some_iff.mp ht).1 t ht hsome p hin now hnow
  have hdays : 2 * mailboxActivityGranularityMs ≤ mailboxIdleTtlMs := by decide
  exact hcov.fresh (by omega)

theorem LeaseOk.spawned (hc : LeaseOk h c) {ev : RelayMove U} {u : RelayTask U} {w : Relay U}
    (hs : Spawned u c.shared w) (hlast : lastClock h ≤ lastClock ((c, .spawn ev) :: h))
    (hn : Named (⟨w, c.pool ++ [u]⟩ : RelayConfig U)) :
    LeaseOk ((c, .spawn ev) :: h) ⟨w, c.pool ++ [u]⟩ := by
  obtain ⟨n, happ⟩ := hs.app
  refine ⟨hn, fun i t m ht hpend => ?_, fun g hg r hr => ?_⟩
  · rcases getElem?_snoc_cases ht with ht | ⟨-, rfl⟩
    · obtain ⟨p, hin, hle, hcov⟩ := hc.stamped i t m ht hpend
      exact ⟨p, hin, hle.trans hlast, by dsimp only; rw [happ]; exact hcov⟩
    · cases hs <;> cases hpend
  · rcases List.mem_append.mp hg with hg | hg
    · obtain ⟨hle, hpassed⟩ := hc.passed g hg r hr
      exact ⟨hle.trans hlast, by dsimp only; rw [happ]; exact hpassed⟩
    · rw [← List.mem_singleton.mp hg] at hs
      cases hs
      cases hr

variable [DecidableEq U]

theorem LeaseOk.stepped (hc : LeaseOk h c) {i : Nat} {e : RelayEvent U} {u u' : RelayTask U}
    {w : Relay U} (hg : PromptRun h c (.act i (.run e))) (hu : c.pool[i]? = some u)
    (hs : u.Stepped C e c.shared u' w) (hraw : u.step C e c.shared = some (u', w)) :
    LeaseOk ((c, .act i (.run e)) :: h) ⟨w, c.pool.set i u'⟩ := by
  obtain ⟨hclock, hprompt, hreads⟩ := hg
  have hnow := hclock e.store.now rfl
  have hmem := List.mem_of_getElem? hu
  have hname := hc.named.tasks u hmem
  have hrows := (hs.namedStep hc.named.keys hc.named.names hname).rows
  -- what another collection saw empty
  have hkeep : ∀ {r m}, r ≤ lastClock h → NameOk m → Spared U r m c.shared.app →
      Spared U r m w.app := by
    intro r m hr hm hspared
    refine hspared.step hs hrows hm (hr.trans hnow) fun hpend => ?_
    exact hc.fresh_of_pending hprompt rfl (hr.trans hnow) hu hpend
  refine ⟨hc.named.step (.stepped i e u u' c w hu hs), fun j t m ht hpend => ?_,
    fun g hg r hr => ?_⟩
  · rcases getElem?_set_cases ht with ⟨rfl, rfl⟩ | ⟨hne, ht⟩
    · rcases pendingFor_cases hs hname hpend with hold | ⟨s, n, f, rfl, hin, hcov⟩
      · -- the handler goes on with the frame it has in hand
        obtain ⟨p, hin, hle, hcov⟩ := hc.stamped j u m hu hold
        refine ⟨p, ?_, hle.trans hnow, hcov.step hs (hle.trans hnow)⟩
        rw [inHand_busy hu]
        · exact hin
        · rintro s pc rfl
          cases pc <;> first | rfl | cases hold
      · exact ⟨_, inHand_taken hu hin, Nat.le_refl _, hcov⟩
    · obtain ⟨p, hin, hle, hcov⟩ := hc.stamped j t m ht hpend
      refine ⟨p, ?_, hle.trans hnow, hcov.step hs (hle.trans hnow)⟩
      rw [inHand_other (Ne.symm hne)]
      exact hin
  · rcases mem_set_cases hg with heq | hg
    · cases u with
      | gc g₀ =>
        obtain ⟨⟨g', st⟩, hgc, hpair⟩ := Option.map_eq_some_iff.mp hraw
        obtain ⟨hg', hw⟩ := Prod.mk.inj hpair
        obtain rfl : g' = g := RelayTask.gc.inj (hg'.trans heq.symm)
        have hlook := hreads _ hu
        obtain ⟨hread, hpassed⟩ := GcTask.passed_step hgc hc.named.keys hname hlook hr
        have hle : r ≤ e.store.now := by
          rcases hread with hold | rfl
          · exact (hc.passed g₀ hmem r hold).1.trans hnow
          · exact Nat.le_refl _
        have hnamed : g'.Named := by
          have hstep := (hs.namedStep hc.named.keys hc.named.names hname).task
          rw [← heq] at hstep
          exact hstep
        refine ⟨hle, fun m hm => ⟨hnamed.passed m hm, ?_⟩⟩
        rcases hpassed m hm with ⟨hold, hm⟩ | hno
        · obtain ⟨hle₀, hspared⟩ := hc.passed g₀ hmem r hold
          exact hkeep hle₀ (hspared m hm).1 (hspared m hm).2
        · refine Spared.step hs hrows (hnamed.passed m hm) hle (fun hpend => ?_) (Or.inl hno)
          cases hpend
      | _ =>
        subst heq
        cases hs
    · obtain ⟨hle, hpassed⟩ := hc.passed g hg r hr
      exact ⟨hle.trans hnow, fun m hm =>
        ⟨(hpassed m hm).1, hkeep hle (hpassed m hm).1 (hpassed m hm).2⟩⟩

theorem LeaseOk.step (hc : LeaseOk h c) (hg : PromptRun h c mv)
    (hn : (relayMachine C).next mv c = some c') : LeaseOk ((c, mv) :: h) c' := by
  have hmoved := moved_of_next hn
  have hnamed := hc.named.step hmoved
  cases hmoved with
  | spawned ev u c w hs => exact hc.spawned hs (lastClock_le hg.1) hnamed
  | wrote ev c w hs =>
    refine ⟨hnamed, ?_, ?_⟩
    · rw [hs.app]
      exact hc.stamped
    · rw [hs.app]
      exact hc.passed
  | stepped i e u u' c w hu hs => exact hc.stepped hg hu hs (step_of_next hu hn)

theorem leaseOk_run {st : AppState} (hk : KeysOk U st.queues.envelopes)
    (hnames : st.mailboxAuth.All fun m _ => NameOk m)
    (r : Trace (relayMachine C) PromptRun (started st) h c) : LeaseOk h c := by
  refine r.invariant ⟨named_start hk hnames, fun i t m ht hpend => ?_, fun g hg => ?_⟩
    fun h c mv c' hc hg hn => hc.step hg hn
  · have hflush : t = .flush .lookAuth := List.mem_singleton.mp (List.mem_of_getElem? ht)
    subst hflush
    cases hpend
  · cases List.mem_singleton.mp hg

/-- **A mailbox that is collected is not in use**: it is offline, nothing is queued for it,
    and no handler past its auth check is still to put it online or enqueue to it. -/
theorem collected_unused {st : AppState} (hk : KeysOk U st.queues.envelopes)
    (hnames : st.mailboxAuth.All fun m _ => NameOk m)
    (r : Trace (relayMachine C) PromptRun (started st) h c) (hg : PromptRun h c mv)
    {m : RecipientId} {t : Nat} (hcoll : collectedAt C c mv = some (m, t)) :
    c.shared.app.online.get m = none ∧ NoRows U m c.shared.app.queues.envelopes ∧
      ∀ u ∈ c.pool, u.pendingFor ≠ some m := by
  have hc := leaseOk_run hk hnames r
  obtain ⟨i, e, _, _, _, _, rfl, hu, hstep⟩ := step_of_collectedAt hcoll
  obtain ⟨⟨a, hget, hidle⟩, hoff⟩ := idle_of_removed hstep
  have hstale : ¬Fresh t m c.shared.app.mailboxAuth := by
    intro hfresh
    have hno := hfresh a hget
    rw [hidle] at hno
    cases hno
  obtain ⟨hread, hpass⟩ := GcTask.removed_from hstep
  obtain ⟨hle, hspared⟩ := hc.passed _ (List.mem_of_getElem? hu) t hread
  refine ⟨hoff, ?_, fun u hmem hpend => hstale ?_⟩
  · rcases (hspared m hpass).2 with hno | hfresh
    · exact hno
    · exact absurd hfresh hstale
  · obtain ⟨j, hj⟩ := List.getElem?_of_mem hmem
    exact hc.fresh_of_pending hg.2.1 rfl (hle.trans (hg.1 _ rfl)) hj hpend

end

/-- A mailbox whose only Hello went away is collected. -/
theorem collected_unused_sample : ∃ (h : RelayPast Nat) (c : RelayConfig Nat),
    Trace (relayMachine sampleCrates) PromptRun (started AppState.sampleState) h c ∧
      collectedAt sampleCrates c sampleGcStep = some (AppState.sampleRid, sampleGcTime) ∧
      c.shared.app.online.get AppState.sampleRid = none ∧
      NoRows Nat AppState.sampleRid c.shared.app.queues.envelopes ∧
      ∀ u ∈ c.pool, u.pendingFor ≠ some AppState.sampleRid := by
  obtain ⟨h, c, r, hend⟩ := exists_trace (M := relayMachine sampleCrates) (G := PromptRun)
    (c := started (U := Nat) AppState.sampleState) earlyCollection
    (p := fun r => collectsSample r && decide (PromptRun r.1 r.2 sampleGcStep)) (by decide +kernel)
  obtain ⟨hboth, hg⟩ := Bool.and_eq_true_iff.mp hend
  have hcoll := of_decide_eq_true (Bool.and_eq_true_iff.mp hboth).1
  exact ⟨h, c, r, hcoll, collected_unused keysOk_empty OrdMap.all_empty r
    (of_decide_eq_true hg) hcoll⟩

end AxenoRelay
