/-
  Every queued envelope reaches the socket that said Hello.

  A sender looks for a live route before it commits; Hello publishes its route before it
  reads the queue. A sender that found no route can still commit after the flush, and then
  its envelope is neither pushed nor flushed (`stranded`). Nothing is stranded if the flush
  covers what is queued and what is in flight, and later senders find the route
  (`no_stranded`): an envelope in the queue has been pushed, or is on the list of the
  handler that pushes them.
-/
import AxenoRelay.Ws.Acked

namespace AxenoRelay

open Interleave QueueStore

section

variable {U : Type}

/-- The envelope has been pushed onto the channel of socket `sid`. -/
def PushedTo (sid : Nat) (env : StoredEnvelope U) (w : Relay U) : Prop :=
  ∃ ch, w.chans[sid]? = some ch ∧ .envelope env ∈ ch.sent

theorem PushedTo.later {sid : Nat} {env : StoredEnvelope U} {w w' : Relay U}
    (h : PushedTo sid env w) (hl : w.Later w') : PushedTo sid env w' := by
  obtain ⟨ch, hch, hmem⟩ := h
  obtain ⟨ch', hch', hlater⟩ := hl sid ch hch
  exact ⟨ch', hch', hlater.sent _ hmem⟩

theorem pushedTo_set {sid : Nat} {env : StoredEnvelope U} {ch : Chan U} {w w' : Relay U}
    (hch : w.chans[sid]? = some ch) (h : w'.chans = w.chans.set sid (ch.push (.envelope env))) :
    PushedTo sid env w' := by
  refine ⟨ch.push (.envelope env), ?_, List.mem_append_right _ (List.mem_singleton_self _)⟩
  rw [h, List.getElem?_set_self (List.getElem?_eq_some_iff.mp hch).1]

instance [DecidableEq U] (sid : Nat) (env : StoredEnvelope U) (w : Relay U) :
    Decidable (PushedTo sid env w) :=
  decidable_of_iff (((w.chans[sid]?).any fun ch => decide (.envelope env ∈ ch.sent)) = true) <| by
    simp [PushedTo, Option.any_eq_true]

/-- The channel of socket `sid` is open and not full. -/
def ChanReady (sid : Nat) (c : RelayConfig U) : Prop :=
  ((c.shared.chans[sid]?).any fun ch => ch.isOpen && ch.hasRoom) = true

instance (sid : Nat) (c : RelayConfig U) : Decidable (ChanReady sid c) :=
  inferInstanceAs (Decidable (_ = _))

/-- Is the next step of the task the look of a sender for the live route of `m`? -/
def RelayTask.looksFor (m : RecipientId) : RelayTask U → Bool
  | socket _ (.sendLive _ toId _ _) => decide (toId = m)
  | _ => false

/-- A sender to `m` that looks for the live route finds socket `sid`. -/
def FindsRoute (sid : Nat) (m : RecipientId) (c : RelayConfig U) : Move (RelayMove U) → Prop
  | .act j (.run _) => ∀ t, c.pool[j]? = some t → t.looksFor m = true →
    c.shared.app.online.get m = some sid
  | _ => True

instance (sid : Nat) (m : RecipientId) (c : RelayConfig U) :
    ∀ mv, Decidable (FindsRoute sid m c mv)
  | .act _ (.run _) => inferInstanceAs (Decidable (∀ _, _ → _ → _))
  | .act _ (.connect _) | .act _ .gc | .act _ .sweepQueues | .act _ .sweepFiles
  | .act _ (.drain _) | .act _ (.drop _) | .spawn _ | .env _ => isTrue trivial

/-- Is the handler still pushing what it has flushed? -/
def RelayTask.pushing : RelayTask U → Bool
  | socket _ (.helloPush _ _ _) => true
  | _ => false

variable [UuidText U]

/-- Is a flush of `m` not run, or does it fail? -/
def flushFails (m : RecipientId) (e : RelayEvent U) (st : AppState) : Bool :=
  e.notRun || !((flush U m).commit e.store.faults st.queues.envelopes).1.isOk

/-- The envelopes queued for `m`. -/
def queueOf (m : RecipientId) (st : AppState) : List (StoredEnvelope U) :=
  (queueRows U m st.queues.envelopes).map (toEnvelope m)

/-- What the flush of `m` does not return, and what is in flight to `m`, has been pushed onto the
    channel of socket `sid` already. -/
structure FlushCovers (sid : Nat) (m : RecipientId) (e : RelayEvent U) (c : RelayConfig U) : Prop where
  rows : flushFails m e c.shared.app = true →
    ∀ env ∈ queueOf (U := U) m c.shared.app, PushedTo sid env c.shared
  flying : ∀ t ∈ c.pool, ∀ env, t.inFlight = some env → env.toId = m → PushedTo sid env c.shared

/-- What holds after the flush at place `i`: an envelope queued for `m` has been pushed or is about
    to be, and one in flight has been pushed. -/
structure Delivering (i sid : Nat) (m : RecipientId) (c : RelayConfig U) : Prop where
  named : Named c
  sock : ∃ s pc, c.pool[i]? = some (.socket s pc) ∧ s.sid = sid
  rows : ∀ id v, c.shared.app.queues.envelopes.get (keyFor m id) = some v →
    PushedTo sid (toEnvelope (U := U) m (id, v)) c.shared ∨
      ∃ s rest d n, c.pool[i]? = some (.socket s (.helloPush rest d n)) ∧
        toEnvelope m (id, v) ∈ rest
  flying : ∀ t ∈ c.pool, ∀ env, t.inFlight = some env → env.toId = m → PushedTo sid env c.shared

end

/-! ## One step -/

section

variable {U : Type} [UuidText U] {C : Crates} {e : RelayEvent U}

/-- A sender that finds the route open draws an id for an envelope that it pushes. -/
theorem SocketPc.Stepped.pushes {s s' : Socket} {pc pc' : SocketPc U} {w w' : Relay U}
    (hs : SocketPc.Stepped C e s pc w s' pc' w') {env : StoredEnvelope U}
    (hdraw : pc.draws e.uuid = some env) {sid : Nat} (hroute : w.app.online.get env.toId = some sid)
    (hready : ((w.chans[sid]?).any fun ch => ch.isOpen && ch.hasRoom) = true) :
    PushedTo sid env w' := by
  cases hs
  case inner hin => cases hin <;> cases hdraw
  case sendMissed hno =>
    cases hdraw
    cases hroute.symm.trans hno
  case sendPushed sid' ch _ hget hch =>
    cases hdraw
    obtain rfl := Option.some.inj (hroute.symm.trans hget)
    exact pushedTo_set hch rfl
  case sendFailed sid' _ hget hclosed =>
    cases hdraw
    obtain rfl := Option.some.inj (hroute.symm.trans hget)
    obtain ⟨ch, hch, hopen⟩ := (Option.any_eq_true _ _).mp hready
    rw [hclosed ch hch] at hopen
    cases hopen
  all_goals cases hdraw

/-- The handler that pushes what it has flushed pushes the next one on its list. -/
theorem SocketPc.Stepped.pushList {s s' : Socket} {rest : List (StoredEnvelope U)} {d n : Nat}
    {pc' : SocketPc U} {w w' : Relay U}
    (hs : SocketPc.Stepped C e s (.helloPush rest d n) w s' pc' w')
    (hready : ((w.chans[s.sid]?).any fun ch => ch.isOpen && ch.hasRoom) = true)
    {env : StoredEnvelope U} (hin : env ∈ rest) :
    PushedTo s.sid env w' ∨ ∃ rest' d' n', pc' = .helloPush rest' d' n' ∧ env ∈ rest' := by
  cases hs
  case inner hin => cases hin
  case helloPush env' rest ch hch =>
    rcases List.mem_cons.mp hin with rfl | hin
    · exact Or.inl (pushedTo_set hch rfl)
    · exact Or.inr ⟨rest, _, _, rfl, hin⟩
  case helloStop hstop =>
    rcases hstop with rfl | hclosed
    · cases hin
    · obtain ⟨ch, hch, hopen⟩ := (Option.any_eq_true _ _).mp hready
      rw [hclosed ch hch] at hopen
      cases hopen

variable {c c' : RelayConfig U} {mv : Move (RelayMove U)} {i sid : Nat} {m : RecipientId}

/-- What is in flight to `m` after a step has been pushed. -/
theorem Delivering.flying_step (h : Delivering i sid m c) (hready : ChanReady sid c) {j : Nat}
    (hfinds : FindsRoute sid m c (.act j (.run e))) {t t' : RelayTask U} {w : Relay U}
    (ht : c.pool[j]? = some t) (hs : t.Stepped C e c.shared t' w) {env : StoredEnvelope U}
    (henv : t'.inFlight = some env) (hto : env.toId = m) : PushedTo sid env w := by
  have hmem := List.mem_of_getElem? ht
  rcases hs.inFlight h.named.keys (h.named.tasks t hmem) henv with hfly | ⟨hdraw, -⟩
  · exact (h.flying t hmem env hfly hto).later hs.later
  · cases hs with
    | socket s _ pc _ _ _ hs =>
      have hroute : c.shared.app.online.get env.toId = some sid := by
        cases pc with
        | sendLive r m' ty ct =>
          obtain rfl := Option.some.inj hdraw
          obtain rfl : m' = m := hto
          exact hfinds _ ht (decide_eq_true rfl)
        | _ => cases hdraw
      exact hs.pushes hdraw hroute hready
    | _ => cases hdraw

/-- What is queued for `m` after a step has been pushed, or is still on the list. -/
theorem Delivering.rows_step (h : Delivering i sid m c) (hm : NameOk m) (hready : ChanReady sid c)
    {j : Nat} {t t' : RelayTask U} {w : Relay U} (ht : c.pool[j]? = some t)
    (hs : t.Stepped C e c.shared t' w) {id : U} {v : StoredValue}
    (hv : w.app.queues.envelopes.get (keyFor m id) = some v) :
    PushedTo sid (toEnvelope m (id, v)) w ∨
      ∃ s rest d n, (c.pool.set j t')[i]? = some (.socket s (.helloPush rest d n)) ∧
        toEnvelope m (id, v) ∈ rest := by
  have hmem := List.mem_of_getElem? ht
  have hrows := (hs.namedStep h.named.keys h.named.names (h.named.tasks t hmem)).rows
  rcases hrows.landed hm hv with hold | hfly
  · rcases h.rows id v hold with hp | ⟨s', rest, d, n, hi, hin⟩
    · exact Or.inl (hp.later hs.later)
    · by_cases hij : j = i
      · subst hij
        obtain rfl := Option.some.inj (ht.symm.trans hi)
        obtain ⟨s, pc, hi', rfl⟩ := h.sock
        obtain ⟨rfl, -⟩ := RelayTask.socket.inj (Option.some.inj (hi.symm.trans hi'))
        have hlt : j < c.pool.length := (List.getElem?_eq_some_iff.mp ht).1
        cases hs with
        | socket _ s₁ _ _ _ _ hs =>
          rcases hs.pushList hready hin with hp | ⟨rest', d', n', rfl, hin⟩
          · exact Or.inl hp
          · exact Or.inr ⟨s₁, rest', d', n', List.getElem?_set_self hlt, hin⟩
      · exact Or.inr ⟨s', rest, d, n, (List.getElem?_set_ne hij).trans hi, hin⟩
  · exact Or.inl ((h.flying t hmem _ hfly rfl).later hs.later)

theorem Delivering.step (h : Delivering i sid m c) (hm : NameOk m) (hready : ChanReady sid c)
    (hfinds : FindsRoute sid m c mv) (hs : Moved C c mv c') : Delivering i sid m c' := by
  have hlater := hs.later
  have hnamed := h.named.step hs
  obtain ⟨s, pc, hi, hsid⟩ := h.sock
  have hlt : i < c.pool.length := (List.getElem?_eq_some_iff.mp hi).1
  cases hs with
  | spawned ev t c w hs =>
    obtain ⟨n, happ⟩ := hs.app
    refine ⟨hnamed, ⟨s, pc, (List.getElem?_append_left hlt).trans hi, hsid⟩, fun id v hv => ?_,
      fun u hu env henv hto => ?_⟩
    · dsimp only at hv
      rw [happ] at hv
      rcases h.rows id v hv with hp | ⟨s', rest, d, n, hi', hmem⟩
      · exact Or.inl (hp.later hlater)
      · exact Or.inr ⟨s', rest, d, n, (List.getElem?_append_left hlt).trans hi', hmem⟩
    · rcases List.mem_append.mp hu with hu | hu
      · exact (h.flying u hu env henv hto).later hlater
      · rw [List.mem_singleton.mp hu] at henv
        cases hs
        all_goals cases henv
  | wrote ev c w hs =>
    refine ⟨hnamed, ⟨s, pc, hi, hsid⟩, fun id v hv => ?_, fun u hu env henv hto =>
      (h.flying u hu env henv hto).later hlater⟩
    dsimp only at hv
    rw [hs.app] at hv
    exact (h.rows id v hv).imp_left fun hp => hp.later hlater
  | stepped j e t t' c w ht hs =>
    refine ⟨hnamed, ?_, fun id v hv => h.rows_step hm hready ht hs hv,
      fun u hu env henv hto => ?_⟩
    · by_cases hij : j = i
      · subst hij
        obtain rfl := Option.some.inj (ht.symm.trans hi)
        cases hs with
        | socket _ s' _ pc' _ _ hs =>
          exact ⟨s', pc', List.getElem?_set_self hlt, hs.sid.trans hsid⟩
      · exact ⟨s, pc, (List.getElem?_set_ne hij).trans hi, hsid⟩
    · rcases mem_set_cases hu with rfl | hu
      · exact h.flying_step hready hfinds ht hs henv hto
      · exact (h.flying u hu env henv hto).later hlater

variable [DecidableEq U]

/-- After a flush that covers what it has to. -/
theorem delivering_of_flush (hc : Named c) {s : Socket} {n : Nat}
    (hi : c.pool[i]? = some (.socket s (.helloFlush m n))) (hcov : FlushCovers s.sid m e c)
    (hn : (relayMachine C).next (.act i (.run e)) c = some c') : Delivering i s.sid m c' := by
  have hm : NameOk m := by
    obtain ⟨hsock, hrid⟩ := hc.tasks _ (List.mem_of_getElem? hi)
    exact hsock m hrid
  have hlt : i < c.pool.length := (List.getElem?_eq_some_iff.mp hi).1
  have hnamed := hc.step (moved_of_next hn)
  obtain ⟨t, t', w, ht, hstep, rfl⟩ := next_act hn
  obtain rfl := Option.some.inj (hi.symm.trans ht)
  cases hstep
  refine ⟨hnamed, ⟨_, _, List.getElem?_set_self hlt, rfl⟩, fun id v hv => ?_,
    fun u hu env henv hto => ?_⟩
  · have hrow : toEnvelope m (id, v) ∈ queueOf m c.shared.app :=
      List.mem_map_of_mem ((mem_queueRows hc.keys hm).mpr hv)
    by_cases hfails : flushFails (U := U) m e c.shared.app = true
    · exact Or.inl (hcov.rows hfails _ hrow)
    · refine Or.inr ⟨_, _, _, _, List.getElem?_set_self hlt, ?_⟩
      simp only [flushFails, Bool.or_eq_true, Bool.not_eq_true', not_or, Bool.not_eq_true,
        Bool.not_eq_false] at hfails
      obtain ⟨hrun, hok⟩ := hfails
      rw [hrun, if_neg Bool.false_ne_true]
      rcases flush_cases (U := U) m e.store.faults c.shared.app.queues.envelopes with ⟨err, he⟩ | he
      · rw [he] at hok
        cases hok
      · rw [he]
        exact hrow
  · rcases mem_set_cases hu with rfl | hu
    · cases henv
    · exact hcov.flying u hu env henv hto

/-- **No stranded envelope.** After a flush that covers what is queued and what is in flight, if
    the channel stays open with room and later senders find the route, every envelope in the
    queue has been pushed once the handler has pushed what it flushed. -/
theorem no_stranded {st : AppState} (hk : KeysOk U st.queues.envelopes)
    (hn : st.mailboxAuth.All fun m _ => NameOk m) {c₀ c₁ : RelayConfig U} {s : Socket} {n : Nat}
    (r₀ : Run (relayMachine C) anyMove (started st) c₀)
    (hi : c₀.pool[i]? = some (.socket s (.helloFlush m n))) (hcov : FlushCovers s.sid m e c₀)
    (hflush : (relayMachine C).next (.act i (.run e)) c₀ = some c₁)
    (r : Run (relayMachine C) (fun c mv => ChanReady s.sid c ∧ FindsRoute s.sid m c mv) c₁ c)
    (hdone : ∀ t, c.pool[i]? = some t → t.pushing = false) :
    ∀ env ∈ queueOf (U := U) m c.shared.app, PushedTo s.sid env c.shared := by
  have hnamed₀ : Named c₀ := r₀.invariant (named_start hk hn)
    fun c mv c' h _ hm => h.step (moved_of_next hm)
  have hm : NameOk m := by
    obtain ⟨hsock, hrid⟩ := hnamed₀.tasks _ (List.mem_of_getElem? hi)
    exact hsock m hrid
  have hdel : Delivering i s.sid m c := r.invariant (delivering_of_flush hnamed₀ hi hcov hflush)
    fun c mv c' h g hmove => h.step hm g.1 g.2 (moved_of_next hmove)
  intro env henv
  obtain ⟨⟨id, v⟩, hrow, rfl⟩ := List.mem_map.mp henv
  rcases hdel.rows id v ((mem_queueRows hdel.named.keys hm).mp hrow) with hp | ⟨_, _, _, _, hi', -⟩
  · exact hp
  · cases hdone _ hi'

end

/-! ## Sample runs -/

/-- Is the task a handler of SendEnvelope for `m`, or about to become one? -/
def RelayTask.sendsTo (m : RecipientId) (e : RelayEvent Nat) : RelayTask Nat → Bool
  | socket _ .ready =>
    match e.incoming with
    | .text _ (.ok (.sendEnvelope _ toId _ _ _)) => decide (toId = m)
    | _ => false
  | socket _ (.sendRate _ toId _ _) | socket _ (.sendLive _ toId _ _) => decide (toId = m)
  | socket _ (.sendStale _ env) | socket _ (.sendCheck _ env _) | socket _ (.sendQueue _ env _ _)
  | socket _ (.sendMark _ env _ _) => decide (env.toId = m)
  | socket _ (.reply _ false) => true
  | _ => false

/-- Only the Hello at place `i` and senders to `m` take steps, the channel is open with room, and
    no store call fails. -/
def HelloAndSenders (i sid : Nat) (m : RecipientId) (c : RelayConfig Nat)
    (mv : Move (RelayMove Nat)) : Prop :=
  CallsSucceed c mv ∧ ChanReady sid c ∧
    match mv with
    | .act j (.run e) => j = i ∨ ∀ t, c.pool[j]? = some t → t.sendsTo m e = true
    | _ => False

instance (i sid : Nat) (m : RecipientId) (c : RelayConfig Nat) :
    ∀ mv, Decidable (HelloAndSenders i sid m c mv)
  | .act _ (.run _) => @instDecidableAnd _ _ _ (@instDecidableAnd _ _ _ instDecidableOr)
  | .act _ (.connect _) | .act _ .gc | .act _ .sweepQueues | .act _ .sweepFiles
  | .act _ (.drain _) | .act _ (.drop _) | .spawn _ | .env _ => isFalse fun h => h.2.2

/-- Where the Hello at place `i` is, if it has still to publish its route or to flush. -/
def helloAt (i : Nat) (c : RelayConfig Nat) : Option (Bool × Socket × RecipientId) :=
  match c.pool[i]? with
  | some (.socket s (.helloOnline m _)) => some (false, s, m)
  | some (.socket s (.helloFlush m _)) => some (true, s, m)
  | _ => none

theorem pool_of_helloAt {i : Nat} {c : RelayConfig Nat} {b : Bool} {s : Socket} {m : RecipientId}
    (h : helloAt i c = some (b, s, m)) :
    ∃ n, c.pool[i]? = some (.socket s (if b then .helloFlush m n else .helloOnline m n)) := by
  unfold helloAt at h
  split at h
  · cases h
    exact ⟨_, ‹_›⟩
  · cases h
    exact ⟨_, ‹_›⟩
  · cases h

/-- Alice in her second Hello. -/
def aliceAgain : Socket := ⟨0, some AppState.sampleRid, sampleTime, 2⟩

/-- Alice and Bob connect, and she registers her mailbox. -/
def aliceRegistered : List (Move (RelayMove Nat)) :=
  .spawn (.connect sampleTime) :: .spawn (.connect sampleTime) :: shortHello 1

/-- The row of envelope 1 for the sample mailbox. -/
def sampleRow (c : RelayConfig Nat) : Option StoredValue :=
  c.shared.app.queues.envelopes.get (keyFor AppState.sampleRid 1)

theorem queueOf_of_sampleRow {c : RelayConfig Nat} (hc : Named c) {v : StoredValue}
    (hv : sampleRow c = some v) :
    toEnvelope AppState.sampleRid (1, v) ∈ queueOf (U := Nat) AppState.sampleRid c.shared.app :=
  List.mem_map_of_mem ((mem_queueRows hc.keys (nameOk_of_valid (by decide))).mpr hv)

/-- Alice says Hello again while Bob's envelope is in flight; it was pushed onto her socket. -/
theorem no_stranded_sample : ∃ c : RelayConfig Nat, Resting c ∧ sampleRow c ≠ none ∧
    ∀ env ∈ queueOf (U := Nat) AppState.sampleRid c.shared.app, PushedTo 0 env c.shared := by
  obtain ⟨c₀, r₀, hp⟩ := exists_run (M := relayMachine sampleCrates) (G := anyMove)
    (c := started (U := Nat) AppState.sampleState)
    (bothOnline ++ handled 2 3 sampleSend ++ handled 1 4 (sampleHello false))
    (p := fun c => decide (helloAt 1 c = some (true, aliceAgain, AppState.sampleRid)) &&
      !flushFails (U := Nat) AppState.sampleRid (sampleEvent (sampleHello false)) c.shared.app &&
      decide (∀ t ∈ c.pool, ∀ env, t.inFlight = some env →
        (env.toId = AppState.sampleRid → PushedTo 0 env c.shared)) &&
      ((relayMachine sampleCrates).next (.act 1 (.run (sampleEvent (sampleHello false)))) c).any
        fun c₁ => ((relayMachine sampleCrates).exec
          (fun c mv => ChanReady 0 c ∧ FindsRoute 0 AppState.sampleRid c mv)
          (handled 1 2 (sampleHello false) ++ handled 2 10 sampleSend) c₁).any fun c =>
            decide (Resting c ∧ sampleRow c ≠ none)) (by decide +kernel)
  obtain ⟨hp, hexec⟩ := Bool.and_eq_true_iff.mp hp
  obtain ⟨hp, hfly⟩ := Bool.and_eq_true_iff.mp hp
  obtain ⟨hat, hok⟩ := Bool.and_eq_true_iff.mp hp
  obtain ⟨n, hi⟩ := pool_of_helloAt (of_decide_eq_true hat)
  obtain ⟨c₁, hn, hexec⟩ := (Option.any_eq_true _ _).mp hexec
  obtain ⟨c, r, hend⟩ := exists_run _ hexec
  obtain ⟨hrest, hrow⟩ := of_decide_eq_true hend
  have hcov : FlushCovers 0 AppState.sampleRid (sampleEvent (sampleHello false)) c₀ := by
    refine ⟨fun hfails => ?_, of_decide_eq_true hfly⟩
    rw [hfails] at hok
    cases hok
  refine ⟨c, hrest, hrow, no_stranded keysOk_empty OrdMap.all_empty r₀ hi hcov hn r ?_⟩
  intro t ht
  have hidle := hrest t (List.mem_of_getElem? ht)
  unfold RelayTask.pushing
  split
  · cases hidle
  · rfl

/-- Bob finds no route, Alice says Hello and her queue is flushed, and then Bob's envelope is
    committed. -/
theorem stranded : ¬∀ (C : Crates) (st : AppState) (c₀ c : RelayConfig Nat) (i n : Nat)
    (s : Socket) (m : RecipientId), KeysOk Nat st.queues.envelopes →
    (st.mailboxAuth.All fun m _ => NameOk m) →
    Run (relayMachine C) CallsSucceed (started st) c₀ →
    c₀.pool[i]? = some (.socket s (.helloOnline m n)) →
    Run (relayMachine C) (HelloAndSenders i s.sid m) c₀ c → Resting c →
    ∀ env ∈ queueOf (U := Nat) m c.shared.app, PushedTo s.sid env c.shared := by
  intro hall
  obtain ⟨c₀, r₀, hp⟩ := exists_run (M := relayMachine sampleCrates) (G := CallsSucceed)
    (c := started (U := Nat) AppState.sampleState) (aliceRegistered ++ handled 1 3 (sampleHello false))
    (p := fun c => decide (helloAt 1 c = some (false, aliceAgain, AppState.sampleRid)) &&
      ((relayMachine sampleCrates).exec (HelloAndSenders 1 0 AppState.sampleRid)
        (handled 2 3 sampleSend ++ handled 1 4 (sampleHello false) ++ handled 2 10 sampleSend)
        c).any fun c => decide (Resting c) && (sampleRow c).any fun v =>
          decide (¬PushedTo 0 (toEnvelope AppState.sampleRid (1, v)) c.shared)) (by decide +kernel)
  obtain ⟨hat, hexec⟩ := Bool.and_eq_true_iff.mp hp
  obtain ⟨n, hi⟩ := pool_of_helloAt (of_decide_eq_true hat)
  obtain ⟨c, r, hend⟩ := exists_run _ hexec
  obtain ⟨hrest, hrow⟩ := Bool.and_eq_true_iff.mp hend
  obtain ⟨v, hv, hno⟩ := (Option.any_eq_true _ _).mp hrow
  have r₁ : Run (relayMachine sampleCrates) anyMove (started AppState.sampleState) c₀ :=
    r₀.mono fun _ _ _ => trivial
  have hnamed : Named c := (r₁.trans (r.mono fun _ _ _ => trivial)).invariant
    (named_start keysOk_empty OrdMap.all_empty) fun c mv c' h _ hm => h.step (moved_of_next hm)
  exact of_decide_eq_true hno (hall _ _ c₀ c 1 n aliceAgain _ keysOk_empty OrdMap.all_empty r₀ hi r
    (of_decide_eq_true hrest) _ (queueOf_of_sampleRow hnamed hv))

end AxenoRelay
