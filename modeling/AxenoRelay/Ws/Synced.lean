/-
  What a Synced frame says.

  A Hello flushes the queue of its mailbox, pushes every envelope with an awaited send, and
  then the marker with their number. An awaited send fails on a closed channel only, and a
  closed channel takes no marker: so a Synced frame that is on a channel comes after the
  whole backlog, in the order of the queue, and counts it.
-/
import AxenoRelay.Ws.Acked
import AxenoRelay.Ws.Conversation

namespace AxenoRelay

open Interleave QueueStore

section

variable {U : Type}

/-- The frames that have gone through the channel of socket `sid`. -/
def Relay.framesOn (w : Relay U) (sid : Nat) : List (ServerFrame U) := w.through some sid

/-- The channel of socket `sid` has lost its receiving end. -/
def Relay.Closed (w : Relay U) (sid : Nat) : Prop :=
  ∃ ch, w.chans[sid]? = some ch ∧ ch.isOpen = false

/-- The envelopes that the flush of a Hello hands over: none, if it fails or is not run. -/
def flushResult [UuidText U] (e : RelayEvent U) (w : Relay U) (rid : RecipientId) :
    List (StoredEnvelope U) :=
  if e.notRun then []
  else
    match ((flush U rid).commit e.store.faults w.app.queues.envelopes).1 with
    | .ok envs => envs
    | .error _ => []

/-- The rows of the mailbox in the order they were queued, or nothing. -/
theorem flushResult_cases [UuidText U] (e : RelayEvent U) (w : Relay U) (rid : RecipientId) :
    flushResult e w rid = [] ∨
      flushResult e w rid = (queueRows U rid w.app.queues.envelopes).map (toEnvelope rid) := by
  unfold flushResult
  split_ifs
  · exact Or.inl rfl
  · rcases flush_cases (U := U) rid e.store.faults w.app.queues.envelopes with ⟨err, he⟩ | he
    · rw [he]
      exact Or.inl rfl
    · rw [he]
      exact Or.inr rfl

/-- The socket at place `i`, with channel `sid`, flushed a mailbox when the channel had carried
    `start`, and was handed `envs`. -/
inductive FlushedTo [UuidText U] (i sid : Nat) (envs : List (StoredEnvelope U))
    (start : List (ServerFrame U)) (h : RelayPast U) : Prop
  | flushed (h₁ : RelayPast U) (c₁ : RelayConfig U) (e : RelayEvent U) (s : Socket)
      (rid : RecipientId) (selected : Nat) (hpast : (c₁, .act i (.run e)) :: h₁ <:+ h)
      (hpc : c₁.pool[i]? = some (.socket s (.helloFlush rid selected))) (hsid : s.sid = sid)
      (henvs : envs = flushResult e c₁.shared rid) (hstart : start = c₁.shared.framesOn sid)

/-- Of a flush, `done` has gone through the channel in order, and `rest` is left. -/
def HandedOver [UuidText U] (i sid : Nat) (done rest : List (StoredEnvelope U))
    (frames : List (ServerFrame U)) (h : RelayPast U) : Prop :=
  ∃ start l, FlushedTo i sid (done ++ rest) start h ∧ frames = start ++ l ∧
    (done.map ServerFrame.envelope).Sublist l

end

/-! ## One step -/

section

variable {U : Type} [UuidText U] {C : Crates} {e : RelayEvent U}

omit [UuidText U] in
theorem Relay.Closed.say {w : Relay U} {sid : Nat} (h : w.Closed sid) (j : Nat)
    (f : ServerFrame U) : (w.say j f).Closed sid := by
  obtain ⟨ch, hch, hopen⟩ := h
  rcases SocketPc.trySend_cases w j f with ⟨ch', hch', heq⟩ | ⟨heq, _⟩
  · rw [Relay.say, heq]
    by_cases hj : j = sid
    · subst hj
      obtain rfl := Option.some.inj (hch'.symm.trans hch)
      exact ⟨_, List.getElem?_set_self (List.getElem?_eq_some_iff.mp hch).1, hopen⟩
    · exact ⟨ch, (List.getElem?_set_ne hj).trans hch, hopen⟩
  · rw [Relay.say, heq]
    exact ⟨ch, hch, hopen⟩

omit [UuidText U] in
theorem Relay.Closed.push {w w' : Relay U} {sid : Nat} (h : w.Closed sid) {j : Nat} {ch : Chan U}
    {f : ServerFrame U} (hch : w.chans[j]? = some ch)
    (hw : w'.chans = w.chans.set j (ch.push f)) : w'.Closed sid := by
  obtain ⟨ch', hch', hopen⟩ := h
  unfold Relay.Closed
  rw [hw]
  by_cases hj : j = sid
  · subst hj
    obtain rfl := Option.some.inj (hch.symm.trans hch')
    exact ⟨_, List.getElem?_set_self (List.getElem?_eq_some_iff.mp hch).1, hopen⟩
  · exact ⟨ch', (List.getElem?_set_ne hj).trans hch', hopen⟩

theorem SocketPc.Stepped.closed {s s' : Socket} {pc pc' : SocketPc U} {w w' : Relay U}
    (hs : SocketPc.Stepped C e s pc w s' pc' w') {sid : Nat} (h : w.Closed sid) :
    w'.Closed sid := by
  cases hs
  case said => exact h.say _ _
  case helloOk => exact h.say _ _
  case helloPush ch hch => exact h.push hch rfl
  case helloSynced ch hch => exact h.push hch rfl
  case sendPushed ch _ _ hch => exact h.push hch rfl
  case closeEnd =>
    obtain ⟨ch, hch, hopen⟩ := h
    refine ⟨if s.sid = sid then { ch with isOpen := false } else ch, ?_, ?_⟩
    · rw [List.getElem?_modify, hch]
      split_ifs <;> rfl
    · split_ifs
      · rfl
      · exact hopen
  all_goals exact h

theorem Moved.closed {c c' : RelayConfig U} {mv : Move (RelayMove U)} (hm : Moved C c mv c')
    {sid : Nat} (h : c.shared.Closed sid) : c'.shared.Closed sid := by
  obtain ⟨ch, hch, hopen⟩ := h
  have hlt : sid < c.shared.chans.length := (List.getElem?_eq_some_iff.mp hch).1
  cases hm with
  | spawned ev t c w hs =>
    cases hs
    case connect => exact ⟨ch, (List.getElem?_append_left hlt).trans hch, hopen⟩
    all_goals exact ⟨ch, hch, hopen⟩
  | wrote ev c w hs =>
    cases hs with
    | drain j ch' _ hch' =>
      by_cases hj : j = sid
      · subst hj
        obtain rfl := Option.some.inj (hch'.symm.trans hch)
        exact ⟨_, List.getElem?_set_self hlt, hopen⟩
      · exact ⟨ch, (List.getElem?_set_ne hj).trans hch, hopen⟩
    | drop j =>
      refine ⟨if j = sid then { ch with isOpen := false } else ch, ?_, ?_⟩
      · rw [List.getElem?_modify, hch]
        split_ifs <;> rfl
      · split_ifs
        · rfl
        · exact hopen
  | stepped i e t t' c w ht hs =>
    cases hs with
    | socket s s' pc pc' _ _ hs => exact hs.closed ⟨ch, hch, hopen⟩
    | _ => exact ⟨ch, hch, hopen⟩

omit [UuidText U] in
theorem SocketPc.awaitSend_closed {w : Relay U} {sid : Nat} (h : w.Closed sid)
    (f : ServerFrame U) : awaitSend w sid f = some (false, w) := by
  obtain ⟨ch, hch, hopen⟩ := h
  unfold awaitSend
  rw [hch]
  simp [hopen]

/-- What a step adds to the channels, other than the last frame of a Hello. -/
theorem SocketPc.Stepped.framesOn {s s' : Socket} {pc pc' : SocketPc U} {w w' : Relay U}
    (hs : SocketPc.Stepped C e s pc w s' pc' w') (hok : ∀ rid v b, pc ≠ .helloOk rid v b)
    (hdone : ∀ d v, pc ≠ .helloSynced d v) (hrep : ∀ f ∈ pc.offers e w, f.isReply = true)
    (sid : Nat) :
    ∃ l, w'.framesOn sid = w.framesOn sid ++ l ∧ ∀ n, ServerFrame.synced n ∉ l := by
  -- a push of one frame
  have hpush : ∀ {f : ServerFrame U} {p : Prop} [Decidable p],
      w'.framesOn sid = w.framesOn sid ++ (if p then [f] else []) → (∀ n, f ≠ .synced n) →
        ∃ l, w'.framesOn sid = w.framesOn sid ++ l ∧ ∀ n, ServerFrame.synced n ∉ l := by
    intro f p _ heq hf
    refine ⟨_, heq, fun n hmem => ?_⟩
    split_ifs at hmem
    · exact hf n (List.mem_singleton.mp hmem).symm
    · cases hmem
  have hsame : w'.framesOn sid = w.framesOn sid →
      ∃ l, w'.framesOn sid = w.framesOn sid ++ l ∧ ∀ n, ServerFrame.synced n ∉ l :=
    fun heq => ⟨[], by rw [heq, List.append_nil], fun _ hmem => by cases hmem⟩
  cases hs
  case said f last =>
    refine hpush (through_say some w s.sid f sid) fun n hf => ?_
    rw [hf] at hrep
    cases hrep _ (List.mem_singleton_self _)
  case helloOk => exact absurd rfl (hok _ _ _)
  case helloSynced => exact absurd rfl (hdone _ _)
  case helloPush ch hch => exact hpush (through_push some hch rfl sid) fun n hf => by cases hf
  case sendPushed ch _ _ hch => exact hpush (through_push some hch rfl sid) fun n hf => by cases hf
  case closeEnd => exact hsame (through_close some s.sid rfl sid)
  all_goals exact hsame rfl

variable [DecidableEq U]

/-- What a step adds to the channels: the marker is added by a Hello that is done, on its own
    channel, and that channel is open. -/
theorem SocketPc.step_framesOn {s s' : Socket} {pc pc' : SocketPc U} {w w' : Relay U}
    (hs : SocketPc.step C e s w pc = some (s', pc', w'))
    (hrep : ∀ f ∈ pc.offers e w, f.isReply = true) (sid : Nat) :
    ∃ l, w'.framesOn sid = w.framesOn sid ++ l ∧ ((∀ n, ServerFrame.synced n ∉ l) ∨
      ∃ d v, pc = .helloSynced d v ∧ sid = s.sid ∧ l = [.synced d] ∧ ¬ w.Closed s.sid) := by
  have hst := SocketPc.stepped_of_step hs
  by_cases hok : ∃ rid v b, pc = .helloOk rid v b
  · obtain ⟨rid, v, b, rfl⟩ := hok
    cases hs
    refine ⟨_, through_say some w s.sid _ sid, Or.inl fun n hmem => ?_⟩
    split_ifs at hmem
    · cases List.mem_singleton.mp hmem
    · cases hmem
  by_cases hdone : ∃ d v, pc = .helloSynced d v
  · obtain ⟨d, v, rfl⟩ := hdone
    have hquiet : w' = w → ∃ l, w'.framesOn sid = w.framesOn sid ++ l ∧
        ((∀ n, ServerFrame.synced n ∉ l) ∨ ∃ d' v', SocketPc.helloSynced (U := U) d v =
          .helloSynced d' v' ∧ sid = s.sid ∧ l = [.synced d'] ∧ ¬ w.Closed s.sid) := by
      rintro rfl
      exact ⟨[], (List.append_nil _).symm, Or.inl fun n hmem => by cases hmem⟩
    simp only [SocketPc.step] at hs
    split_ifs at hs
    · obtain ⟨⟨b, w₁⟩, hsend, heq⟩ := Option.map_eq_some_iff.mp hs
      cases heq
      rcases SocketPc.awaitSend_cases hsend with ⟨rfl, ch, hch, rfl⟩ | ⟨_, rfl, _⟩
      · refine ⟨_, through_push some hch rfl sid, ?_⟩
        by_cases hsid : sid = s.sid
        · refine Or.inr ⟨d, v, rfl, hsid, if_pos hsid, fun hclosed => ?_⟩
          rw [SocketPc.awaitSend_closed hclosed] at hsend
          cases hsend
        · rw [if_neg hsid]
          exact Or.inl fun n hmem => by cases hmem
      · exact hquiet rfl
    · cases hs
      exact hquiet rfl
  · obtain ⟨l, heq, hl⟩ := hst.framesOn (fun rid v b h => hok ⟨rid, v, b, h⟩)
      (fun d v h => hdone ⟨d, v, h⟩) hrep sid
    exact ⟨l, heq, Or.inl hl⟩

/-- A handler that has envelopes to push has just flushed them, or has pushed one more. -/
theorem SocketPc.step_pushing {s s' : Socket} {pc : SocketPc U} {rest : List (StoredEnvelope U)}
    {d v : Nat} {w w' : Relay U}
    (hs : SocketPc.step C e s w pc = some (s', .helloPush rest d v, w')) :
    (∃ rid, pc = .helloFlush rid v ∧ d = 0 ∧ rest = flushResult e w rid ∧ w' = w) ∨
      ∃ env d', pc = .helloPush (env :: rest) d' v ∧ d = d' + 1 ∧
        w'.framesOn s.sid = w.framesOn s.sid ++ [.envelope env] := by
  by_cases hflush : ∃ rid n, pc = .helloFlush rid n
  · obtain ⟨rid, n, rfl⟩ := hflush
    cases hs
    exact Or.inl ⟨rid, rfl, rfl, rfl, rfl⟩
  · have hst := SocketPc.stepped_of_step hs
    generalize hpc' : SocketPc.helloPush rest d v = pc' at hst
    cases hst
    case inner h =>
      have htarget := h.target
      rw [← hpc'] at htarget
      exact htarget.elim
    case said last => cases last <;> cases hpc'
    case helloOk b _ => cases b <;> cases hpc'
    case helloFlush rid n _ _ => exact absurd ⟨rid, _, rfl⟩ hflush
    case helloPush hch =>
      cases hpc'
      refine Or.inr ⟨_, _, rfl, rfl, ?_⟩
      rw [Relay.framesOn, through_push some hch rfl, if_pos rfl]
      rfl
    all_goals cases hpc'

/-- A Hello sends its marker once nothing is left to push, or the channel is closed. -/
theorem SocketPc.step_marking {s s' : Socket} {pc : SocketPc U} {d v : Nat} {w w' : Relay U}
    (hs : SocketPc.step C e s w pc = some (s', .helloSynced d v, w')) : w' = w ∧
      ∃ rest, pc = .helloPush rest d v ∧
        (rest = [] ∨ ∀ ch, w.chans[s.sid]? = some ch → ch.isOpen = false) := by
  have hst := SocketPc.stepped_of_step hs
  generalize hpc' : SocketPc.helloSynced d v = pc' at hst
  cases hst
  case inner h =>
    have htarget := h.target
    rw [← hpc'] at htarget
    exact htarget.elim
  case said last => cases last <;> cases hpc'
  case helloOk b _ => cases b <;> cases hpc'
  case helloStop rest _ _ h =>
    cases hpc'
    exact ⟨rfl, rest, rfl, h⟩
  all_goals cases hpc'

end

/-! ## Runs -/

section

variable {U : Type} [UuidText U] {C : Crates} {h h' : RelayPast U} {c c' : RelayConfig U}
  {mv : Move (RelayMove U)} {i sid : Nat} {envs done rest : List (StoredEnvelope U)}
  {frames start : List (ServerFrame U)}

theorem FlushedTo.later (hf : FlushedTo i sid envs start h) (hl : h <:+ h') :
    FlushedTo i sid envs start h' := by
  obtain ⟨h₁, c₁, e, s, rid, selected, hpast, hpc, hsid, henvs, hstart⟩ := hf
  exact ⟨h₁, c₁, e, s, rid, selected, hpast.trans hl, hpc, hsid, henvs, hstart⟩

theorem HandedOver.later (hd : HandedOver i sid done rest frames h) (hl : h <:+ h') :
    HandedOver i sid done rest frames h' := by
  obtain ⟨start, l, hf, heq, hsub⟩ := hd
  exact ⟨start, l, hf.later hl, heq, hsub⟩

/-- Other frames may go through the channel in between. -/
theorem HandedOver.grow (hd : HandedOver i sid done rest frames h) (l : List (ServerFrame U)) :
    HandedOver i sid done rest (frames ++ l) h := by
  obtain ⟨start, l₀, hf, rfl, hsub⟩ := hd
  refine ⟨start, l₀ ++ l, hf, List.append_assoc _ _ _, ?_⟩
  exact hsub.trans (List.sublist_append_left l₀ l)

theorem HandedOver.next {env : StoredEnvelope U} (hd : HandedOver i sid done (env :: rest) frames h) :
    HandedOver i sid (done ++ [env]) rest (frames ++ [.envelope env]) h := by
  obtain ⟨start, l, hf, rfl, hsub⟩ := hd
  refine ⟨start, l ++ [.envelope env], ?_, List.append_assoc _ _ _, ?_⟩
  · rwa [List.append_assoc, List.singleton_append]
  · rw [List.map_append]
    exact hsub.append (List.Sublist.refl _)

/-- The place of a frame in a channel that has grown. -/
theorem split_grown {α : Type} {a : α} {old l pre post : List α}
    (heq : old ++ l = pre ++ a :: post) :
    (∃ mid, old = pre ++ a :: mid) ∨ ∃ mid, l = mid ++ a :: post ∧ pre = old ++ mid := by
  rcases List.append_eq_append_iff.mp heq with ⟨mid, hpre, hl⟩ | ⟨mid, hold, hmid⟩
  · exact Or.inr ⟨mid, hl, hpre⟩
  · cases mid with
    | nil => exact Or.inr ⟨[], hmid.symm, by rw [hold, List.append_nil, List.append_nil]⟩
    | cons b mid =>
      obtain ⟨rfl, _⟩ := List.cons.inj hmid
      exact Or.inl ⟨mid, hold⟩

/-- What is known of the Hellos at work and of the markers on the channels. -/
structure CaughtUp (C : Crates) (h : RelayPast U) (c : RelayConfig U) : Prop where
  conv : Conversing C h c
  pushing : ∀ (i : Nat) (s : Socket) (rest : List (StoredEnvelope U)) (d v : Nat),
    c.pool[i]? = some (.socket s (.helloPush rest d v)) →
      ∃ done, d = done.length ∧ HandedOver i s.sid done rest (c.shared.framesOn s.sid) h
  marking : ∀ (i : Nat) (s : Socket) (d v : Nat),
    c.pool[i]? = some (.socket s (.helloSynced d v)) → c.shared.Closed s.sid ∨
      ∃ done, d = done.length ∧ HandedOver i s.sid done [] (c.shared.framesOn s.sid) h
  marked : ∀ (sid n : Nat) (pre post : List (ServerFrame U)),
    c.shared.framesOn sid = pre ++ .synced n :: post →
      ∃ i done, n = done.length ∧ HandedOver i sid done [] pre h

theorem caughtUp_start {st : AppState} (hids : st.bundles.All fun k b => b.id = k) :
    CaughtUp C [] (started st : RelayConfig U) := by
  have hpool : ∀ (i : Nat) (s : Socket) (pc : SocketPc U),
      (started st : RelayConfig U).pool[i]? ≠ some (.socket s pc) := by
    intro i s pc h
    cases List.mem_singleton.mp (List.mem_of_getElem? h)
  refine ⟨conversing_start hids, fun i s rest d v hi => absurd hi (hpool i s _),
    fun i s d v hi => absurd hi (hpool i s _), fun sid n pre post heq => ?_⟩
  have hnil : ([] : List (ServerFrame U)) = pre ++ .synced n :: post := heq
  cases pre <;> cases hnil

variable [DecidableEq U]

/-- A move that leaves the channels as they are. -/
theorem CaughtUp.quiet (hc : CaughtUp C h c) (hn : (relayMachine C).next mv c = some c')
    (hpool : ∀ (i : Nat) (s : Socket) (pc : SocketPc U), c'.pool[i]? = some (.socket s pc) →
      c.pool[i]? = some (.socket s pc) ∨ pc = .ready)
    (hframes : ∀ sid, c'.shared.framesOn sid = c.shared.framesOn sid) :
    CaughtUp C ((c, mv) :: h) c' := by
  have hlater : h <:+ (c, mv) :: h := List.suffix_cons _ _
  refine ⟨hc.conv.step hn, fun i s rest d v hi => ?_, fun i s d v hi => ?_,
    fun sid n pre post heq => ?_⟩
  · rw [hframes]
    rcases hpool i s _ hi with hold | hready
    · obtain ⟨done, hd, hand⟩ := hc.pushing i s rest d v hold
      exact ⟨done, hd, hand.later hlater⟩
    · cases hready
  · rw [hframes]
    rcases hpool i s _ hi with hold | hready
    · refine (hc.marking i s d v hold).imp (fun hclosed => (moved_of_next hn).closed hclosed) ?_
      rintro ⟨done, hd, hand⟩
      exact ⟨done, hd, hand.later hlater⟩
    · cases hready
  · rw [hframes] at heq
    obtain ⟨i, done, hd, hand⟩ := hc.marked sid n pre post heq
    exact ⟨i, done, hd, hand.later hlater⟩

theorem CaughtUp.socket_step (hc : CaughtUp C h c) {j : Nat} {e : RelayEvent U} {s₀ s₁ : Socket}
    {pc₀ pc₁ : SocketPc U} {w : Relay U} (ht : c.pool[j]? = some (.socket s₀ pc₀))
    (hstep : SocketPc.step C e s₀ c.shared pc₀ = some (s₁, pc₁, w))
    (hn : (relayMachine C).next (.act j (.run e)) c = some ⟨w, c.pool.set j (.socket s₁ pc₁)⟩) :
    CaughtUp C ((c, .act j (.run e)) :: h) ⟨w, c.pool.set j (.socket s₁ pc₁)⟩ := by
  have hm := moved_of_next hn
  have hlater : h <:+ (c, .act j (.run e)) :: h := List.suffix_cons _ _
  have hst := SocketPc.stepped_of_step hstep
  have hsid : s₁.sid = s₀.sid := hst.sid
  have hrep := ((hc.conv.socket j s₀ pc₀ ht).1.step hc.conv.ids hstep).2
  have hgrow := SocketPc.step_framesOn hstep hrep
  refine ⟨hc.conv.step hn, fun i s rest d v hi => ?_, fun i s d v hi => ?_,
    fun sid n pre post heq => ?_⟩
  · rcases getElem?_set_cases hi with ⟨rfl, heq⟩ | ⟨_, hold⟩
    · cases heq
      rcases SocketPc.step_pushing hstep with ⟨rid, rfl, rfl, rfl, rfl⟩ | ⟨env, d', rfl, rfl, hpush⟩
      · refine ⟨[], rfl, c.shared.framesOn s₀.sid, [], ?_, ?_, List.Sublist.refl _⟩
        · exact .flushed h c e s₀ rid v (List.suffix_refl _) ht hsid.symm rfl (by rw [hsid])
        · rw [hsid, List.append_nil]
      · obtain ⟨done, rfl, hand⟩ := hc.pushing _ s₀ _ d' v ht
        refine ⟨done ++ [env], by rw [List.length_append, List.length_singleton], ?_⟩
        dsimp only
        rw [hsid, hpush]
        exact hand.next.later hlater
    · obtain ⟨done, hd, hand⟩ := hc.pushing i s rest d v hold
      obtain ⟨l, hl, _⟩ := hgrow s.sid
      refine ⟨done, hd, ?_⟩
      dsimp only
      rw [hl]
      exact (hand.grow l).later hlater
  · rcases getElem?_set_cases hi with ⟨rfl, heq⟩ | ⟨_, hold⟩
    · cases heq
      obtain ⟨rfl, rest, rfl, hend⟩ := SocketPc.step_marking hstep
      dsimp only
      rw [hsid]
      rcases hend with rfl | hclosed
      · obtain ⟨done, rfl, hand⟩ := hc.pushing _ s₀ _ d v ht
        exact Or.inr ⟨done, rfl, hand.later hlater⟩
      · have hlt := hc.conv.sids.lt _ s₀ _ ht
        exact Or.inl ⟨_, List.getElem?_eq_getElem hlt, hclosed _ (List.getElem?_eq_getElem hlt)⟩
    · rcases hc.marking i s d v hold with hclosed | ⟨done, hd, hand⟩
      · exact Or.inl (hm.closed hclosed)
      · obtain ⟨l, hl, _⟩ := hgrow s.sid
        refine Or.inr ⟨done, hd, ?_⟩
        dsimp only
        rw [hl]
        exact (hand.grow l).later hlater
  · obtain ⟨l, hl, hnew⟩ := hgrow sid
    dsimp only at heq
    rw [hl] at heq
    rcases split_grown heq with ⟨mid, hold⟩ | ⟨mid, rfl, rfl⟩
    · obtain ⟨i, done, hd, hand⟩ := hc.marked sid n pre mid hold
      exact ⟨i, done, hd, hand.later hlater⟩
    · -- the marker is new
      rcases hnew with hno | ⟨d, v, rfl, rfl, hone, hopen⟩
      · exact absurd (List.mem_append_right mid List.mem_cons_self) (hno n)
      · have hmid : mid = [] ∧ n = d := by
          cases mid with
          | nil => exact ⟨rfl, by cases hone; rfl⟩
          | cons b mid => cases mid <;> cases hone
        obtain ⟨rfl, rfl⟩ := hmid
        rcases hc.marking j s₀ n v ht with hclosed | ⟨done, hd, hand⟩
        · exact absurd hclosed hopen
        · refine ⟨j, done, hd, ?_⟩
          rw [List.append_nil]
          exact hand.later hlater

theorem CaughtUp.step (hc : CaughtUp C h c) (hn : (relayMachine C).next mv c = some c') :
    CaughtUp C ((c, mv) :: h) c' := by
  have hm := moved_of_next hn
  cases hm with
  | spawned ev t c w hs =>
    refine hc.quiet hn (fun i s pc hi => ?_) fun sid => through_spawned some hs sid
    rcases getElem?_snoc_cases hi with hold | ⟨_, heq⟩
    · exact Or.inl hold
    · cases hs <;> cases heq
      exact Or.inr rfl
  | wrote ev c w hs =>
    exact hc.quiet hn (fun i s pc hi => Or.inl hi) fun sid => through_wrote some hs sid
  | stepped j e t t' c w ht hs =>
    -- a task that is not a socket
    have hquiet : (∀ s pc, t' ≠ .socket s pc) → w.chans = c.shared.chans →
        CaughtUp C ((c, .act j (.run e)) :: h) ⟨w, c.pool.set j t'⟩ := by
      intro hno hchans
      refine hc.quiet hn (fun i s pc hi => Or.inl ?_) fun sid => through_same some hchans sid
      rcases getElem?_set_cases hi with ⟨_, heq⟩ | ⟨_, hold⟩
      · exact absurd heq.symm (hno s pc)
      · exact hold
    cases hs with
    | socket s₀ s₁ pc₀ pc₁ _ _ hs =>
      have hstep : SocketPc.step C e s₀ c.shared pc₀ = some (s₁, pc₁, w) := by
        obtain ⟨r, hr, heq⟩ := Option.map_eq_some_iff.mp (step_of_next ht hn)
        cases heq
        exact hr
      exact hc.socket_step ht hstep hn
    | flush => exact hquiet (fun _ _ => by simp) rfl
    | gc => exact hquiet (fun _ _ => by simp) rfl
    | sweepQueues => exact hquiet (fun _ _ => by simp) rfl
    | sweepFiles => exact hquiet (fun _ _ => by simp) rfl

end

/-! ## A run -/

end AxenoRelay
