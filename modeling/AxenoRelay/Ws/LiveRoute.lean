/-
  A connected receiver keeps its live route.

  Three handlers remove a route some steps after they decided to: SendEnvelope after
  a failed push, the teardown after its `same_channel` check, RetireMailbox from its
  receipt on. `dropsRoute` names the mailbox whose route such a handler is about to
  remove. `disturbs` names the steps that go wrong: a push that fails because a live
  channel is full, and a Hello that publishes a route which one of these handlers is
  about to remove. In a run without such a step the socket that published last keeps
  its route while it runs (`live_route_kept`).
-/
import AxenoRelay.Ws.Routes

namespace AxenoRelay

open Interleave

section

variable {U : Type}

/-! ## Running sockets -/

/-- Is the handler still in the frame loop? -/
def SocketPc.looping : SocketPc U → Bool
  | closeLook | closeRemove _ | closeEnd | closed => false
  | _ => true

def RelayTask.loops (sid : Nat) : RelayTask U → Bool
  | socket s pc => decide (s.sid = sid) && pc.looping
  | _ => false

/-- The frame loop and the writer task of socket `sid` are running. -/
def running (c : RelayConfig U) (sid : Nat) : Bool :=
  c.pool.any (RelayTask.loops sid) && (c.shared.chans[sid]?).any Chan.isOpen

/-! ## Steps that go wrong -/

/-- Is the handler about to remove the route of `m`? -/
def SocketPc.dropsRoute (m : RecipientId) : SocketPc U → Bool
  | sendStale _ env => decide (env.toId = m)
  | closeRemove rid | retireCount rid | retirePurge rid _ | retireRate rid | retireOnline rid =>
    decide (rid = m)
  | _ => false

def RelayTask.dropsRoute (m : RecipientId) : RelayTask U → Bool
  | socket _ pc => pc.dropsRoute m
  | _ => false

/-- Does this step find the channel of a running socket full, or publish a route that another
    handler is about to remove? -/
def RelayTask.disturbs (c : RelayConfig U) : RelayTask U → Bool
  | socket _ (.sendLive _ m _ _) =>
    (c.shared.app.online.get m).any fun sid =>
      running c sid && !(c.shared.chans[sid]?).all Chan.hasRoom
  | socket _ (.helloOnline m _) => c.pool.any (RelayTask.dropsRoute m)
  | _ => false

/-- No step disturbs a route. -/
def SparesRoutes (c : RelayConfig U) : Move (RelayMove U) → Prop
  | .act i (.run _) => ∀ t, c.pool[i]? = some t → t.disturbs c = false
  | _ => True

instance (c : RelayConfig U) : ∀ m, Decidable (SparesRoutes c m)
  | .act _ (.run _) => decidableForallSome _ _
  | .act _ (.connect _) | .act _ .gc | .act _ .sweepQueues | .act _ .sweepFiles
  | .act _ (.drain _) | .act _ (.drop _) | .spawn _ | .env _ => isTrue trivial

/-! ## Who published last -/

/-- The socket that published a route for `m` last, unless a RetireMailbox for `m` was
    received since. -/
def publisher (m : RecipientId) : RelayPast U → Option Nat
  | [] => none
  | (c, .act i (.run e)) :: h =>
    match c.pool[i]? with
    | some (.socket s (.helloOnline rid _)) => if rid = m then some s.sid else publisher m h
    | some (.socket s .ready) =>
      match e.incoming with
      | .text _ (.ok .retireMailbox) =>
        if s.recipientId = some m then none else publisher m h
      | _ => publisher m h
    | _ => publisher m h
  | _ :: h => publisher m h

variable {c : RelayConfig U} {h : RelayPast U} {i : Nat} {e : RelayEvent U} {m : RecipientId}

theorem publisher_spawn (ev : RelayMove U) : publisher m ((c, .spawn ev) :: h) = publisher m h :=
  rfl

theorem publisher_env (ev : RelayMove U) : publisher m ((c, .env ev) :: h) = publisher m h := rfl

theorem publisher_hello {s : Socket} {n : Nat}
    (ht : c.pool[i]? = some (.socket s (.helloOnline m n))) :
    publisher m ((c, .act i (.run e)) :: h) = some s.sid := by
  rw [publisher, ht]
  exact if_pos rfl

theorem publisher_retire {s : Socket} {k : Nat} (ht : c.pool[i]? = some (.socket s .ready))
    (hin : e.incoming = .text k (.ok .retireMailbox)) (hrid : s.recipientId = some m) :
    publisher m ((c, .act i (.run e)) :: h) = none := by
  rw [publisher, ht]
  dsimp only
  rw [hin]
  exact if_pos hrid

/-- The publisher after a move was it before, or has just published. -/
theorem publisher_cases {sid : Nat} {mv : Move (RelayMove U)}
    (hp : publisher m ((c, mv) :: h) = some sid) :
    publisher m h = some sid ∨ ∃ i e s n, mv = .act i (.run e) ∧
      c.pool[i]? = some (.socket s (.helloOnline m n)) ∧ s.sid = sid := by
  unfold publisher at hp
  split at hp
  · rename_i heq
    cases heq
  · rename_i heq
    cases heq
    split at hp
    · rename_i ht
      split_ifs at hp with hm
      · subst hm
        exact Or.inr ⟨_, _, _, _, rfl, ht, Option.some.inj hp⟩
      · exact Or.inl hp
    · split at hp
      · split_ifs at hp
        exact Or.inl hp
      · exact Or.inl hp
    · exact Or.inl hp
  · rename_i heq
    cases heq
    exact Or.inl hp

theorem running_iff {sid : Nat} : running c sid = true ↔
    (∃ (i : Nat) (s : Socket) (pc : SocketPc U), c.pool[i]? = some (.socket s pc) ∧ s.sid = sid ∧
      pc.looping = true) ∧ ∃ ch, c.shared.chans[sid]? = some ch ∧ ch.isOpen = true := by
  have hloops : (∃ t ∈ c.pool, t.loops sid = true) ↔
      ∃ (i : Nat) (s : Socket) (pc : SocketPc U), c.pool[i]? = some (.socket s pc) ∧
        s.sid = sid ∧ pc.looping = true := by
    constructor
    · rintro ⟨t, ht, hl⟩
      obtain ⟨i, hi⟩ := List.mem_iff_getElem?.mp ht
      cases t with
      | socket s pc =>
        simp only [RelayTask.loops, Bool.and_eq_true, decide_eq_true_eq] at hl
        exact ⟨i, s, pc, hi, hl⟩
      | _ => cases hl
    · rintro ⟨i, s, pc, hi, hsid, hl⟩
      refine ⟨_, List.mem_of_getElem? hi, ?_⟩
      simp only [RelayTask.loops, hsid, decide_true, Bool.true_and, hl]
  rw [running, Bool.and_eq_true, List.any_eq_true, hloops, Option.any_eq_true]

/-! ## One step -/

/-- A step that takes the route of `m` away is one that was about to. -/
theorem SocketPc.drops_of_edit {s : Socket} {pc : SocketPc U} {m : RecipientId}
    (h : pc.routeEdit s = some (m, none)) : pc.dropsRoute m = true := by
  cases pc <;> cases h <;> exact decide_eq_true rfl

theorem SocketPc.Plain.keepsRoute {pc : SocketPc U} (h : pc.Plain) :
    pc.dropsRoute m = false := by
  cases pc <;> first | rfl | exact h.elim

end

section

variable {U : Type} [UuidText U]

theorem SocketPc.Stepped.looping {C : Crates} {e : RelayEvent U} {s s' : Socket}
    {pc pc' : SocketPc U} {w w' : Relay U} (hs : SocketPc.Stepped C e s pc w s' pc' w')
    (hl : pc'.looping = true) : pc.looping = true := by
  cases hs
  case inner hin => cases hin <;> rfl
  case closeSeen => cases hl
  case closeSkipped => cases hl
  case closeRemove => cases hl
  case closeEnd => cases hl
  all_goals rfl

/-- A socket that runs after a move ran before it. -/
theorem Moved.running {C : Crates} {c c' : RelayConfig U} {mv : Move (RelayMove U)}
    (hm : Moved C c mv c') {sid : Nat} (hlt : sid < c.shared.chans.length)
    (hrun : running c' sid = true) : AxenoRelay.running c sid = true := by
  obtain ⟨⟨i, s, pc, hi, hsid, hl⟩, ch', hch', hopen⟩ := running_iff.mp hrun
  refine running_iff.mpr ⟨?_, ?_⟩
  · cases hm with
    | spawned ev t c w hs =>
      rcases getElem?_snoc_cases hi with hold | ⟨_, rfl⟩
      · exact ⟨i, s, pc, hold, hsid, hl⟩
      · cases hs
        exact absurd hsid (Nat.ne_of_gt hlt)
    | wrote ev c w hs => exact ⟨i, s, pc, hi, hsid, hl⟩
    | stepped j e t t' c w ht hs =>
      rcases getElem?_set_cases hi with ⟨rfl, rfl⟩ | ⟨_, hold⟩
      · cases hs with
        | socket s₀ _ pc₀ _ _ _ hstep =>
          exact ⟨i, s₀, pc₀, ht, hstep.sid.symm.trans hsid, hstep.looping hl⟩
      · exact ⟨i, s, pc, hold, hsid, hl⟩
  · have hch := List.getElem?_eq_getElem hlt
    obtain ⟨ch₁, hch₁, hlater⟩ := hm.later sid _ hch
    rw [hch'] at hch₁
    cases hch₁
    exact ⟨_, hch, hlater.closed hopen⟩

/-- A handler comes to drop a route after a failed push, on a RetireMailbox, or when its
    teardown finds its own route. -/
theorem SocketPc.Stepped.drops_cases {C : Crates} {e : RelayEvent U} {s s' : Socket}
    {pc pc' : SocketPc U} {w w' : Relay U} (hs : SocketPc.Stepped C e s pc w s' pc' w')
    {m : RecipientId} (hd : pc'.dropsRoute m = true) :
    pc.dropsRoute m = true ∨
    (∃ r ty ct sid, pc = .sendLive r m ty ct ∧ w.app.online.get m = some sid ∧
      ∀ ch, w.chans[sid]? = some ch → (ch.isOpen && ch.hasRoom) = false) ∨
    (∃ k, pc = .ready ∧ e.incoming = .text k (.ok .retireMailbox) ∧ s.recipientId = some m) ∨
    (pc = .closeLook ∧ w.app.online.get m = some s.sid) := by
  cases hs
  case inner hin =>
    rw [hin.target.keepsRoute] at hd
    cases hd
  case sendFailed r k ty ct sid hnew hget hc =>
    obtain rfl := of_decide_eq_true hd
    exact Or.inr (Or.inl ⟨r, ty, ct, sid, rfl, hget, hc⟩)
  case retire n rid auth hin hrid hget _ =>
    obtain rfl := of_decide_eq_true hd
    exact Or.inr (Or.inr (Or.inl ⟨n, rfl, hin, hrid⟩))
  case retireNone n rid hin hrid hget _ =>
    obtain rfl := of_decide_eq_true hd
    exact Or.inr (Or.inr (Or.inl ⟨n, rfl, hin, hrid⟩))
  case closeSeen rid hrid hget =>
    obtain rfl := of_decide_eq_true hd
    exact Or.inr (Or.inr (Or.inr ⟨rfl, hget⟩))
  case said last => cases last <;> cases hd
  case helloOk certOnly _ => cases certOnly <;> cases hd
  all_goals first | exact Or.inl hd | cases hd

/-! ## Runs -/

/-- A running publisher has its route, and no handler is about to remove it. -/
structure RoutesKept (h : RelayPast U) (c : RelayConfig U) : Prop where
  sids : SidsOk c
  known : ∀ m sid, publisher m h = some sid → sid < c.shared.chans.length
  live : ∀ m sid, publisher m h = some sid → running c sid = true →
    c.shared.app.online.get m = some sid
  spared : ∀ (i : Nat) (t : RelayTask U) (m : RecipientId) (sid : Nat), c.pool[i]? = some t →
    t.dropsRoute m = true → publisher m h = some sid → running c sid = false

omit [UuidText U] in
theorem routesKept_start (st : AppState) : RoutesKept [] (started st : RelayConfig U) :=
  ⟨sidsOk_start st, fun _ _ hp => (nomatch hp), fun _ _ hp => (nomatch hp),
    fun _ _ _ _ _ _ hp => (nomatch hp)⟩

/-- The old publisher keeps its route through a step of another handler. -/
theorem RoutesKept.route_step {C : Crates} {h : RelayPast U} {c : RelayConfig U}
    (hk : RoutesKept h c) {i : Nat} {e : RelayEvent U} {t t' : RelayTask U} {w : Relay U}
    (ht : c.pool[i]? = some t) (hs : t.Stepped C e c.shared t' w) {m : RecipientId} {sid : Nat}
    (hp : publisher m h = some sid) (hrun : running c sid = true)
    (hother : ∀ s n, t ≠ .socket s (.helloOnline m n)) : w.app.online.get m = some sid := by
  have hget := hk.live m sid hp hrun
  rw [hs.online]
  cases hedit : t.routeEdit with
  | none => exact hget
  | some edit =>
    obtain ⟨k, o⟩ := edit
    rw [editRoute, OrdMap.get_assign]
    split_ifs with hm
    · subst hm
      cases t with
      | socket s pc =>
        cases o with
        | none =>
          have hdrop := hk.spared i _ m sid ht (SocketPc.drops_of_edit hedit) hp
          rw [hrun] at hdrop
          cases hdrop
        | some o =>
          cases pc with
          | helloOnline rid n =>
            cases hedit
            exact absurd rfl (hother s n)
          | _ => cases hedit
      | _ => cases hedit
    · exact hget

/-- A handler that is about to remove a route after its step spares a running publisher. -/
theorem RoutesKept.spared_step {C : Crates} {h : RelayPast U} {c : RelayConfig U}
    (hk : RoutesKept h c) {i : Nat} {e : RelayEvent U} {t t' : RelayTask U} {w : Relay U}
    (hg : t.disturbs c = false) (ht : c.pool[i]? = some t) (hs : t.Stepped C e c.shared t' w)
    {m : RecipientId} {sid : Nat} (hd : t'.dropsRoute m = true)
    (hold : publisher m h = some sid)
    (hp : publisher m ((c, .act i (.run e)) :: h) = some sid) : running c sid = false := by
  cases hs with
  | socket s s' pc pc' _ _ hs =>
    by_contra hnot
    have hrun : running c sid = true := by simpa using hnot
    have hget := hk.live m sid hold hrun
    rcases hs.drops_cases hd with hd' | ⟨r, ty, ct, sid', rfl, hget', hfull⟩ | ⟨k, rfl, hin, hrid⟩ |
      ⟨rfl, hget'⟩
    · exact hnot (hk.spared i _ m sid ht hd' hold)
    · rw [hget] at hget'
      cases hget'
      obtain ⟨_, ch, hch, hopen⟩ := running_iff.mp hrun
      have hroom := hfull ch hch
      rw [hopen, Bool.true_and] at hroom
      simp only [RelayTask.disturbs, hget, Option.any_some, hrun, hch, Option.all_some, hroom,
        Bool.not_false, Bool.and_self] at hg
      cases hg
    · rw [publisher_retire ht hin hrid] at hp
      cases hp
    · rw [hget] at hget'
      cases hget'
      obtain ⟨⟨j, s₁, pc₁, hj, hsid, hl⟩, _⟩ := running_iff.mp hrun
      obtain rfl := hk.sids.inj j i s₁ s pc₁ _ hj ht hsid
      rw [hj] at ht
      cases ht
      cases hl
  | _ => cases hd

theorem RoutesKept.step {C : Crates} {h : RelayPast U} {c c' : RelayConfig U}
    {mv : Move (RelayMove U)} (hk : RoutesKept h c) (hg : SparesRoutes c mv)
    (hm : Moved C c mv c') : RoutesKept ((c, mv) :: h) c' := by
  have hlater : ∀ m sid, publisher m h = some sid → running c' sid = true →
      running c sid = true := fun m sid hp hrun => hm.running (hk.known m sid hp) hrun
  refine ⟨hk.sids.step hm, ?_, ?_, ?_⟩
  · intro m sid hp
    rcases publisher_cases hp with hold | ⟨i, e, s, n, rfl, ht, rfl⟩
    · exact hm.later.lt (hk.known m sid hold)
    · exact hm.later.lt (hk.sids.lt i s _ ht)
  · intro m sid hp hrun
    rcases publisher_cases hp with hold | ⟨i, e, s, n, rfl, ht, rfl⟩
    · have hrun' := hlater m sid hold hrun
      cases hm with
      | spawned ev t c w hs =>
        obtain ⟨k, happ⟩ := hs.app
        rw [happ]
        exact hk.live m sid hold hrun'
      | wrote ev c w hs =>
        rw [hs.app]
        exact hk.live m sid hold hrun'
      | stepped i e t t' c w ht hs =>
        by_cases hhello : ∃ s n, t = .socket s (.helloOnline m n)
        · obtain ⟨s, n, rfl⟩ := hhello
          rw [publisher_hello ht] at hp
          cases hp
          rw [hs.online]
          exact (OrdMap.get_assign _ _ _ _).trans (if_pos rfl)
        · exact hk.route_step ht hs hold hrun' fun s n heq => hhello ⟨s, n, heq⟩
    · cases hm with
      | stepped _ _ t t' _ w ht' hs =>
        rw [ht] at ht'
        cases ht'
        rw [hs.online]
        exact (OrdMap.get_assign _ _ _ _).trans (if_pos rfl)
  · intro j u m sid hu hd hp
    by_contra hnot
    have hrun : running c' sid = true := by simpa using hnot
    rcases publisher_cases hp with hold | ⟨i, e, s, n, rfl, ht, rfl⟩
    · have hrun' := hlater m sid hold hrun
      have hspared : running c sid = false := by
        cases hm with
        | spawned ev t c w hs =>
          rcases getElem?_snoc_cases hu with hu' | ⟨_, rfl⟩
          · exact hk.spared j u m sid hu' hd hold
          · cases hs <;> cases hd
        | wrote ev c w hs => exact hk.spared j u m sid hu hd hold
        | stepped i e t t' c w ht hs =>
          rcases getElem?_set_cases hu with ⟨rfl, rfl⟩ | ⟨_, hu'⟩
          · exact hk.spared_step (hg t ht) ht hs hd hold hp
          · exact hk.spared j u m sid hu' hd hold
      rw [hrun'] at hspared
      cases hspared
    · cases hm with
      | stepped _ _ t t' _ w ht' hs =>
        rw [ht] at ht'
        cases ht'
        have hnone := hg _ ht
        rcases getElem?_set_cases hu with ⟨rfl, rfl⟩ | ⟨_, hu'⟩
        · cases hs with
          | socket _ _ _ _ _ _ hs =>
            cases hs
            case inner hin => cases hin
            case helloOnline => cases hd
        · have hany : c.pool.any (RelayTask.dropsRoute m) = true :=
            List.any_eq_true.mpr ⟨u, List.mem_of_getElem? hu', hd⟩
          change c.pool.any (RelayTask.dropsRoute m) = false at hnone
          rw [hany] at hnone
          cases hnone

variable [DecidableEq U]

/-- In a run that disturbs no route, the socket that published a route for `m` last has it as
    long as it runs and no RetireMailbox for `m` was received. -/
theorem live_route_kept {C : Crates} {st : AppState} {h : RelayPast U} {c : RelayConfig U}
    (r : Trace (relayMachine C) (fun _ => SparesRoutes) (started st) h c) {m : RecipientId}
    {sid : Nat} (hp : publisher m h = some sid) (hrun : running c sid = true) :
    c.shared.app.online.get m = some sid :=
  (r.invariant (routesKept_start st) fun _ _ _ _ hk hg hn =>
    hk.step hg (moved_of_next hn)).live m sid hp hrun

end

/-! ## A run -/

/-- A Hello up to the step that publishes its route. -/
def sampleOnline (i : Nat) : List (Move (RelayMove Nat)) :=
  List.replicate 4 (sampleStep sampleTime i (sampleHello false) 0 [])

/-- A mailbox moves from one socket to another one while an envelope is sent to it. -/
theorem live_route_kept_sample : ∃ (h : RelayPast Nat) (c : RelayConfig Nat),
    Trace (relayMachine sampleCrates) (fun _ => SparesRoutes) (started AppState.sampleState) h c ∧
      c.shared.app.online.get AppState.sampleRid = some 2 := by
  obtain ⟨h, c, r, hend⟩ := exists_trace (M := relayMachine sampleCrates)
    (G := fun _ => SparesRoutes) (c := started (U := Nat) AppState.sampleState)
    (.spawn (.connect sampleTime) :: .spawn (.connect sampleTime) ::
      .spawn (.connect sampleTime) :: sampleOnline 1 ++
      List.replicate 3 (sampleStep sampleTime 2 sampleSend 0 []) ++ sampleOnline 3)
    (p := fun r => decide (publisher AppState.sampleRid r.1 = some 2 ∧ running r.2 2 = true))
    (by decide +kernel)
  obtain ⟨hp, hrun⟩ := of_decide_eq_true hend
  exact ⟨h, c, r, live_route_kept r hp hrun⟩

/-- The writer of the first socket gave up, so a push to it fails; before the sender removes
    its route, the mailbox connects again, and the sender removes the new route. -/
theorem live_route_lost : ¬∀ (C : Crates) (st : AppState) (h : RelayPast Nat)
    (c : RelayConfig Nat), Trace (relayMachine C) anyPast (started st) h c →
    ∀ (m : RecipientId) (sid : Nat), publisher m h = some sid → running c sid = true →
      c.shared.app.online.get m = some sid := by
  intro hall
  obtain ⟨h, c, r, hend⟩ := exists_trace (M := relayMachine sampleCrates) (G := anyPast)
    (c := started (U := Nat) AppState.sampleState)
    (.spawn (.connect sampleTime) :: .spawn (.connect sampleTime) ::
      .spawn (.connect sampleTime) :: sampleOnline 1 ++ [.env (.drop 0)] ++
      List.replicate 3 (sampleStep sampleTime 2 sampleSend 0 []) ++ sampleOnline 3 ++
      [sampleStep sampleTime 2 sampleSend 0 []])
    (p := fun r => decide (publisher AppState.sampleRid r.1 = some 2 ∧ running r.2 2 = true ∧
      r.2.shared.app.online.get AppState.sampleRid = none))
    (by decide +kernel)
  obtain ⟨hp, hrun, hnone⟩ := of_decide_eq_true hend
  rw [hall _ _ h c r _ _ hp hrun] at hnone
  cases hnone

end AxenoRelay
