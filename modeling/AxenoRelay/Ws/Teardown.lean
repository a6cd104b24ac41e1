/-
  A closed socket and its routes.

  A socket remembers one mailbox, the one of its last Hello, and its teardown looks
  at the route of that mailbox only. `orphans` names the Hello that goes wrong: it
  binds the socket to another mailbox while the route of the old one is the socket's
  own. In a run without such a Hello every route belongs to an open socket bound to
  its mailbox (`RoutesOwned`), so a closed socket leaves none (`closed_leaves_no_route`).
-/
import AxenoRelay.Ws.Routes

namespace AxenoRelay

open Interleave

section

variable {U : Type}

/-! ## The Hello that goes wrong -/

/-- Does this step bind the socket to another mailbox while it holds the route of the one it
    is bound to? -/
def RelayTask.orphans (st : AppState) : RelayTask U → Bool
  | socket s (.helloMark rid _ _) =>
    s.recipientId.any fun r => decide (r ≠ rid) && decide (st.online.get r = some s.sid)
  | _ => false

/-- No step orphans a route. -/
def KeepsRoutes (c : RelayConfig U) : Move (RelayMove U) → Prop
  | .act i (.run _) => ∀ t, c.pool[i]? = some t → t.orphans c.shared.app = false
  | _ => True

instance (c : RelayConfig U) : ∀ m, Decidable (KeepsRoutes c m)
  | .act _ (.run _) => decidableForallSome _ _
  | .act _ (.connect _) | .act _ .gc | .act _ .sweepQueues | .act _ .sweepFiles
  | .act _ (.drain _) | .act _ (.drop _) | .spawn _ | .env _ => isTrue trivial

/-! ## Routes and their owners -/

namespace SocketPc

/-- Is the socket past the look of its teardown? -/
def ended : SocketPc U → Bool
  | closeEnd | closed => true
  | _ => false

/-- A handler that publishes or takes down a route does so for the mailbox of its socket. -/
def Bound (s : Socket) : SocketPc U → Prop
  | helloOk rid _ _ | helloOnline rid _ | closeRemove rid => s.recipientId = some rid
  | _ => True

theorem Plain.bound {pc : SocketPc U} (h : pc.Plain) (s : Socket) : pc.Bound s := by
  cases pc <;> trivial

theorem Plain.not_over {pc : SocketPc U} (h : pc.Plain) : pc.ended = false := by
  cases pc <;> first | rfl | exact h.elim

end SocketPc

/-- Every route belongs to an open socket that is bound to its mailbox. -/
structure RoutesOwned (c : RelayConfig U) : Prop where
  owner : ∀ (m : RecipientId) (sid : Nat), c.shared.app.online.get m = some sid →
    ∃ (i : Nat) (s : Socket) (pc : SocketPc U), c.pool[i]? = some (.socket s pc) ∧
      s.sid = sid ∧ s.recipientId = some m ∧ pc.ended = false
  bound : ∀ (i : Nat) (s : Socket) (pc : SocketPc U), c.pool[i]? = some (.socket s pc) →
    pc.Bound s
  sids : SidsOk c

theorem routesOwned_start {st : AppState} (hst : st.online = OrdMap.empty) :
    RoutesOwned (started st : RelayConfig U) := by
  refine ⟨?_, ?_, sidsOk_start st⟩
  · intro m sid h
    change st.online.get m = some sid at h
    rw [hst, OrdMap.get_empty] at h
    cases h
  · intro i s pc h
    cases List.mem_singleton.mp (List.mem_of_getElem? h)

end

section

variable {U : Type} [UuidText U]

theorem SocketPc.Stepped.bound {C : Crates} {e : RelayEvent U} {s s' : Socket}
    {pc pc' : SocketPc U} {w w' : Relay U} (hs : SocketPc.Stepped C e s pc w s' pc' w')
    (hb : pc.Bound s) : pc'.Bound s' := by
  cases hs
  case inner hin => exact hin.target.bound _
  case said last => cases last <;> trivial
  case helloMark => rfl
  case helloOk certOnly _ =>
    cases certOnly
    · exact hb
    · trivial
  case closeSeen hrid _ => exact hrid
  all_goals trivial

/-- A socket that owns a route before and after its step stays open and bound, unless the
    step orphans the route. -/
theorem SocketPc.Stepped.owns {C : Crates} {e : RelayEvent U} {s s' : Socket}
    {pc pc' : SocketPc U} {w w' : Relay U} (hs : SocketPc.Stepped C e s pc w s' pc' w')
    (hg : (RelayTask.socket s pc).orphans w.app = false) (hb : pc.Bound s) {m : RecipientId}
    (hm : s.recipientId = some m) (hopen : pc.ended = false)
    (hold : w.app.online.get m = some s.sid) (hnew : w'.app.online.get m = some s.sid) :
    s'.recipientId = some m ∧ pc'.ended = false := by
  cases hs
  case inner hsame hin => exact ⟨hsame.2.trans hm, hin.target.not_over⟩
  case said last =>
    refine ⟨hm, ?_⟩
    cases last <;> rfl
  case hello hsame => exact ⟨hsame.2.trans hm, rfl⟩
  case helloMark rid _ _ =>
    refine ⟨?_, rfl⟩
    by_cases hne : m = rid
    · rw [hne]
    · simp only [RelayTask.orphans, hm, hold, Option.any_some, ne_eq, hne, not_false_eq_true,
        decide_true, Bool.and_self] at hg
      cases hg
  case helloOk certOnly _ =>
    refine ⟨hm, ?_⟩
    cases certOnly <;> rfl
  case tokens hsame => exact ⟨hsame.2.trans hm, rfl⟩
  case sendAuth hsame => exact ⟨hsame.2.trans hm, rfl⟩
  case ack hsame => exact ⟨hsame.2.trans hm, rfl⟩
  case retire hsame => exact ⟨hsame.2.trans hm, rfl⟩
  case retireNone hsame => exact ⟨hsame.2.trans hm, rfl⟩
  case closeSkipped hskip => exact absurd hold (hskip m hm)
  case closeRemove rid =>
    obtain rfl : m = rid := Option.some.inj (hm.symm.trans hb)
    change (w.app.online.erase m).get m = some s.sid at hnew
    rw [OrdMap.get_erase, if_pos rfl] at hnew
    cases hnew
  case closeEnd => cases hopen
  all_goals exact ⟨hm, rfl⟩

/-- A route after a step was there before, or is the one its socket has just published. -/
theorem SocketPc.Stepped.route_cases {C : Crates} {e : RelayEvent U} {s s' : Socket}
    {pc pc' : SocketPc U} {w w' : Relay U} (hs : SocketPc.Stepped C e s pc w s' pc' w')
    {m : RecipientId} {sid : Nat} (h : w'.app.online.get m = some sid) :
    w.app.online.get m = some sid ∨
      ∃ selected, pc = .helloOnline m selected ∧ sid = s.sid ∧ s' = s ∧
        pc' = .helloFlush m selected := by
  have hedit := hs.online
  rw [hedit] at h
  cases pc with
  | helloOnline rid selected =>
    simp only [routeEdit, editRoute, OrdMap.get_assign] at h
    split_ifs at h with hm
    · cases hs
      case inner hin => cases hin
      case helloOnline =>
        right
        exact ⟨selected, by rw [hm], (Option.some.inj h).symm, rfl, by rw [hm]⟩
    · exact Or.inl h
  | sendStale | retireOnline | closeRemove =>
    simp only [routeEdit, editRoute, OrdMap.get_assign] at h
    split_ifs at h
    exact Or.inl h
  | _ => exact Or.inl h

/-! ## Runs -/

theorem RoutesOwned.step {C : Crates} {c c' : RelayConfig U} {m : Move (RelayMove U)}
    (h : RoutesOwned c) (hg : KeepsRoutes c m) (hm : Moved C c m c') : RoutesOwned c' := by
  refine ⟨?_, ?_, h.sids.step hm⟩
  · intro k sid hroute
    cases hm with
    | spawned ev t c w hs =>
      obtain ⟨n, happ⟩ := hs.app
      rw [happ] at hroute
      obtain ⟨i, s, pc, hi, hrest⟩ := h.owner k sid hroute
      exact ⟨i, s, pc, by rw [List.getElem?_append_left (List.getElem?_eq_some_iff.mp hi).1, hi],
        hrest⟩
    | wrote ev c w hs =>
      rw [hs.app] at hroute
      exact h.owner k sid hroute
    | stepped j e t t' c w ht hs =>
      have hkept : ∀ (i : Nat) (s : Socket) (pc : SocketPc U), i ≠ j →
          c.pool[i]? = some (.socket s pc) → (c.pool.set j t')[i]? = some (.socket s pc) :=
        fun i s pc hij hi => by rw [List.getElem?_set_ne (Ne.symm hij), hi]
      have hself : (c.pool.set j t')[j]? = some t' :=
        List.getElem?_set_self (List.getElem?_eq_some_iff.mp ht).1
      have hold : c.shared.app.online.get k = some sid ∨ ∃ s₁ pc₁, t = .socket s₁ pc₁ ∧
          s₁.sid = sid ∧ s₁.recipientId = some k ∧ ∃ n, t' = .socket s₁ (.helloFlush k n) := by
        cases hs with
        | socket s s' pc pc' _ _ hs =>
          rcases hs.route_cases hroute with hold | ⟨n, rfl, hsid, rfl, rfl⟩
          · exact Or.inl hold
          · exact Or.inr ⟨_, _, rfl, hsid.symm, h.bound j _ _ ht, n, rfl⟩
        | flush f f' st _ hs => cases hs <;> exact Or.inl hroute
        | gc g g' st _ hs => cases hs <;> exact Or.inl hroute
        | _ => exact Or.inl hroute
      rcases hold with hold | ⟨s₁, pc₁, rfl, hsid, hrid, n, rfl⟩
      · obtain ⟨i, s, pc, hi, hsid, hrid, hopen⟩ := h.owner k sid hold
        by_cases hij : i = j
        · subst hij
          rw [hi] at ht
          cases ht
          cases hs with
          | socket _ s' _ pc' _ _ hs =>
            obtain ⟨hrid', hopen'⟩ := hs.owns (hg _ hi) (h.bound i s pc hi) hrid hopen
              (hsid ▸ hold) (hsid ▸ hroute)
            exact ⟨i, s', pc', hself, hs.sid.trans hsid, hrid', hopen'⟩
        · exact ⟨i, s, pc, hkept i s pc hij hi, hsid, hrid, hopen⟩
      · exact ⟨j, s₁, _, hself, hsid, hrid, rfl⟩
  · intro i s pc hi
    cases hm with
    | spawned ev t c w hs =>
      rcases getElem?_snoc_cases hi with hold | ⟨_, rfl⟩
      · exact h.bound i s pc hold
      · cases hs
        trivial
    | wrote ev c w hs => exact h.bound i s pc hi
    | stepped j e t t' c w ht hs =>
      rcases getElem?_set_cases hi with ⟨rfl, rfl⟩ | ⟨_, hold⟩
      · cases hs with
        | socket s₀ _ pc₀ _ _ _ hs => exact hs.bound (h.bound i s₀ pc₀ ht)
      · exact h.bound i s pc hold

variable [DecidableEq U]

/-- In a run in which no Hello orphans a route, no route leads to a socket that is closed; so
    a mailbox with a route has an open socket. -/
theorem closed_leaves_no_route {C : Crates} {st : AppState} {c : RelayConfig U}
    (hst : st.online = OrdMap.empty) (r : Run (relayMachine C) KeepsRoutes (started st) c) :
    (∀ (i : Nat) (s : Socket), c.pool[i]? = some (.socket s .closed) →
      ∀ m, c.shared.app.online.get m ≠ some s.sid) ∧
    ∀ m, c.shared.app.online.contains m = true →
      ∃ (i : Nat) (s : Socket) (pc : SocketPc U), c.pool[i]? = some (.socket s pc) ∧
        c.shared.app.online.get m = some s.sid ∧ pc.ended = false := by
  have h : RoutesOwned c := r.invariant (routesOwned_start hst) fun _ _ _ h hg hn =>
    h.step hg (moved_of_next hn)
  constructor
  · intro i s hi m hroute
    obtain ⟨j, s', pc, hj, hsid, _, hopen⟩ := h.owner m s.sid hroute
    obtain rfl := h.sids.inj i j s s' _ _ hi hj hsid.symm
    rw [hi] at hj
    cases hj
    cases hopen
  · intro m hm
    obtain ⟨sid, hroute⟩ := Option.isSome_iff_exists.mp hm
    obtain ⟨i, s, pc, hi, rfl, _, hopen⟩ := h.owner m sid hroute
    exact ⟨i, s, pc, hi, hroute, hopen⟩

end

/-! ## A run -/

def sampleBobby : RecipientId := "mbx_bobby_00000000000000000000000001"

/-- A Hello for another mailbox, which does not publish a route. -/
def bobbyHello : ClientFrame Nat :=
  .hello sampleBobby "receive_secret_bobby_01" "delivery_secret_bobby_01" none none none
    (some "2879999:2111460") true

/-- The stream of the socket at place `i` ends. -/
def sampleClose (i : Nat) : Move (RelayMove Nat) :=
  .act i (.run ⟨⟨sampleTime, [], [], 0⟩, .closed, 0, false, .error ""⟩)

/-- A Hello from the frame to the end of its flush. -/
def wholeHello (i : Nat) : List (Move (RelayMove Nat)) :=
  List.replicate 7 (sampleStep sampleTime i (sampleHello false) 0 [])

def closedAt (i : Nat) (c : RelayConfig Nat) : Option Socket :=
  match c.pool[i]? with
  | some (.socket s .closed) => some s
  | _ => none

theorem pool_of_closedAt {i : Nat} {c : RelayConfig Nat} {s : Socket}
    (h : closedAt i c = some s) : c.pool[i]? = some (.socket s .closed) := by
  unfold closedAt at h
  split at h
  · cases h
    assumption
  · cases h

/-- A socket says Hello, is online, and closes. -/
theorem closed_leaves_no_route_sample : ∃ (c : RelayConfig Nat) (s : Socket),
    Run (relayMachine sampleCrates) KeepsRoutes (started AppState.sampleState) c ∧
      s.recipientId = some AppState.sampleRid ∧
      ∀ m, c.shared.app.online.get m ≠ some s.sid := by
  obtain ⟨c, r, hend⟩ := exists_run (M := relayMachine sampleCrates) (G := KeepsRoutes)
    (c := started (U := Nat) AppState.sampleState)
    (.spawn (.connect sampleTime) :: wholeHello 1 ++ List.replicate 4 (sampleClose 1))
    (p := fun c => decide (closedAt 1 c =
      some ⟨0, some AppState.sampleRid, sampleTime, 1⟩))
    (by decide +kernel)
  have hpc := pool_of_closedAt (of_decide_eq_true hend)
  exact ⟨c, _, r, rfl, (closed_leaves_no_route rfl r).1 1 _ hpc⟩

/-- A socket says Hello for one mailbox, then for another one, and closes: the route of the
    first mailbox still leads to it. -/
theorem route_orphaned : ¬∀ (C : Crates) (st : AppState) (c : RelayConfig Nat),
    st.online = OrdMap.empty → Run (relayMachine C) anyMove (started st) c →
    ∀ (i : Nat) (s : Socket), c.pool[i]? = some (.socket s .closed) →
      ∀ m, c.shared.app.online.get m ≠ some s.sid := by
  intro hall
  obtain ⟨c, r, hend⟩ := exists_run (M := relayMachine sampleCrates) (G := anyMove)
    (c := started (U := Nat) AppState.sampleState)
    (.spawn (.connect sampleTime) :: wholeHello 1 ++
      List.replicate 3 (sampleStep sampleTime 1 bobbyHello 0 []) ++
      List.replicate 3 (sampleClose 1))
    (p := fun c => decide (closedAt 1 c = some ⟨0, some sampleBobby, sampleTime, 2⟩ ∧
      c.shared.app.online.get AppState.sampleRid = some 0))
    (by decide +kernel)
  obtain ⟨hpc, hroute⟩ := of_decide_eq_true hend
  exact hall _ _ c rfl r 1 _ (pool_of_closedAt hpc) _ hroute

end AxenoRelay
