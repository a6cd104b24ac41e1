/-
  The conversation on one socket.

  The past of a socket gives the texts it took up (`asked`) and the frames it offered to
  its own channel in reply (`said`). Every text gets one reply, before the next one is
  taken up, and the replies on the channel are those it had room for, in that order.
-/
import AxenoRelay.Ws.Answers
import AxenoRelay.Ws.Authority
import AxenoRelay.Ws.Channels
import AxenoRelay.Meta.Owed

namespace AxenoRelay

open Interleave

/-! ## The past of a conversation -/

section

variable {U : Type}

/-- The text that the handler takes up at its next step. -/
def SocketPc.takes (x : Incoming U) : SocketPc U → List (Incoming U)
  | ready =>
    match x with
    | .text n parsed => [.text n parsed]
    | _ => []
  | _ => []

/-- The reply that the handler offers to its own channel at its next step. -/
def SocketPc.offers (e : RelayEvent U) (w : Relay U) : SocketPc U → List (ServerFrame U)
  | reply f _ => [f]
  | helloOk _ selected _ =>
    [.helloOk selected protocolMinSupported protocolVersion e.store.now w.app.trustRootPublicB64
      w.app.fileConfig.maxFileBytes]
  | _ => []

/-- The texts that the socket at place `i` took up, newest first. -/
def asked (i : Nat) : RelayPast U → List (Incoming U)
  | [] => []
  | (c, .act j (.run e)) :: h =>
    if j = i then
      match c.pool[i]? with
      | some (.socket _ pc) => pc.takes e.incoming ++ asked i h
      | _ => asked i h
    else asked i h
  | _ :: h => asked i h

/-- The replies that the socket at place `i` offered to its channel, newest first, each with
    whether the channel took it. -/
def said (i : Nat) : RelayPast U → List (ServerFrame U × Bool)
  | [] => []
  | (c, .act j (.run e)) :: h =>
    if j = i then
      match c.pool[i]? with
      | some (.socket s pc) =>
        (pc.offers e c.shared).map (fun f => (f, (c.shared.trySend s.sid f).1)) ++ said i h
      | _ => said i h
    else said i h
  | _ :: h => said i h

/-- The replies that have gone through the channel of socket `sid`. -/
def Relay.repliesOn (w : Relay U) (sid : Nat) : List (ServerFrame U) :=
  w.through (Option.guard fun f => f.isReply) sid

/-- The texts of a socket that have had their reply, of those it took up. -/
def SocketPc.repliedTo (pc : SocketPc U) (texts : List (Incoming U)) : List (Incoming U) :=
  if pc.settled then texts else texts.tail

section

variable {c : RelayConfig U} {h : RelayPast U} {i j : Nat} {e : RelayEvent U}

theorem asked_other (hij : j ≠ i) : asked i ((c, .act j (.run e)) :: h) = asked i h := by
  rw [asked, if_neg hij]

theorem said_other (hij : j ≠ i) : said i ((c, .act j (.run e)) :: h) = said i h := by
  rw [said, if_neg hij]

theorem asked_socket {s : Socket} {pc : SocketPc U} (ht : c.pool[i]? = some (.socket s pc)) :
    asked i ((c, .act i (.run e)) :: h) = pc.takes e.incoming ++ asked i h := by
  rw [asked, if_pos rfl, ht]

theorem said_socket {s : Socket} {pc : SocketPc U} (ht : c.pool[i]? = some (.socket s pc)) :
    said i ((c, .act i (.run e)) :: h) =
      (pc.offers e c.shared).map (fun f => (f, (c.shared.trySend s.sid f).1)) ++ said i h := by
  rw [said, if_pos rfl, ht]

end

/-! ## Replies on a channel -/

theorem repliesOn_say (w : Relay U) (sid : Nat) {f : ServerFrame U} (hf : f.isReply = true)
    (j : Nat) : (w.say sid f).repliesOn j =
      w.repliesOn j ++ if j = sid then [f].filter (fun f => (w.trySend sid f).1) else [] := by
  have hguard : (Option.guard (fun f : ServerFrame U => f.isReply) f).toList = [f] := by
    simp [Option.guard, hf]
  rw [Relay.repliesOn, through_say, hguard]
  by_cases hj : j = sid
  · cases htook : (w.trySend sid f).1 <;> simp [hj, htook, Relay.repliesOn]
  · simp [hj, Relay.repliesOn]

section

variable [UuidText U] {C : Crates} {e : RelayEvent U}

/-- A step that offers no reply adds none. -/
theorem SocketPc.Stepped.repliesOn {s s' : Socket} {pc pc' : SocketPc U} {w w' : Relay U}
    (hs : SocketPc.Stepped C e s pc w s' pc' w') (h : pc.offers e w = []) (j : Nat) :
    w'.repliesOn j = w.repliesOn j := by
  cases hs
  case said => cases h
  case helloOk => cases h
  case helloPush env _ _ _ ch hch =>
    rw [Relay.repliesOn, through_push _ hch rfl j]
    simp [Option.guard, ServerFrame.isReply, Relay.repliesOn]
  case helloSynced d _ ch hch =>
    rw [Relay.repliesOn, through_push _ hch rfl j]
    simp [Option.guard, ServerFrame.isReply, Relay.repliesOn]
  case sendPushed ch _ _ hch =>
    rw [Relay.repliesOn, through_push _ hch rfl j]
    simp [Option.guard, ServerFrame.isReply, Relay.repliesOn]
  case closeEnd => exact through_close _ s.sid rfl j
  all_goals exact through_same _ rfl j

/-- What a step of a socket adds to the replies on the channels. -/
theorem SocketPc.step_replies [DecidableEq U] {s s' : Socket} {pc pc' : SocketPc U}
    {w w' : Relay U} (hs : SocketPc.step C e s w pc = some (s', pc', w'))
    (hrep : ∀ f ∈ pc.offers e w, f.isReply = true) (j : Nat) :
    w'.repliesOn j = w.repliesOn j ++
      if j = s.sid then (pc.offers e w).filter (fun f => (w.trySend s.sid f).1) else [] := by
  have hquiet : pc.offers e w = [] → w'.repliesOn j = w.repliesOn j ++
      if j = s.sid then (pc.offers e w).filter (fun f => (w.trySend s.sid f).1) else [] := by
    intro hnone
    rw [(SocketPc.stepped_of_step hs).repliesOn hnone j, hnone]
    simp
  cases pc with
  | reply f last =>
    cases hs
    exact repliesOn_say w s.sid (hrep f (List.mem_singleton_self f)) j
  | helloOk rid v certOnly =>
    cases hs
    exact repliesOn_say w s.sid (hrep _ (List.mem_singleton_self _)) j
  | _ => exact hquiet rfl

end

end

/-! ## One step -/

section

variable {U : Type} {C : Crates} {e : RelayEvent U}

/-- A handler that has replied to everything, or that is at work on the newest text. -/
inductive Conversed (C : Crates) (pc : SocketPc U) : List (Incoming U) → List (ServerFrame U) → Prop
  | settled (xs : List (Incoming U)) (gs : List (ServerFrame U)) (hpc : pc.settled = true)
      (h : List.Forall₂ (Answered C) xs gs) : Conversed C pc xs gs
  | replying (x : Incoming U) (xs : List (Incoming U)) (gs : List (ServerFrame U))
      (hpc : pc.Replies C x) (h : List.Forall₂ (Answered C) xs gs) : Conversed C pc (x :: xs) gs

theorem SocketPc.Replies.unsettled {pc : SocketPc U} {x : Incoming U} (h : pc.Replies C x) :
    pc.settled = false := by
  cases pc <;> first | rfl | exact absurd h fun ⟨_, _, _, _, hno⟩ => hno

variable [UuidText U] [DecidableEq U]

theorem Conversed.step {s s' : Socket} {pc pc' : SocketPc U} {w w' : Relay U}
    {xs : List (Incoming U)} {gs : List (ServerFrame U)}
    (hids : w.app.bundles.All fun k b => b.id = k) (h : Conversed C pc xs gs)
    (hs : SocketPc.step C e s w pc = some (s', pc', w')) :
    Conversed C pc' (pc.takes e.incoming ++ xs) (pc.offers e w ++ gs) ∧
      ∀ f ∈ pc.offers e w, f.isReply = true := by
  have hst := SocketPc.stepped_of_step hs
  cases h with
  | settled _ _ hpc h =>
    by_cases hready : pc = .ready
    · subst hready
      refine ⟨?_, fun f hf => absurd hf List.not_mem_nil⟩
      have hrecv : SocketPc.receive C e s w = (s', pc', w') := Option.some.inj hs
      cases hin : e.incoming with
      | text n parsed =>
        have hrep := SocketPc.receive_replies (C := C) s w hin
        rw [hrecv] at hrep
        exact .replying _ xs gs hrep h
      | other =>
        rw [SocketPc.receive, hin] at hrecv
        cases hrecv
        exact .settled xs gs rfl h
      | closed =>
        rw [SocketPc.receive, hin] at hrecv
        cases hrecv
        exact .settled xs gs rfl h
    · have hquiet : pc.takes e.incoming = [] ∧ pc.offers e w = [] := by
        cases pc <;> first | exact absurd rfl hready | exact ⟨rfl, rfl⟩ | cases hpc
      rw [hquiet.1, hquiet.2]
      exact ⟨.settled xs gs (hst.settled hpc hready) h, fun f hf => absurd hf List.not_mem_nil⟩
  | replying x xs gs hpc h =>
    -- a handler at work neither takes a text up nor replies before it is done
    have hwork : (∃ n f, n ≤ maxFrameBytes ∧ x = .text n (.ok f) ∧ pc.Serves C f) →
        (∀ g last, pc ≠ .reply g last) → (∀ rid v certOnly, pc ≠ .helloOk rid v certOnly) →
        pc.takes e.incoming = [] → pc.offers e w = [] →
        Conversed C pc' (pc.takes e.incoming ++ x :: xs) (pc.offers e w ++ gs) ∧
          ∀ f ∈ pc.offers e w, f.isReply = true := by
      intro hserves hreply hok htakes hoffers
      obtain ⟨n, f, hn, rfl, hf⟩ := hserves
      rw [htakes, hoffers]
      exact ⟨.replying _ xs gs ((hf.step hids hs ⟨hreply, hok⟩).replies hn) h,
        fun f hf => absurd hf List.not_mem_nil⟩
    cases pc with
    | ready => cases hpc.unsettled
    | reply g last =>
      cases hs
      refine ⟨.settled _ _ ?_ (.cons hpc h), fun f hf => ?_⟩
      · cases last <;> rfl
      · obtain rfl := List.mem_singleton.mp hf
        exact hpc.isReply
    | helloOk rid v certOnly =>
      obtain ⟨n, f, hn, rfl, token, delivery, pmin, pmax, version, pow, rfl, hv⟩ := hpc
      cases hs
      refine ⟨.settled _ _ ?_ (.cons (.frame n _ _ hn ?_) h), fun f hf => ?_⟩
      · cases certOnly <;> rfl
      · exact .helloOk rid token delivery _ pmin pmax version pow certOnly v _ _ hv
      · obtain rfl := List.mem_singleton.mp hf
        rfl
    | _ =>
      exact hwork hpc (fun _ _ => by simp) (fun _ _ _ => by simp) rfl rfl

end

/-! ## Runs -/

section

variable {U : Type} [UuidText U] {C : Crates} {h : RelayPast U} {c c' : RelayConfig U}
  {mv : Move (RelayMove U)}

theorem Moved.bundleIds (hm : Moved C c mv c')
    (h : c.shared.app.bundles.All fun k b => b.id = k) :
    c'.shared.app.bundles.All fun k b => b.id = k := by
  cases hm with
  | spawned ev t c w hs =>
    obtain ⟨n, happ⟩ := hs.app
    dsimp only
    rw [happ]
    exact h
  | wrote ev c w hs =>
    dsimp only
    rw [hs.app]
    exact h
  | stepped i e t t' c w ht hs =>
    cases hs with
    | socket s s' pc pc' _ _ hs => exact hs.bundleIds h
    | flush f f' st _ hs =>
      cases hs <;> exact h
    | gc g g' st _ hs =>
      cases hs <;> exact h
    | sweepQueues => exact h
    | sweepFiles => exact h

/-- What holds of the conversation of every socket. -/
structure Conversing (C : Crates) (h : RelayPast U) (c : RelayConfig U) : Prop where
  sids : SidsOk c
  ids : c.shared.app.bundles.All fun k b => b.id = k
  fresh : ∀ i, c.pool.length ≤ i → asked i h = [] ∧ said i h = []
  socket : ∀ (i : Nat) (s : Socket) (pc : SocketPc U), c.pool[i]? = some (.socket s pc) →
    Conversed C pc (asked i h) ((said i h).map Prod.fst) ∧
      c.shared.repliesOn s.sid = (((said i h).filter Prod.snd).map Prod.fst).reverse

omit [UuidText U] in
theorem conversing_start {st : AppState} (hids : st.bundles.All fun k b => b.id = k) :
    Conversing C [] (started st : RelayConfig U) := by
  refine ⟨sidsOk_start st, hids, fun i _ => ⟨rfl, rfl⟩, fun i s pc h => ?_⟩
  cases List.mem_singleton.mp (List.mem_of_getElem? h)

variable [DecidableEq U]

theorem Conversing.step (hc : Conversing C h c) (hn : (relayMachine C).next mv c = some c') :
    Conversing C ((c, mv) :: h) c' := by
  have hm := moved_of_next hn
  have hsids := hc.sids.step hm
  have hids := hm.bundleIds hc.ids
  cases hm with
  | spawned ev t c w hs =>
    refine ⟨hsids, hids, fun i hi => hc.fresh i ?_, fun i s pc hi => ?_⟩
    · rw [List.length_append] at hi
      omega
    · dsimp only
      rw [Relay.repliesOn, through_spawned _ hs]
      rcases getElem?_snoc_cases hi with hold | ⟨rfl, rfl⟩
      · exact hc.socket i s pc hold
      · obtain ⟨hasked, hsaid⟩ := hc.fresh c.pool.length (Nat.le_refl _)
        have hnew : pc = .ready ∧ s.sid = c.shared.chans.length := by
          cases hs
          exact ⟨rfl, rfl⟩
        obtain ⟨rfl, hsid⟩ := hnew
        change Conversed C _ (asked c.pool.length h) ((said c.pool.length h).map Prod.fst) ∧
          _ = (((said c.pool.length h).filter Prod.snd).map Prod.fst).reverse
        rw [hasked, hsaid, hsid, through_new]
        exact ⟨.settled _ _ rfl .nil, rfl⟩
  | wrote ev c w hs =>
    refine ⟨hsids, hids, hc.fresh, fun i s pc hi => ?_⟩
    dsimp only
    rw [Relay.repliesOn, through_wrote _ hs]
    exact hc.socket i s pc hi
  | stepped j e t t' c w ht hs =>
    have hlt : j < c.pool.length := (List.getElem?_eq_some_iff.mp ht).1
    have hfresh : ∀ i, (c.pool.set j t').length ≤ i →
        asked i ((c, .act j (.run e)) :: h) = [] ∧ said i ((c, .act j (.run e)) :: h) = [] := by
      intro i hi
      rw [List.length_set] at hi
      rw [asked_other (by omega), said_other (by omega)]
      exact hc.fresh i hi
    -- the replies on the channel of a socket that does not move
    have hother : ∀ (i : Nat) (s : Socket) (pc : SocketPc U),
        (c.pool.set j t')[i]? = some (.socket s pc) → j ≠ i →
          w.repliesOn s.sid = c.shared.repliesOn s.sid →
          Conversed C pc (asked i ((c, .act j (.run e)) :: h))
              ((said i ((c, .act j (.run e)) :: h)).map Prod.fst) ∧
            w.repliesOn s.sid =
              (((said i ((c, .act j (.run e)) :: h)).filter Prod.snd).map Prod.fst).reverse := by
      intro i s pc hi hij hsame
      rw [List.getElem?_set_ne hij] at hi
      rw [asked_other hij, said_other hij, hsame]
      exact hc.socket i s pc hi
    refine ⟨hsids, hids, hfresh, fun i s pc hi => ?_⟩
    cases hs with
    | socket s₀ s₁ pc₀ pc₁ _ _ hs =>
      have hstep : SocketPc.step C e s₀ c.shared pc₀ = some (s₁, pc₁, w) := by
        obtain ⟨r, hr, heq⟩ := Option.map_eq_some_iff.mp (step_of_next ht hn)
        cases heq
        exact hr
      obtain ⟨hconv, hchan⟩ := hc.socket j s₀ pc₀ ht
      obtain ⟨hconv', hrep⟩ := hconv.step hc.ids hstep
      have hreplies := SocketPc.step_replies hstep hrep
      by_cases hij : j = i
      · subst hij
        rw [List.getElem?_set_self hlt] at hi
        cases hi
        have hsid : s.sid = s₀.sid := hs.sid
        rw [asked_socket ht, said_socket ht]
        dsimp only
        rw [hsid, hreplies, if_pos rfl, hchan]
        refine ⟨by simpa [Function.comp_def] using hconv', ?_⟩
        have hoffers : (pc₀.offers e c.shared).length ≤ 1 := by
          cases pc₀ <;> simp [SocketPc.offers]
        generalize pc₀.offers e c.shared = l at hoffers ⊢
        match l with
        | [] => simp
        | [f] =>
          cases hf : (c.shared.trySend s₀.sid f).1 <;> simp [hf]
        | _ :: _ :: _ => simp at hoffers
      · refine hother i s pc hi hij ?_
        rw [hreplies, if_neg, List.append_nil]
        intro hsid
        rw [List.getElem?_set_ne hij] at hi
        exact hij (hc.sids.inj j i s₀ s pc₀ pc ht hi hsid.symm)
    | flush f f' st _ hs =>
      have hij : j ≠ i := by
        rintro rfl
        rw [List.getElem?_set_self hlt] at hi
        cases hi
      exact hother i s pc hi hij rfl
    | gc g g' st _ hs =>
      have hij : j ≠ i := by
        rintro rfl
        rw [List.getElem?_set_self hlt] at hi
        cases hi
      exact hother i s pc hi hij rfl
    | sweepQueues q q' st _ hs =>
      have hij : j ≠ i := by
        rintro rfl
        rw [List.getElem?_set_self hlt] at hi
        cases hi
      exact hother i s pc hi hij rfl
    | sweepFiles t t' st _ hs =>
      have hij : j ≠ i := by
        rintro rfl
        rw [List.getElem?_set_self hlt] at hi
        cases hi
      exact hother i s pc hi hij rfl

/-- The texts that a socket took up and the replies it offered to its channel match one to one,
    in order, but for a text that is being worked on; each reply is one of those its text can
    get. The replies on the channel are the ones it took, in the order they were offered. -/
theorem replies_in_order {st : AppState} (hids : st.bundles.All fun k b => b.id = k)
    (r : Trace (relayMachine C) anyPast (started st) h c) {i : Nat} {s : Socket}
    {pc : SocketPc U} (hpc : c.pool[i]? = some (.socket s pc)) :
    (pc.settled = false → asked i h ≠ []) ∧
      List.Forall₂ (Answered C) (pc.repliedTo (asked i h)) ((said i h).map Prod.fst) ∧
      c.shared.repliesOn s.sid = (((said i h).filter Prod.snd).map Prod.fst).reverse := by
  have hc : Conversing C h c :=
    r.invariant (conversing_start hids) fun _ _ _ _ hc _ hn => hc.step hn
  obtain ⟨hconv, hchan⟩ := hc.socket i s pc hpc
  generalize asked i h = xs at hconv
  generalize (said i h).map Prod.fst = gs at hconv
  cases hconv with
  | settled _ _ hset hmatch =>
    refine ⟨fun hwork => ?_, ?_, hchan⟩
    · rw [hset] at hwork
      cases hwork
    · rw [SocketPc.repliedTo, hset, if_pos rfl]
      exact hmatch
  | replying x xs _ hrep hmatch =>
    refine ⟨fun _ => List.cons_ne_nil x xs, ?_, hchan⟩
    rw [SocketPc.repliedTo, hrep.unsettled, if_neg Bool.false_ne_true]
    exact hmatch

end

/-! ## A run -/

/-- The socket at place `i` and where its handler is. -/
def socketAt {U : Type} (i : Nat) (c : RelayConfig U) : Option (Socket × SocketPc U) :=
  match c.pool[i]? with
  | some (.socket s pc) => some (s, pc)
  | _ => none

theorem pool_of_socketAt {U : Type} {i : Nat} {c : RelayConfig U} {s : Socket} {pc : SocketPc U}
    (h : socketAt i c = some (s, pc)) : c.pool[i]? = some (.socket s pc) := by
  unfold socketAt at h
  split at h
  · cases h
    assumption
  · cases h

/-- The task at place `i` takes a step on a text that is not a frame. -/
def garbled (i : Nat) : Move (RelayMove Nat) :=
  .act i (.run ⟨⟨sampleTime, [], [], 0⟩, .text 2 (.error "EOF while parsing"), 0, false, .error ""⟩)

/-- A socket says Hello, sends a text that is not a frame, and retires its mailbox; the last
    frame is still being worked on. -/
theorem replies_in_order_sample : ∃ (h : RelayPast Nat) (c : RelayConfig Nat),
    Trace (relayMachine sampleCrates) anyPast (started AppState.sampleState) h c ∧
      (asked 1 h).length = 3 ∧
      List.Forall₂ (Answered sampleCrates) (asked 1 h).tail ((said 1 h).map Prod.fst) := by
  obtain ⟨h, c, r, hend⟩ := exists_trace (M := relayMachine sampleCrates) (G := anyPast)
    (c := started (U := Nat) AppState.sampleState)
    (.spawn (.connect sampleTime) :: shortHello 1 ++
      [garbled 1, garbled 1, sampleStep sampleTime 1 .retireMailbox 0 []])
    (p := fun r => decide ((asked 1 r.1).length = 3) &&
      (socketAt 1 r.2).any fun p => !p.2.settled)
    (by decide +kernel)
  obtain ⟨hasked, hany⟩ := Bool.and_eq_true_iff.mp hend
  obtain ⟨⟨s, pc⟩, hat, hwork⟩ := (Option.any_eq_true _ _).mp hany
  have hmatch := (replies_in_order OrdMap.all_empty r (pool_of_socketAt hat)).2.1
  have hset : pc.settled = false := by simpa using hwork
  rw [SocketPc.repliedTo, hset, if_neg Bool.false_ne_true] at hmatch
  exact ⟨h, c, r, of_decide_eq_true hasked, hmatch⟩

end AxenoRelay
