/-
  Who receives an envelope.

  An envelope gets onto a channel at two places: a sender pushes it to the live route of
  its mailbox, and the Hello of a socket pushes what it has flushed (`Delivers`). Both
  lead back to a Hello that was accepted on that very socket, for the mailbox of the
  envelope and not `cert_only`: only such a Hello publishes a route, and only such a
  Hello flushes (`delivered_to_collector`).
-/
import AxenoRelay.Ws.Conversation
import AxenoRelay.Ws.Delivery

namespace AxenoRelay

open Interleave QueueStore

/-! ## Envelopes on a channel -/

section

variable {U : Type}

/-- The envelope of a delivery. -/
def ServerFrame.delivers : ServerFrame U → Option (StoredEnvelope U)
  | .envelope env => some env
  | _ => none

/-- The envelopes that have gone through the channel of socket `sid`. -/
def Relay.envelopesOn (w : Relay U) (sid : Nat) : List (StoredEnvelope U) :=
  w.through ServerFrame.delivers sid

theorem pushedTo_iff {w : Relay U} {sid : Nat} {env : StoredEnvelope U} :
    PushedTo sid env w ↔ env ∈ w.envelopesOn sid := by
  constructor
  · intro h
    obtain ⟨ch, hch, hmem⟩ := h
    rw [Relay.envelopesOn, through_chan _ hch]
    exact List.mem_filterMap.mpr ⟨_, hmem, rfl⟩
  · intro h
    cases hch : w.chans[sid]? with
    | none =>
      rw [Relay.envelopesOn, Relay.through, hch] at h
      cases h
    | some ch =>
      rw [Relay.envelopesOn, through_chan _ hch] at h
      obtain ⟨f, hf, hd⟩ := List.mem_filterMap.mp h
      cases f <;> cases hd
      exact ⟨ch, hch, hf⟩

theorem ServerFrame.delivers_reply {f : ServerFrame U} (h : f.isReply = true) :
    f.delivers = none := by
  cases f <;> first | rfl | cases h

/-- The envelope is a row of its mailbox. -/
def Queued [UuidText U] (env : StoredEnvelope U) (tab : Envelopes) : Prop :=
  ∃ v, tab.get (keyFor env.toId env.id) = some v ∧ toEnvelope env.toId (env.id, v) = env

/-- The next step of the handler pushes the envelope onto the channel of socket `sid`. -/
inductive Delivers (sid : Nat) (env : StoredEnvelope U) (id : U) (s : Socket) (w : Relay U) :
    SocketPc U → Prop
  | flushed (rest : List (StoredEnvelope U)) (d n : Nat) (hs : s.sid = sid) :
      Delivers sid env id s w (.helloPush (env :: rest) d n)
  | live (r : Option String) (hid : env.id = id) (h : w.app.online.get env.toId = some sid) :
      Delivers sid env id s w (.sendLive r env.toId env.envelopeType env.ciphertext)

/-- What the handler has still to push of what it flushed. -/
def SocketPc.flushed : SocketPc U → List (StoredEnvelope U)
  | helloPush rest _ _ => rest
  | _ => []

/-- The mailbox that the handler is about to collect mail for. -/
def SocketPc.collecting : SocketPc U → Option RecipientId
  | helloMark rid _ false | helloOk rid _ false | helloOnline rid _ | helloFlush rid _ => some rid
  | _ => none

theorem SocketPc.Plain.flushed {pc : SocketPc U} (h : pc.Plain) : pc.flushed = [] := by
  cases pc <;> first | rfl | exact h.elim

theorem SocketPc.Plain.collecting {pc : SocketPc U} (h : pc.Plain) : pc.collecting = none := by
  cases pc <;> first | rfl | exact h.elim

/-- Before, the socket at place `i` took up a Hello for `m` that was not `cert_only` and was
    accepted: its token is the one `m` is registered with. -/
inductive Collects [UuidText U] [DecidableEq U] (C : Crates) (i : Nat) (m : RecipientId)
    (h : RelayPast U) : Prop
  | hello (h₁ : RelayPast U) (c₁ : RelayConfig U) (e : RelayEvent U) (s s' : Socket) (w : Relay U)
      (n v : Nat) (token delivery : String) (pmin pmax version : Option Nat)
      (pow : Option String) (a : MailboxAuth) (hpast : (c₁, .act i (.run e)) :: h₁ <:+ h)
      (hready : c₁.pool[i]? = some (.socket s .ready))
      (hin : e.incoming =
        .text n (.ok (.hello m token delivery pmin pmax version pow false)))
      (hstep : SocketPc.step C e s c₁.shared .ready = some (s', .helloMark m v false, w))
      (ha : w.app.mailboxAuth.get m = some a) (hhash : a.receiveAuthHash = tokenHash C token)

end

/-! ## One step -/

section

variable {U : Type} [UuidText U] {C : Crates} {e : RelayEvent U}

theorem SocketPc.Stepped.envelopesOn {s s' : Socket} {pc pc' : SocketPc U} {w w' : Relay U}
    (hs : SocketPc.Stepped C e s pc w s' pc' w') (hok : ∀ rid v b, pc ≠ .helloOk rid v b)
    (hrep : ∀ f ∈ pc.offers e w, f.isReply = true) {sid : Nat} {env : StoredEnvelope U}
    (h : env ∈ w'.envelopesOn sid) : env ∈ w.envelopesOn sid ∨ Delivers sid env e.uuid s w pc := by
  -- a push of one frame
  have hpush : ∀ {j : Nat} {f : ServerFrame U}, env ∈ w.through ServerFrame.delivers sid ++
      (if sid = j then f.delivers.toList else []) →
        env ∈ w.envelopesOn sid ∨ sid = j ∧ f.delivers = some env := by
    intro j f hmem
    refine (List.mem_append.mp hmem).imp_right fun hmem => ?_
    split_ifs at hmem with hj
    · exact ⟨hj, Option.mem_toList.mp hmem⟩
    · cases hmem
  cases hs
  case said f last =>
    rw [Relay.envelopesOn, through_say,
      ServerFrame.delivers_reply (hrep f (List.mem_singleton_self f))] at h
    exact Or.inl (by simpa [Relay.envelopesOn] using h)
  case helloOk => exact absurd rfl (hok _ _ _)
  case helloPush env' rest d n ch hch =>
    rw [Relay.envelopesOn, through_push _ hch rfl] at h
    refine (hpush h).imp_right fun hnew => ?_
    obtain ⟨rfl, hd⟩ := hnew
    obtain rfl := Option.some.inj hd
    exact .flushed rest d n rfl
  case helloSynced ch hch =>
    rw [Relay.envelopesOn, through_push _ hch rfl] at h
    refine (hpush h).imp_right fun hnew => ?_
    cases hnew.2
  case sendPushed r m ty ct j ch hnew hget hch =>
    rw [Relay.envelopesOn, through_push _ hch rfl] at h
    refine (hpush h).imp_right fun hnew => ?_
    obtain ⟨rfl, hd⟩ := hnew
    obtain rfl := Option.some.inj hd
    exact .live r rfl hget
  case closeEnd =>
    rw [Relay.envelopesOn, through_close _ s.sid rfl] at h
    exact Or.inl h
  all_goals exact Or.inl h

/-- An envelope on a channel after a step was there before, or the step pushed it. -/
theorem SocketPc.step_envelopes [DecidableEq U] {s s' : Socket} {pc pc' : SocketPc U}
    {w w' : Relay U} (hs : SocketPc.step C e s w pc = some (s', pc', w'))
    (hrep : ∀ f ∈ pc.offers e w, f.isReply = true) {sid : Nat} {env : StoredEnvelope U}
    (h : env ∈ w'.envelopesOn sid) : env ∈ w.envelopesOn sid ∨ Delivers sid env e.uuid s w pc := by
  by_cases hok : ∃ rid v b, pc = .helloOk rid v b
  · obtain ⟨rid, v, b, rfl⟩ := hok
    cases hs
    rw [Relay.envelopesOn, ← Relay.say, through_say] at h
    exact Or.inl (by simpa [Relay.envelopesOn, ServerFrame.delivers] using h)
  · exact (SocketPc.stepped_of_step hs).envelopesOn
      (fun rid v b hpc => hok ⟨rid, v, b, hpc⟩) hrep h

/-- What a flush returns are rows of its mailbox. -/
theorem queued_of_flush {tab : Envelopes} (hk : KeysOk U tab) {m : RecipientId} (hm : NameOk m)
    {fs : Faults} {l : List (StoredEnvelope U)} (h : ((flush U m).commit fs tab).1 = .ok l)
    {env : StoredEnvelope U} (henv : env ∈ l) : env.toId = m ∧ Queued env tab := by
  rcases flush_cases (U := U) m fs tab with ⟨err, he⟩ | he
  · rw [he] at h
    cases h
  · rw [he] at h
    cases h
    obtain ⟨⟨id, v⟩, hrow, rfl⟩ := List.mem_map.mp henv
    exact ⟨rfl, v, (mem_queueRows hk hm).mp hrow, rfl⟩

theorem SocketPc.Stepped.flushed {s s' : Socket} {pc pc' : SocketPc U} {w w' : Relay U}
    (hs : SocketPc.Stepped C e s pc w s' pc' w') (hflush : ∀ rid n, pc ≠ .helloFlush rid n)
    {env : StoredEnvelope U} (h : env ∈ pc'.flushed) : env ∈ pc.flushed := by
  cases hs
  case inner hin =>
    rw [hin.target.flushed] at h
    cases h
  case said last => cases last <;> cases h
  case helloOk certOnly _ => cases certOnly <;> cases h
  case helloFlush => exact absurd rfl (hflush _ _)
  case helloPush => exact List.mem_cons_of_mem _ h
  all_goals cases h

/-- What a handler has to push after a step it had before, or it has just flushed it. -/
theorem SocketPc.step_flushed [DecidableEq U] {s s' : Socket} {pc pc' : SocketPc U}
    {w w' : Relay U} (hs : SocketPc.step C e s w pc = some (s', pc', w'))
    (hk : KeysOk U w.app.queues.envelopes) (hn : (RelayTask.socket s pc).Named)
    {env : StoredEnvelope U} (h : env ∈ pc'.flushed) : env ∈ pc.flushed ∨
      (∃ n, pc = .helloFlush env.toId n) ∧ Queued env w.app.queues.envelopes := by
  by_cases hflush : ∃ rid n, pc = .helloFlush rid n
  · obtain ⟨rid, n, rfl⟩ := hflush
    cases hs
    have hm : NameOk rid := hn.1 rid hn.2
    by_cases hrun : e.notRun = true
    · rw [hrun, if_pos rfl] at h
      cases h
    · rw [if_neg hrun] at h
      dsimp only [SocketPc.flushed] at h
      split at h
      · rename_i envs hok
        obtain ⟨rfl, hq⟩ := queued_of_flush hk hm hok h
        exact Or.inr ⟨⟨n, rfl⟩, hq⟩
      · cases h
  · exact Or.inl ((SocketPc.stepped_of_step hs).flushed (fun rid n hpc => hflush ⟨rid, n, hpc⟩) h)

/-- A handler that is about to collect mail was so before, or has just accepted a Hello. -/
theorem SocketPc.Stepped.collecting {s s' : Socket} {pc pc' : SocketPc U} {w w' : Relay U}
    (hs : SocketPc.Stepped C e s pc w s' pc' w') {m : RecipientId}
    (h : pc'.collecting = some m) : pc.collecting = some m ∨ pc = .ready ∧
      (∃ v, pc' = .helloMark m v false) ∧ ∃ n token delivery pmin pmax version pow a,
        e.incoming = .text n (.ok (.hello m token delivery pmin pmax version pow false)) ∧
          w'.app.mailboxAuth.get m = some a ∧ a.receiveAuthHash = tokenHash C token := by
  cases hs
  case inner hin =>
    rw [hin.target.collecting] at h
    cases h
  case said last => cases last <;> cases h
  case hello n rid token delivery pmin pmax version pow v certOnly app hin _ hentry _ =>
    cases certOnly with
    | true => cases h
    | false =>
      obtain rfl := Option.some.inj h
      obtain ⟨a, ha, hmap, _⟩ := helloEntry_auth hentry
      refine Or.inr ⟨rfl, ⟨v, rfl⟩, n, token, delivery, pmin, pmax, version, pow, a, hin, ?_, ha⟩
      dsimp only
      rw [hmap, OrdMap.get_insert, if_pos rfl]
  case helloMark certOnly =>
    cases certOnly with
    | true => cases h
    | false => exact Or.inl h
  case helloOk certOnly _ =>
    cases certOnly with
    | true => cases h
    | false => exact Or.inl h
  case helloOnline => exact Or.inl h
  all_goals cases h

end

/-! ## Runs -/

section

variable {U : Type} [UuidText U] {C : Crates} {c c' : RelayConfig U} {mv : Move (RelayMove U)}

/-- A socket stays in its place, with its number. -/
theorem Moved.socket_kept (hm : Moved C c mv c') {i : Nat} {s : Socket} {pc : SocketPc U}
    (hi : c.pool[i]? = some (.socket s pc)) :
    ∃ s' pc', c'.pool[i]? = some (.socket s' pc') ∧ s'.sid = s.sid := by
  have hlt : i < c.pool.length := (List.getElem?_eq_some_iff.mp hi).1
  cases hm with
  | spawned ev t c w hs => exact ⟨s, pc, (List.getElem?_append_left hlt).trans hi, rfl⟩
  | wrote ev c w hs => exact ⟨s, pc, hi, rfl⟩
  | stepped j e t t' c w ht hs =>
    by_cases hij : j = i
    · subst hij
      obtain rfl := Option.some.inj (ht.symm.trans hi)
      cases hs with
      | socket _ s' _ pc' _ _ hs => exact ⟨s', pc', List.getElem?_set_self hlt, hs.sid⟩
    · exact ⟨s, pc, (List.getElem?_set_ne hij).trans hi, rfl⟩

variable [DecidableEq U] {h h' : RelayPast U}

theorem Collects.later {i : Nat} {m : RecipientId} (hc : Collects C i m h) (hl : h <:+ h') :
    Collects C i m h' := by
  obtain ⟨h₁, c₁, e, s, s', w, n, v, token, delivery, pmin, pmax, version, pow, a, hpast, hready,
    hin, hstep, ha, hhash⟩ := hc
  exact ⟨h₁, c₁, e, s, s', w, n, v, token, delivery, pmin, pmax, version, pow, a,
    hpast.trans hl, hready, hin, hstep, ha, hhash⟩

/-- The socket with number `sid` has collected mail for `m`. -/
def Collector (C : Crates) (h : RelayPast U) (c : RelayConfig U) (sid : Nat) (m : RecipientId) :
    Prop :=
  ∃ i s pc, c.pool[i]? = some (.socket s pc) ∧ s.sid = sid ∧ Collects C i m h

theorem Collector.step {sid : Nat} {m : RecipientId} (hc : Collector C h c sid m)
    (hm : Moved C c mv c') : Collector C ((c, mv) :: h) c' sid m := by
  obtain ⟨i, s, pc, hi, hsid, hcol⟩ := hc
  obtain ⟨s', pc', hi', hsame⟩ := hm.socket_kept hi
  exact ⟨i, s', pc', hi', hsame.trans hsid, hcol.later (List.suffix_cons _ _)⟩

/-- Routes, flushed lists and deliveries all go back to a Hello for their mailbox. -/
structure Routed (C : Crates) (h : RelayPast U) (c : RelayConfig U) : Prop where
  named : Named c
  conv : Conversing C h c
  hello : ∀ (i : Nat) (s : Socket) (pc : SocketPc U) (m : RecipientId),
    c.pool[i]? = some (.socket s pc) → pc.collecting = some m → Collects C i m h
  list : ∀ (i : Nat) (s : Socket) (pc : SocketPc U) (env : StoredEnvelope U),
    c.pool[i]? = some (.socket s pc) → env ∈ pc.flushed → Collects C i env.toId h
  route : ∀ (m : RecipientId) (sid : Nat), c.shared.app.online.get m = some sid →
    Collector C h c sid m
  chan : ∀ (sid : Nat) (env : StoredEnvelope U), env ∈ c.shared.envelopesOn sid →
    Collector C h c sid env.toId

theorem routed_start {st : AppState} (hk : KeysOk U st.queues.envelopes)
    (hn : st.mailboxAuth.All fun m _ => NameOk m) (hids : st.bundles.All fun k b => b.id = k)
    (hon : st.online = OrdMap.empty) : Routed C [] (started st : RelayConfig U) := by
  have hpool : ∀ (i : Nat) (s : Socket) (pc : SocketPc U),
      (started st : RelayConfig U).pool[i]? ≠ some (.socket s pc) := by
    intro i s pc h
    cases List.mem_singleton.mp (List.mem_of_getElem? h)
  refine ⟨named_start hk hn, conversing_start hids, fun i s pc m h => absurd h (hpool i s pc),
    fun i s pc env h => absurd h (hpool i s pc), fun m sid h => ?_, fun sid env h => ?_⟩
  · change st.online.get m = some sid at h
    rw [hon] at h
    cases h
  · cases h

/-- A step of a socket keeps it. -/
theorem Routed.socket_step (hr : Routed C h c) {j : Nat} {e : RelayEvent U} {s₀ s₁ : Socket}
    {pc₀ pc₁ : SocketPc U} {w : Relay U} (ht : c.pool[j]? = some (.socket s₀ pc₀))
    (hstep : SocketPc.step C e s₀ c.shared pc₀ = some (s₁, pc₁, w))
    (hm : Moved C c (.act j (.run e)) ⟨w, c.pool.set j (.socket s₁ pc₁)⟩)
    (hnamed : Named ⟨w, c.pool.set j (.socket s₁ pc₁)⟩)
    (hconv : Conversing C ((c, .act j (.run e)) :: h) ⟨w, c.pool.set j (.socket s₁ pc₁)⟩) :
    Routed C ((c, .act j (.run e)) :: h) ⟨w, c.pool.set j (.socket s₁ pc₁)⟩ := by
  have hs := SocketPc.stepped_of_step hstep
  have hlater : h <:+ (c, Move.act j (RelayMove.run e)) :: h := List.suffix_cons _ _
  have hrep := ((hr.conv.socket j s₀ pc₀ ht).1.step hr.conv.ids hstep).2
  refine ⟨hnamed, hconv, fun i s pc m hi hcol => ?_, fun i s pc env hi henv => ?_,
    fun m sid hroute => ?_, fun sid env henv => ?_⟩
  · rcases getElem?_set_cases hi with ⟨rfl, heq⟩ | ⟨_, hold⟩
    · cases heq
      rcases hs.collecting hcol with hwas | ⟨rfl, ⟨v, rfl⟩, n, token, delivery, pmin, pmax,
        version, pow, a, hin, ha, hhash⟩
      · exact (hr.hello i s₀ pc₀ m ht hwas).later hlater
      · exact .hello h c e s₀ s₁ w n v token delivery pmin pmax version pow a (List.suffix_refl _) ht
          hin hstep ha hhash
    · exact (hr.hello i s pc m hold hcol).later hlater
  · rcases getElem?_set_cases hi with ⟨rfl, heq⟩ | ⟨_, hold⟩
    · cases heq
      rcases SocketPc.step_flushed hstep hr.named.keys (hr.named.tasks _ (List.mem_of_getElem? ht))
        henv with hwas | ⟨⟨n, rfl⟩, _⟩
      · exact (hr.list i s₀ pc₀ env ht hwas).later hlater
      · exact (hr.hello i s₀ _ env.toId ht rfl).later hlater
    · exact (hr.list i s pc env hold henv).later hlater
  · have honline : w.app.online = editRoute c.shared.app.online (pc₀.routeEdit s₀) := hs.online
    change w.app.online.get m = some sid at hroute
    rw [honline] at hroute
    have hold : c.shared.app.online.get m = some sid ∨
        (∃ n, pc₀ = .helloOnline m n) ∧ s₀.sid = sid := by
      cases pc₀ with
      | helloOnline rid n =>
        simp only [SocketPc.routeEdit, editRoute, OrdMap.get_assign] at hroute
        split_ifs at hroute with hm
        · obtain rfl := hm
          exact Or.inr ⟨⟨n, rfl⟩, Option.some.inj hroute⟩
        · exact Or.inl hroute
      | sendStale r env =>
        simp only [SocketPc.routeEdit, editRoute, OrdMap.get_assign] at hroute
        split_ifs at hroute
        exact Or.inl hroute
      | retireOnline rid =>
        simp only [SocketPc.routeEdit, editRoute, OrdMap.get_assign] at hroute
        split_ifs at hroute
        exact Or.inl hroute
      | closeRemove rid =>
        simp only [SocketPc.routeEdit, editRoute, OrdMap.get_assign] at hroute
        split_ifs at hroute
        exact Or.inl hroute
      | _ => exact Or.inl hroute
    rcases hold with hold | ⟨⟨n, rfl⟩, hsid⟩
    · exact (hr.route m sid hold).step hm
    · exact Collector.step ⟨j, s₀, _, ht, hsid, hr.hello j s₀ _ m ht rfl⟩ hm
  · rcases SocketPc.step_envelopes hstep hrep henv with hold | hdel
    · exact (hr.chan sid env hold).step hm
    · cases hdel with
      | flushed rest d n hsid =>
        have hmem : env ∈ (SocketPc.helloPush (env :: rest) d n).flushed := List.mem_cons_self
        exact Collector.step ⟨j, s₀, _, ht, hsid, hr.list j s₀ _ env ht hmem⟩ hm
      | live r hid hget => exact (hr.route env.toId sid hget).step hm

theorem Routed.step (hr : Routed C h c) (hn : (relayMachine C).next mv c = some c') :
    Routed C ((c, mv) :: h) c' := by
  have hm := moved_of_next hn
  have hnamed := hr.named.step hm
  have hconv := hr.conv.step hn
  have hlater : h <:+ (c, mv) :: h := List.suffix_cons _ _
  -- a move that adds no route, list or delivery
  have hquiet : (∀ (i : Nat) (s : Socket) (pc : SocketPc U), c'.pool[i]? = some (.socket s pc) → c.pool[i]? = some (.socket s pc) ∨
        pc = .ready) → c'.shared.app.online = c.shared.app.online →
      (∀ sid, c'.shared.envelopesOn sid = c.shared.envelopesOn sid) →
      Routed C ((c, mv) :: h) c' := by
    intro hpool honline hchan
    refine ⟨hnamed, hconv, fun i s pc m hi hcol => ?_, fun i s pc env hi henv => ?_,
      fun m sid hroute => ?_, fun sid env henv => ?_⟩
    · rcases hpool i s pc hi with hold | rfl
      · exact (hr.hello i s pc m hold hcol).later hlater
      · cases hcol
    · rcases hpool i s pc hi with hold | rfl
      · exact (hr.list i s pc env hold henv).later hlater
      · cases henv
    · rw [honline] at hroute
      exact (hr.route m sid hroute).step hm
    · rw [hchan] at henv
      exact (hr.chan sid env henv).step hm
  cases hm with
  | spawned ev t c w hs =>
    obtain ⟨n, happ⟩ := hs.app
    refine hquiet (fun i s pc hi => ?_) (by dsimp only; rw [happ]) fun sid => through_spawned _ hs sid
    rcases getElem?_snoc_cases hi with hold | ⟨_, heq⟩
    · exact Or.inl hold
    · cases hs <;> cases heq
      exact Or.inr rfl
  | wrote ev c w hs =>
    exact hquiet (fun i s pc hi => Or.inl hi) (by dsimp only; rw [hs.app])
      fun sid => through_wrote _ hs sid
  | stepped j e t t' c w ht hs =>
    have hlt : j < c.pool.length := (List.getElem?_eq_some_iff.mp ht).1
    cases hs with
    | socket s₀ s₁ pc₀ pc₁ _ _ hs =>
      have hstep : SocketPc.step C e s₀ c.shared pc₀ = some (s₁, pc₁, w) := by
        obtain ⟨r, hr, heq⟩ := Option.map_eq_some_iff.mp (step_of_next ht hn)
        cases heq
        exact hr
      exact hr.socket_step ht hstep (moved_of_next hn) hnamed hconv
    | flush f f' st _ hs =>
      refine hquiet (fun i s pc hi => Or.inl ?_) (by cases hs <;> rfl) fun sid => rfl
      rcases getElem?_set_cases hi with ⟨_, heq⟩ | ⟨_, hold⟩
      · cases heq
      · exact hold
    | gc g g' st _ hs =>
      refine hquiet (fun i s pc hi => Or.inl ?_) (by cases hs <;> rfl) fun sid => rfl
      rcases getElem?_set_cases hi with ⟨_, heq⟩ | ⟨_, hold⟩
      · cases heq
      · exact hold
    | sweepQueues q q' st _ hs =>
      refine hquiet (fun i s pc hi => Or.inl ?_) rfl fun sid => rfl
      rcases getElem?_set_cases hi with ⟨_, heq⟩ | ⟨_, hold⟩
      · cases heq
      · exact hold
    | sweepFiles t t' st _ hs =>
      refine hquiet (fun i s pc hi => Or.inl ?_) rfl fun sid => rfl
      rcases getElem?_set_cases hi with ⟨_, heq⟩ | ⟨_, hold⟩
      · cases heq
      · exact hold

/-- Every envelope on a channel was pushed to a socket that had said a Hello for its mailbox, with
    the token the mailbox was registered with. -/
theorem delivered_to_collector {st : AppState} (hk : KeysOk U st.queues.envelopes)
    (hn : st.mailboxAuth.All fun m _ => NameOk m) (hids : st.bundles.All fun k b => b.id = k)
    (hon : st.online = OrdMap.empty) (r : Trace (relayMachine C) anyPast (started st) h c)
    {sid : Nat} {env : StoredEnvelope U} (hpushed : PushedTo sid env c.shared) :
    Collector C h c sid env.toId := by
  have hr : Routed C h c :=
    r.invariant (routed_start hk hn hids hon) fun _ _ _ _ hr _ hn => hr.step hn
  exact hr.chan sid env (pushedTo_iff.mp hpushed)

end

/-! ## A run -/

/-- The envelope of the sample frame, with id 1. -/
def sampleEnvelope : StoredEnvelope Nat := ⟨1, AppState.sampleRid, "message", "hi"⟩

/-- Alice is online, and Bob's envelope is pushed onto her channel. -/
theorem delivered_to_collector_sample : ∃ (h : RelayPast Nat) (c : RelayConfig Nat),
    Trace (relayMachine sampleCrates) anyPast (started AppState.sampleState) h c ∧
      PushedTo 0 sampleEnvelope c.shared ∧ Collector sampleCrates h c 0 AppState.sampleRid := by
  obtain ⟨h, c, r, hend⟩ := exists_trace (M := relayMachine sampleCrates) (G := anyPast)
    (c := started (U := Nat) AppState.sampleState) (bothOnline ++ handled 2 3 sampleSend)
    (p := fun r => decide (PushedTo 0 sampleEnvelope r.2.shared)) (by decide +kernel)
  have hpushed := of_decide_eq_true hend
  exact ⟨h, c, r, hpushed, delivered_to_collector keysOk_empty OrdMap.all_empty OrdMap.all_empty
    rfl r hpushed⟩

end AxenoRelay
