/-
  Where an envelope comes from.

  An envelope is made at one place: a SendEnvelope handler that has passed the token check
  draws an id for it. `births` reads these draws off the past, each with the socket and the
  number of the text it was made for. Whatever the relay holds or delivers was born so, or
  was queued when it started, with its destination, type and ciphertext as they were sent;
  no two births share an id, and no text gives birth twice.
-/
import AxenoRelay.Ws.Deliveries

namespace AxenoRelay

open Interleave QueueStore

section

variable {U : Type}

/-- The envelope drawn at a step, and the socket and the text it was made for. -/
structure Birth (U : Type) where
  env : StoredEnvelope U
  place : Nat
  text : Nat
deriving DecidableEq

/-- The envelopes drawn so far, newest first. -/
def births : RelayPast U → List (Birth U)
  | [] => []
  | (c, .act i (.run e)) :: h =>
    match c.pool[i]? with
    | some t => ((t.draws e.uuid).map fun env => ⟨env, i, (asked i h).length⟩).toList ++ births h
    | none => births h
  | _ :: h => births h

theorem births_act {c : RelayConfig U} {i : Nat} {t : RelayTask U} {e : RelayEvent U}
    {h : RelayPast U} (ht : c.pool[i]? = some t) : births ((c, .act i (.run e)) :: h) =
      ((t.draws e.uuid).map fun env => ⟨env, i, (asked i h).length⟩).toList ++ births h := by
  rw [births, ht]

/-- Text number `n` of the socket at place `i` was a SendEnvelope with this destination, type and
    ciphertext, and a token that the destination accepted. -/
inductive AcceptedSend (C : Crates) (i n : Nat) (m ty ct : String) (h : RelayPast U) : Prop
  | taken (h₁ : RelayPast U) (c₁ : RelayConfig U) (e : RelayEvent U) (s : Socket) (length : Nat)
      (r : Option String) (token : String) (a : MailboxAuth)
      (hpast : (c₁, .act i (.run e)) :: h₁ <:+ h)
      (hready : c₁.pool[i]? = some (.socket s .ready))
      (hin : e.incoming = .text length (.ok (.sendEnvelope r m token ty ct)))
      (hn : (asked i h₁).length + 1 = n) (ha : c₁.shared.app.mailboxAuth.get m = some a)
      (haccepts : a.acceptsDeliveryHash (tokenHash C token) = true)

/-- The destination, type and ciphertext of a handler that has passed the token check and has not
    drawn an id yet. -/
def SocketPc.sends : SocketPc U → Option (String × String × String)
  | sendRate _ m ty ct | sendLive _ m ty ct => some (m, ty, ct)
  | _ => none

/-- The envelope that the handler has drawn and is still working on. -/
def SocketPc.drawn : SocketPc U → Option (StoredEnvelope U)
  | sendStale _ env | sendCheck _ env _ | sendQueue _ env _ _ | sendMark _ env _ _ => some env
  | _ => none

theorem SocketPc.Plain.sends {pc : SocketPc U} (h : pc.Plain) : pc.sends = none := by
  cases pc <;> first | rfl | exact h.elim

theorem SocketPc.Plain.drawn {pc : SocketPc U} (h : pc.Plain) : pc.drawn = none := by
  cases pc <;> first | rfl | exact h.elim

/-- The relay holds the envelope, or has delivered it. -/
inductive Present [UuidText U] (env : StoredEnvelope U) (c : RelayConfig U) : Prop
  | handled (i : Nat) (s : Socket) (pc : SocketPc U) (hi : c.pool[i]? = some (.socket s pc))
      (h : pc.drawn = some env)
  | flushed (i : Nat) (s : Socket) (pc : SocketPc U) (hi : c.pool[i]? = some (.socket s pc))
      (h : env ∈ pc.flushed)
  | queued (hm : NameOk env.toId) (h : Queued env c.shared.app.queues.envelopes)
  | delivered (sid : Nat) (h : PushedTo sid env c.shared)

end

/-! ## One step -/

section

variable {U : Type} [UuidText U] {C : Crates} {e : RelayEvent U}

theorem SocketPc.Stepped.sends {s s' : Socket} {pc pc' : SocketPc U} {w w' : Relay U}
    (hs : SocketPc.Stepped C e s pc w s' pc' w') {m ty ct : String}
    (h : pc'.sends = some (m, ty, ct)) :
    (pc.isReady = false ∧ pc.sends = some (m, ty, ct) ∧ pc.draws e.uuid = none) ∨
      pc = .ready ∧ ∃ n r token a, e.incoming = .text n (.ok (.sendEnvelope r m token ty ct)) ∧
        w.app.mailboxAuth.get m = some a ∧ a.acceptsDeliveryHash (tokenHash C token) = true := by
  cases hs
  case inner hin =>
    rw [hin.target.sends] at h
    cases h
  case said last => cases last <;> cases h
  case helloOk certOnly _ => cases certOnly <;> cases h
  case sendAuth n r m' token ty' ct' a hin haccepts _ hget _ =>
    cases h
    exact Or.inr ⟨rfl, n, r, token, a, hin, hget, haccepts⟩
  case sendRate => exact Or.inl ⟨rfl, h, rfl⟩
  all_goals cases h

/-- What a handler has drawn after a step it had before, or draws now. -/
theorem SocketPc.Stepped.drawn {s s' : Socket} {pc pc' : SocketPc U} {w w' : Relay U}
    (hs : SocketPc.Stepped C e s pc w s' pc' w') {env : StoredEnvelope U}
    (h : pc'.drawn = some env) : pc.drawn = some env ∨ pc.draws e.uuid = some env := by
  cases hs
  case inner hin =>
    rw [hin.target.drawn] at h
    cases h
  case said last => cases last <;> cases h
  case helloOk certOnly _ => cases certOnly <;> cases h
  case sendMissed => exact Or.inr h
  case sendPushed => exact Or.inr h
  case sendFailed => exact Or.inr h
  case sendStale => exact Or.inl h
  case sendStart => exact Or.inl h
  case sendQueue => exact Or.inl h
  case sendQueued => exact Or.inl h
  all_goals cases h

/-- A draw takes a new id. -/
theorem SocketPc.Stepped.drawsNew {s s' : Socket} {pc pc' : SocketPc U} {w w' : Relay U}
    (hs : SocketPc.Stepped C e s pc w s' pc' w') {env : StoredEnvelope U}
    (h : pc.draws e.uuid = some env) :
    env.id ∉ w.issued ∧ env.id ∈ w'.issued ∧
      pc.sends = some (env.toId, env.envelopeType, env.ciphertext) := by
  cases hs
  case inner hin =>
    have hplain := hin.source
    cases pc <;> first | exact hplain.elim | cases h
  case sendMissed hnew _ =>
    cases h
    exact ⟨hnew, List.mem_cons_self, rfl⟩
  case sendPushed hnew _ _ =>
    cases h
    exact ⟨hnew, List.mem_cons_self, rfl⟩
  case sendFailed hnew _ _ =>
    cases h
    exact ⟨hnew, List.mem_cons_self, rfl⟩
  all_goals cases h

/-- A row after a step was one before, or the handler commits what it has drawn. -/
theorem RowsStep.queued {es : StoreEvent} {t t' : RelayTask U} {tab tab' : Envelopes}
    (h : RowsStep es t t' tab tab') {env : StoredEnvelope U} (hm : NameOk env.toId)
    (hq : Queued env tab') : Queued env tab ∨ ∃ s pc, t = .socket s pc ∧ pc.drawn = some env := by
  obtain ⟨v, hv, henv⟩ := hq
  rcases h.get_cases hv with hold | ⟨s, r, env', live, ids, b, rfl, -, hkey, hm', hty, hct⟩
  · exact Or.inl ⟨v, hold, henv⟩
  · obtain ⟨hto, hid⟩ := keyFor_inj hm hm' hkey
    refine Or.inr ⟨s, _, rfl, congrArg some ?_⟩
    rw [← henv, toEnvelope, hty, hct, hto, hid]

end

/-! ## Moves -/

section

variable {U : Type} [UuidText U] {C : Crates} {h h' : RelayPast U} {c c' : RelayConfig U}
  {mv : Move (RelayMove U)}

/-- What the relay holds or has delivered by the rest of the pool and by a step that changes no
    queue and no channel. -/
theorem Present.quiet {env : StoredEnvelope U} (h : Present env c')
    (hpool : ∀ (i : Nat) (s : Socket) (pc : SocketPc U), c'.pool[i]? = some (.socket s pc) →
      c.pool[i]? = some (.socket s pc) ∨ pc = .ready)
    (hrows : NameOk env.toId → Queued env c'.shared.app.queues.envelopes →
      Queued env c.shared.app.queues.envelopes)
    (hchan : ∀ sid, c'.shared.envelopesOn sid = c.shared.envelopesOn sid) : Present env c := by
  cases h with
  | handled i s pc hi h =>
    rcases hpool i s pc hi with hold | rfl
    · exact .handled i s pc hold h
    · cases h
  | flushed i s pc hi h =>
    rcases hpool i s pc hi with hold | rfl
    · exact .flushed i s pc hold h
    · cases h
  | queued hm h => exact .queued hm (hrows hm h)
  | delivered sid h =>
    refine .delivered sid ?_
    rw [pushedTo_iff, ← hchan]
    exact pushedTo_iff.mp h

variable [DecidableEq U]

/-- What the relay holds after a move it held before, or the move draws it. -/
theorem Present.step (hnamed : Named c) (hconv : Conversing C h c)
    (hn : (relayMachine C).next mv c = some c') {env : StoredEnvelope U} (hp : Present env c') :
    Present env c ∨ ∃ (i : Nat) (e : RelayEvent U) (t : RelayTask U), mv = .act i (.run e) ∧
      c.pool[i]? = some t ∧ t.draws e.uuid = some env := by
  have hm := moved_of_next hn
  cases hm with
  | spawned ev t c w hs =>
    obtain ⟨n, happ⟩ := hs.app
    refine Or.inl (hp.quiet (fun i s pc hi => ?_) (fun _ hq => ?_) fun sid => through_spawned _ hs sid)
    · rcases getElem?_snoc_cases hi with hold | ⟨_, heq⟩
      · exact Or.inl hold
      · cases hs <;> cases heq
        exact Or.inr rfl
    · dsimp only at hq
      rw [happ] at hq
      exact hq
  | wrote ev c w hs =>
    refine Or.inl (hp.quiet (fun i s pc hi => Or.inl hi) (fun _ hq => ?_)
      fun sid => through_wrote _ hs sid)
    dsimp only at hq
    rw [hs.app] at hq
    exact hq
  | stepped j e t t' c w ht hs =>
    have hmem := List.mem_of_getElem? ht
    have hrows := (hs.namedStep hnamed.keys hnamed.names (hnamed.tasks t hmem)).rows
    -- a task that is not a socket
    have hquiet : (∀ s pc, t ≠ .socket s pc) → (∀ s pc, t' ≠ .socket s pc) →
        w.chans = c.shared.chans → Present env c := by
      intro hno hno' hchans
      refine hp.quiet (fun i s pc hi => Or.inl ?_) (fun hm hq => ?_) fun sid => ?_
      · rcases getElem?_set_cases hi with ⟨_, heq⟩ | ⟨_, hold⟩
        · exact absurd heq.symm (hno' s pc)
        · exact hold
      · rcases hrows.queued hm hq with hold | ⟨s, pc, heq, _⟩
        · exact hold
        · exact absurd heq (hno s pc)
      · exact through_same _ hchans sid
    cases hs with
    | socket s₀ s₁ pc₀ pc₁ _ _ hs =>
      have hstep : SocketPc.step C e s₀ c.shared pc₀ = some (s₁, pc₁, w) := by
        obtain ⟨r, hr, heq⟩ := Option.map_eq_some_iff.mp (step_of_next ht hn)
        cases heq
        exact hr
      have hdraws : pc₀.draws e.uuid = some env → ∃ (i : Nat) (e' : RelayEvent U)
          (t : RelayTask U), Move.act j (RelayMove.run e) = .act i (.run e') ∧
            c.pool[i]? = some t ∧ t.draws e'.uuid = some env :=
        fun hd => ⟨j, e, _, rfl, ht, hd⟩
      cases hp with
      | handled i s pc hi hdrawn =>
        rcases getElem?_set_cases hi with ⟨rfl, heq⟩ | ⟨_, hold⟩
        · cases heq
          exact (hs.drawn hdrawn).imp (fun hd => .handled i s₀ pc₀ ht hd) hdraws
        · exact Or.inl (.handled i s pc hold hdrawn)
      | flushed i s pc hi hlist =>
        rcases getElem?_set_cases hi with ⟨rfl, heq⟩ | ⟨_, hold⟩
        · cases heq
          rcases SocketPc.step_flushed hstep hnamed.keys (hnamed.tasks _ hmem) hlist with
            hwas | ⟨⟨n, rfl⟩, hq⟩
          · exact Or.inl (.flushed i s₀ pc₀ ht hwas)
          · have htask := hnamed.tasks _ hmem
            exact Or.inl (.queued (htask.1 _ htask.2) hq)
        · exact Or.inl (.flushed i s pc hold hlist)
      | queued hm hq =>
        rcases hrows.queued hm hq with hold | ⟨s, pc, heq, hdrawn⟩
        · exact Or.inl (.queued hm hold)
        · exact Or.inl (.handled j s pc (heq ▸ ht) hdrawn)
      | delivered sid hpush =>
        have hrep := ((hconv.socket j s₀ pc₀ ht).1.step hconv.ids hstep).2
        rcases SocketPc.step_envelopes hstep hrep (pushedTo_iff.mp hpush) with hold | hdel
        · exact Or.inl (.delivered sid (pushedTo_iff.mpr hold))
        · cases hdel with
          | flushed rest d n hsid => exact Or.inl (.flushed j s₀ _ ht List.mem_cons_self)
          | live r hid hget =>
            refine Or.inr (hdraws ?_)
            rw [SocketPc.draws, ← hid]
    | flush => exact Or.inl (hquiet (fun _ _ => by simp) (fun _ _ => by simp) rfl)
    | gc => exact Or.inl (hquiet (fun _ _ => by simp) (fun _ _ => by simp) rfl)
    | sweepQueues => exact Or.inl (hquiet (fun _ _ => by simp) (fun _ _ => by simp) rfl)
    | sweepFiles => exact Or.inl (hquiet (fun _ _ => by simp) (fun _ _ => by simp) rfl)

omit [UuidText U] [DecidableEq U] in
theorem AcceptedSend.later {i n : Nat} {m ty ct : String} (ha : AcceptedSend C i n m ty ct h)
    (hl : h <:+ h') : AcceptedSend C i n m ty ct h' := by
  obtain ⟨h₁, c₁, e, s, length, r, token, a, hpast, hready, hin, hn, hget, haccepts⟩ := ha
  exact ⟨h₁, c₁, e, s, length, r, token, a, hpast.trans hl, hready, hin, hn, hget, haccepts⟩

omit [UuidText U] [DecidableEq U] in
/-- The texts a socket took up are not forgotten. -/
theorem asked_le (i : Nat) (cm : RelayConfig U × Move (RelayMove U)) :
    (asked i h).length ≤ (asked i (cm :: h)).length := by
  obtain ⟨c, m⟩ := cm
  cases m with
  | act j ev =>
    cases ev with
    | run e =>
      rw [asked]
      split_ifs
      · split
        · rw [List.length_append]
          omega
        · exact Nat.le_refl _
      · exact Nat.le_refl _
    | _ => exact Nat.le_refl _
  | _ => exact Nat.le_refl _

/-- What is known of the envelopes of a relay that started with the table `tab`. -/
structure Born (C : Crates) (tab : Envelopes) (h : RelayPast U) (c : RelayConfig U) : Prop where
  named : Named c
  conv : Conversing C h c
  present : ∀ env, Present env c →
    (NameOk env.toId ∧ Queued env tab) ∨ ∃ b ∈ births h, b.env = env
  accepted : ∀ b ∈ births h,
    AcceptedSend C b.place b.text b.env.toId b.env.envelopeType b.env.ciphertext h
  issued : ∀ b ∈ births h, b.env.id ∈ c.shared.issued
  ids : ((births h).map fun b => b.env.id).Nodup
  texts : ((births h).map fun b => (b.place, b.text)).Nodup
  past : ∀ b ∈ births h, b.text ≤ (asked b.place h).length
  sending : ∀ (i : Nat) (s : Socket) (pc : SocketPc U) (m ty ct : String),
    c.pool[i]? = some (.socket s pc) → pc.sends = some (m, ty, ct) →
      AcceptedSend C i (asked i h).length m ty ct h ∧
        ∀ b ∈ births h, b.place = i → b.text ≠ (asked i h).length

omit [DecidableEq U] in
theorem born_start {st : AppState} (hk : KeysOk U st.queues.envelopes)
    (hn : st.mailboxAuth.All fun m _ => NameOk m) (hids : st.bundles.All fun k b => b.id = k) :
    Born C st.queues.envelopes [] (started st : RelayConfig U) := by
  have hpool : ∀ (i : Nat) (s : Socket) (pc : SocketPc U),
      (started st : RelayConfig U).pool[i]? ≠ some (.socket s pc) := by
    intro i s pc h
    cases List.mem_singleton.mp (List.mem_of_getElem? h)
  refine ⟨named_start hk hn, conversing_start hids, fun env hp => Or.inl ?_,
    fun b hb => absurd hb List.not_mem_nil, fun b hb => absurd hb List.not_mem_nil, List.nodup_nil,
    List.nodup_nil, fun b hb => absurd hb List.not_mem_nil,
    fun i s pc m ty ct h => absurd h (hpool i s pc)⟩
  cases hp with
  | handled i s pc hi h => exact absurd hi (hpool i s pc)
  | flushed i s pc hi h => exact absurd hi (hpool i s pc)
  | queued hm h => exact ⟨hm, h⟩
  | delivered sid h =>
    obtain ⟨ch, hch, _⟩ := h
    cases hch

/-- A move that draws no id. -/
theorem Born.quiet {tab : Envelopes} (hb : Born C tab h c) (hm : Moved C c mv c')
    (hn : (relayMachine C).next mv c = some c') (hbirths : births ((c, mv) :: h) = births h)
    (hno : ∀ (i : Nat) (e : RelayEvent U) (t : RelayTask U), mv = .act i (.run e) →
      c.pool[i]? = some t → t.draws e.uuid = none)
    (hsending : ∀ (i : Nat) (s : Socket) (pc : SocketPc U) (m ty ct : String),
      c'.pool[i]? = some (.socket s pc) → pc.sends = some (m, ty, ct) →
        AcceptedSend C i (asked i ((c, mv) :: h)).length m ty ct ((c, mv) :: h) ∧
          ∀ b ∈ births h, b.place = i → b.text ≠ (asked i ((c, mv) :: h)).length) :
    Born C tab ((c, mv) :: h) c' := by
  have hlater : h <:+ (c, mv) :: h := List.suffix_cons _ _
  refine ⟨hb.named.step hm, hb.conv.step hn, fun env hp => ?_, ?_, ?_, ?_, ?_, ?_, ?_⟩
  · rw [hbirths]
    rcases hp.step hb.named hb.conv hn with hold | ⟨i, e, t, hmv, ht, hd⟩
    · exact hb.present env hold
    · rw [hno i e t hmv ht] at hd
      cases hd
  · rw [hbirths]
    exact fun b hmem => (hb.accepted b hmem).later hlater
  · rw [hbirths]
    exact fun b hmem => hm.issued (hb.issued b hmem)
  · rw [hbirths]
    exact hb.ids
  · rw [hbirths]
    exact hb.texts
  · rw [hbirths]
    exact fun b hmem => Nat.le_trans (hb.past b hmem) (asked_le b.place _)
  · rw [hbirths]
    exact hsending

omit [DecidableEq U] in
/-- The handlers past their token check after a step of the socket at place `j`. -/
theorem Born.sending_step {tab : Envelopes} (hb : Born C tab h c) {j : Nat} {e : RelayEvent U}
    {s₀ s₁ : Socket} {pc₀ pc₁ : SocketPc U} {w : Relay U}
    (ht : c.pool[j]? = some (.socket s₀ pc₀)) (hs : SocketPc.Stepped C e s₀ pc₀ c.shared s₁ pc₁ w)
    {i : Nat} {s : Socket} {pc : SocketPc U} {m ty ct : String}
    (hi : (c.pool.set j (.socket s₁ pc₁))[i]? = some (.socket s pc))
    (hsends : pc.sends = some (m, ty, ct)) :
    AcceptedSend C i (asked i ((c, .act j (.run e)) :: h)).length m ty ct
        ((c, .act j (.run e)) :: h) ∧
      ∀ b ∈ births h, b.place = i → b.text ≠ (asked i ((c, .act j (.run e)) :: h)).length := by
  have hlater : h <:+ (c, .act j (.run e)) :: h := List.suffix_cons _ _
  rcases getElem?_set_cases hi with ⟨rfl, heq⟩ | ⟨hij, hold⟩
  · cases heq
    rw [asked_socket ht]
    rcases hs.sends hsends with ⟨hready, hwas, _⟩ | ⟨rfl, n, r, token, a, hin, hget, haccepts⟩
    · have htakes : pc₀.takes e.incoming = [] := by
        cases pc₀ <;> first | rfl | cases hready
      obtain ⟨hacc, hnew⟩ := hb.sending _ s₀ pc₀ m ty ct ht hwas
      rw [htakes, List.nil_append]
      exact ⟨hacc.later hlater, hnew⟩
    · have htakes : (SocketPc.ready : SocketPc U).takes e.incoming = [e.incoming] := by
        rw [hin, SocketPc.takes]
      rw [htakes, List.singleton_append, List.length_cons]
      refine ⟨.taken h c e s₀ n r token a (List.suffix_refl _) ht hin rfl hget haccepts, ?_⟩
      intro b hmem hplace
      have hpast := hb.past b hmem
      rw [hplace] at hpast
      omega
  · rw [asked_other (Ne.symm hij)]
    obtain ⟨hacc, hnew⟩ := hb.sending i s pc m ty ct hold hsends
    exact ⟨hacc.later hlater, hnew⟩

/-- A step of a socket that draws an id gives birth to one envelope, of the text it works on. -/
theorem Born.draw {tab : Envelopes} (hb : Born C tab h c) {j : Nat} {e : RelayEvent U}
    {s₀ s₁ : Socket} {pc₀ pc₁ : SocketPc U} {w : Relay U}
    (ht : c.pool[j]? = some (.socket s₀ pc₀)) (hs : SocketPc.Stepped C e s₀ pc₀ c.shared s₁ pc₁ w)
    (hn : (relayMachine C).next (.act j (.run e)) c = some ⟨w, c.pool.set j (.socket s₁ pc₁)⟩)
    {env : StoredEnvelope U} (hd : pc₀.draws e.uuid = some env) :
    Born C tab ((c, .act j (.run e)) :: h) ⟨w, c.pool.set j (.socket s₁ pc₁)⟩ := by
  have hm := moved_of_next hn
  have hlater : h <:+ (c, .act j (.run e)) :: h := List.suffix_cons _ _
  obtain ⟨hnew, hissued, hsends⟩ := hs.drawsNew hd
  have hbirths : births ((c, .act j (.run e)) :: h) = ⟨env, j, (asked j h).length⟩ :: births h := by
    rw [births_act ht]
    have hdraws : (RelayTask.socket s₀ pc₀).draws e.uuid = some env := hd
    rw [hdraws]
    rfl
  have htakes : pc₀.takes e.incoming = [] := by
    cases pc₀ <;> first | rfl | cases hd
  have hasked : asked j ((c, .act j (.run e)) :: h) = asked j h := by
    rw [asked_socket ht, htakes, List.nil_append]
  obtain ⟨hacc, htext⟩ := hb.sending j s₀ pc₀ _ _ _ ht hsends
  refine ⟨hb.named.step hm, hb.conv.step hn, fun env' hp => ?_, ?_, ?_, ?_, ?_, ?_, ?_⟩
  · rw [hbirths]
    rcases hp.step hb.named hb.conv hn with hold | ⟨i, e', t, hmv, hti, hd'⟩
    · refine (hb.present env' hold).imp_right fun ⟨b, hmem, hb'⟩ => ?_
      exact ⟨b, List.mem_cons_of_mem _ hmem, hb'⟩
    · cases hmv
      obtain rfl : RelayTask.socket s₀ pc₀ = t := Option.some.inj (ht.symm.trans hti)
      refine Or.inr ⟨_, List.mem_cons_self, ?_⟩
      exact Option.some.inj (hd.symm.trans hd')
  · rw [hbirths]
    intro b hmem
    rcases List.mem_cons.mp hmem with rfl | hmem
    · exact hacc.later hlater
    · exact (hb.accepted b hmem).later hlater
  · rw [hbirths]
    intro b hmem
    rcases List.mem_cons.mp hmem with rfl | hmem
    · exact hissued
    · exact hm.issued (hb.issued b hmem)
  · rw [hbirths, List.map_cons]
    refine List.nodup_cons.mpr ⟨fun hmem => ?_, hb.ids⟩
    obtain ⟨b, hmem, hid⟩ := List.mem_map.mp hmem
    apply hnew
    rw [← hid]
    exact hb.issued b hmem
  · rw [hbirths, List.map_cons]
    refine List.nodup_cons.mpr ⟨fun hmem => ?_, hb.texts⟩
    obtain ⟨b, hmem, heq⟩ := List.mem_map.mp hmem
    obtain ⟨hplace, heq⟩ := Prod.mk.inj heq
    exact htext b hmem hplace heq
  · rw [hbirths]
    intro b hmem
    rcases List.mem_cons.mp hmem with rfl | hmem
    · exact Nat.le_of_eq (congrArg List.length hasked).symm
    · exact Nat.le_trans (hb.past b hmem) (asked_le b.place _)
  · rw [hbirths]
    intro i s pc m ty ct hi hpc
    obtain ⟨hacc', hnew'⟩ := hb.sending_step ht hs hi hpc
    refine ⟨hacc', fun b hmem hplace => ?_⟩
    rcases List.mem_cons.mp hmem with rfl | hmem
    · -- the handler that draws is past its sending
      obtain rfl : j = i := hplace
      rcases getElem?_set_cases hi with ⟨_, heq⟩ | ⟨hne, _⟩
      · cases heq
        rcases hs.sends hpc with ⟨_, _, hnone⟩ | ⟨rfl, _⟩
        · rw [hd] at hnone
          cases hnone
        · cases hd
      · exact absurd rfl hne
    · exact hnew' b hmem hplace

theorem Born.step {tab : Envelopes} (hb : Born C tab h c)
    (hn : (relayMachine C).next mv c = some c') : Born C tab ((c, mv) :: h) c' := by
  have hm := moved_of_next hn
  have hlater : h <:+ (c, mv) :: h := List.suffix_cons _ _
  cases hm with
  | spawned ev t c w hs =>
    refine hb.quiet (.spawned ev t c w hs) hn rfl (fun _ _ _ hmv => by cases hmv) ?_
    intro i s pc m ty ct hi hpc
    rcases getElem?_snoc_cases hi with hold | ⟨_, heq⟩
    · obtain ⟨hacc, hnew⟩ := hb.sending i s pc m ty ct hold hpc
      exact ⟨hacc.later hlater, hnew⟩
    · cases hs <;> cases heq
      cases hpc
  | wrote ev c w hs =>
    refine hb.quiet (.wrote ev c w hs) hn rfl (fun _ _ _ hmv => by cases hmv) ?_
    intro i s pc m ty ct hi hpc
    obtain ⟨hacc, hnew⟩ := hb.sending i s pc m ty ct hi hpc
    exact ⟨hacc.later hlater, hnew⟩
  | stepped j e t t' c w ht hs =>
    -- a task that is not a socket
    have hquiet : (∀ s pc, t ≠ .socket s pc) → (∀ s pc, t' ≠ .socket s pc) →
        Born C tab ((c, .act j (.run e)) :: h) ⟨w, c.pool.set j t'⟩ := by
      intro hno hno'
      have hdraws : t.draws e.uuid = none := by
        cases t <;> first | rfl | exact absurd rfl (hno _ _)
      have hasked : ∀ i, asked i ((c, .act j (.run e)) :: h) = asked i h := by
        intro i
        by_cases hij : j = i
        · subst hij
          rw [asked, if_pos rfl, ht]
          cases t <;> first | exact absurd rfl (hno _ _) | rfl
        · exact asked_other hij
      refine hb.quiet (.stepped j e t t' c w ht hs) hn ?_ ?_ ?_
      · rw [births_act ht, hdraws]
        rfl
      · intro i e' u hmv hu
        cases hmv
        obtain rfl := Option.some.inj (ht.symm.trans hu)
        exact hdraws
      · intro i s pc m ty ct hi hpc
        rw [hasked]
        rcases getElem?_set_cases hi with ⟨_, heq⟩ | ⟨_, hold⟩
        · exact absurd heq.symm (hno' s pc)
        · obtain ⟨hacc, hnew⟩ := hb.sending i s pc m ty ct hold hpc
          exact ⟨hacc.later hlater, hnew⟩
    cases hs with
    | socket s₀ s₁ pc₀ pc₁ _ _ hs =>
      cases hd : pc₀.draws e.uuid with
      | none =>
        have hdraws : (RelayTask.socket s₀ pc₀).draws e.uuid = none := hd
        refine hb.quiet (moved_of_next hn) hn ?_ ?_ fun i s pc m ty ct hi hpc =>
          hb.sending_step ht hs hi hpc
        · rw [births_act ht, hdraws]
          rfl
        · intro i e' u hmv hu
          cases hmv
          obtain rfl := Option.some.inj (ht.symm.trans hu)
          exact hdraws
      | some env => exact hb.draw ht hs hn hd
    | flush => exact hquiet (fun _ _ => by simp) (fun _ _ => by simp)
    | gc => exact hquiet (fun _ _ => by simp) (fun _ _ => by simp)
    | sweepQueues => exact hquiet (fun _ _ => by simp) (fun _ _ => by simp)
    | sweepFiles => exact hquiet (fun _ _ => by simp) (fun _ _ => by simp)

theorem Born.of_trace {st : AppState} (hk : KeysOk U st.queues.envelopes)
    (hn : st.mailboxAuth.All fun m _ => NameOk m) (hids : st.bundles.All fun k b => b.id = k)
    (r : Trace (relayMachine C) anyPast (started st) h c) : Born C st.queues.envelopes h c :=
  r.invariant (born_start hk hn hids) fun _ _ _ _ hb _ hn => hb.step hn

/-- Every envelope that the relay holds or has delivered was queued when it started or born in this
    run. Each birth is of one SendEnvelope that its destination's token let through, with the
    destination, type and ciphertext of that text; no two births share an id or a text. -/
theorem envelopes_were_sent {st : AppState} (hk : KeysOk U st.queues.envelopes)
    (hn : st.mailboxAuth.All fun m _ => NameOk m) (hids : st.bundles.All fun k b => b.id = k)
    (r : Trace (relayMachine C) anyPast (started st) h c) :
    (∀ env, Present env c →
        (NameOk env.toId ∧ Queued env st.queues.envelopes) ∨ ∃ b ∈ births h, b.env = env) ∧
      (∀ b ∈ births h,
        AcceptedSend C b.place b.text b.env.toId b.env.envelopeType b.env.ciphertext h) ∧
      ((births h).map fun b => b.env.id).Nodup ∧
      ((births h).map fun b => (b.place, b.text)).Nodup := by
  have hb := Born.of_trace hk hn hids r
  exact ⟨hb.present, hb.accepted, hb.ids, hb.texts⟩

end

/-! ## A run -/

/-- Bob's envelope is on Alice's channel, and was born of his first text. -/
theorem envelopes_were_sent_sample : ∃ (h : RelayPast Nat) (c : RelayConfig Nat),
    Trace (relayMachine sampleCrates) anyPast (started AppState.sampleState) h c ∧
      PushedTo 0 sampleEnvelope c.shared ∧ births h = [⟨sampleEnvelope, 2, 1⟩] ∧
      AcceptedSend sampleCrates 2 1 AppState.sampleRid "message" "hi" h := by
  obtain ⟨h, c, r, hend⟩ := exists_trace (M := relayMachine sampleCrates) (G := anyPast)
    (c := started (U := Nat) AppState.sampleState) (bothOnline ++ handled 2 3 sampleSend)
    (p := fun r => decide (PushedTo 0 sampleEnvelope r.2.shared ∧
      births r.1 = [⟨sampleEnvelope, 2, 1⟩])) (by decide +kernel)
  obtain ⟨hpushed, hbirths⟩ := of_decide_eq_true hend
  have hsent := envelopes_were_sent keysOk_empty OrdMap.all_empty OrdMap.all_empty r
  refine ⟨h, c, r, hpushed, hbirths, hsent.2.1 ⟨sampleEnvelope, 2, 1⟩ ?_⟩
  rw [hbirths]
  exact List.mem_singleton_self _

end AxenoRelay
