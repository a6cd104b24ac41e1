/-
  Who may change a mailbox.

  A socket's authority over a mailbox is the `recipient_id` of its last accepted Hello;
  no later frame is checked against `mailbox_auth` again. `hellos` reads the accepted
  Hellos of a socket off the past, each with the number of registrations of its mailbox
  that had ended by then. As long as that number has not grown, the mailbox is
  registered with the hash of the Hello's token (`Credential.Holds`); after it has
  grown, the socket still acts for the mailbox, whoever registered it since.
-/
import AxenoRelay.Ws.Calls
import AxenoRelay.Ws.Registrations

namespace AxenoRelay

open Interleave QueueStore

/-! ## Accepted Hellos -/

/-- A Hello that was accepted: for which mailbox, the hash of its auth token, and how many
    registrations of the mailbox had ended. -/
structure Credential where
  mailbox : RecipientId
  receiveHash : String
  ended : Nat
  deriving DecidableEq, Repr

section

variable {U : Type}

/-- The mailbox and the token hash of a Hello that leads to this place. -/
def acceptedHello (C : Crates) (i : Incoming U) : SocketPc U → Option (RecipientId × String)
  | .helloMark _ _ _ =>
    match i with
    | .text _ (.ok (.hello rid token _ _ _ _ _ _)) => some (rid, tokenHash C token)
    | _ => none
  | _ => none

/-- Where the socket at place `i` took up the frame it is working on. -/
def takenUp (i : Nat) : RelayPast U → Option (RelayPast U × RelayConfig U)
  | [] => none
  | (c, .act j (.run _)) :: h =>
    if j = i then
      match c.pool[i]? with
      | some (.socket _ .ready) => some (h, c)
      | _ => takenUp i h
    else takenUp i h
  | _ :: h => takenUp i h

variable [UuidText U] [DecidableEq U]

/-- The Hellos that the socket at place `i` had accepted, newest first. -/
def hellos (C : Crates) (i : Nat) : RelayPast U → List Credential
  | [] => []
  | (c, .act j (.run e)) :: h =>
    if j = i then
      match c.pool[i]? with
      | some (.socket s .ready) =>
        match acceptedHello C e.incoming (SocketPc.receive C e s c.shared).2.1 with
        | some (m, hash) => ⟨m, hash, epoch C m h⟩ :: hellos C i h
        | none => hellos C i h
      | _ => hellos C i h
    else hellos C i h
  | _ :: h => hellos C i h

/-- If no registration of its mailbox has ended since this Hello, the mailbox is registered
    with the hash of its token. -/
def Credential.Holds (C : Crates) (h : RelayPast U) (c : RelayConfig U) (cr : Credential) : Prop :=
  epoch C cr.mailbox h = cr.ended →
    ∃ a, c.shared.app.mailboxAuth.get cr.mailbox = some a ∧ a.receiveAuthHash = cr.receiveHash

/-- The last accepted Hello of the socket at place `i` was for `m`, and holds. -/
def Authorised (C : Crates) (m : RecipientId) (i : Nat) (h : RelayPast U) (c : RelayConfig U) :
    Prop :=
  ∃ cr, (hellos C i h).head? = some cr ∧ cr.mailbox = m ∧ cr.Holds C h c

/-- Rows of mailbox `m` are removed. -/
def Loses (m : RecipientId) (tab tab' : Envelopes) : Prop :=
  ∃ k v, tab.get k = some v ∧ inMailbox m k = true ∧ tab'.get k = none

/-- A step in the handling of a SetDeliveryTokens, IssueSenderCertificate, Ack or
    RetireMailbox frame that takes effect on mailbox `m`. -/
inductive TakesEffect (m : RecipientId) (e : RelayEvent U) :
    SocketPc U → Relay U → SocketPc U → Relay U → Prop
  | tokens (n : Nat) (requestId : String) (tokens : List String) (pc' : SocketPc U)
      (w w' : Relay U) (hin : e.incoming = .text n (.ok (.setDeliveryTokens requestId tokens)))
      (h : w.app.mailboxAuth.get m ≠ w'.app.mailboxAuth.get m) :
      TakesEffect m e .ready w pc' w'
  | certificate (n : Nat) (requestId : String) (device : Nat) (key r cert root : String)
      (x : Nat) (last : Bool) (w w' : Relay U)
      (hin : e.incoming = .text n (.ok (.issueSenderCertificate requestId m device key))) :
      TakesEffect m e .ready w (.reply (.senderCertificate r cert root x) last) w'
  | retire (n : Nat) (pc' : SocketPc U) (w w' : Relay U)
      (hin : e.incoming = .text n (.ok .retireMailbox))
      (h : w.app.mailboxAuth.get m ≠ w'.app.mailboxAuth.get m) :
      TakesEffect m e .ready w pc' w'
  | acked (q : QueueTask U) (pc' : SocketPc U) (w w' : Relay U)
      (h : Loses m w.app.queues.envelopes w'.app.queues.envelopes) :
      TakesEffect m e (.ackQueue q) w pc' w'
  | purged (rid : RecipientId) (q : QueueTask U) (pc' : SocketPc U) (w w' : Relay U)
      (h : Loses m w.app.queues.envelopes w'.app.queues.envelopes) :
      TakesEffect m e (.retirePurge rid q) w pc' w'

end

/-! ## The past of one socket -/

section

variable {U : Type} {c : RelayConfig U} {h : RelayPast U} {i j : Nat} {e : RelayEvent U}

theorem takenUp_other (hij : j ≠ i) :
    takenUp i ((c, .act j (.run e)) :: h) = takenUp i h := by
  rw [takenUp, if_neg hij]

theorem takenUp_busy {t : RelayTask U} (ht : c.pool[i]? = some t)
    (hbusy : ∀ s pc, t = .socket s pc → pc.isReady = false) :
    takenUp i ((c, .act i (.run e)) :: h) = takenUp i h := by
  rw [takenUp, if_pos rfl, ht]
  split
  · rename_i s heq
    have hready := hbusy s .ready (Option.some.inj heq)
    cases hready
  · rfl

theorem takenUp_ready {s : Socket} (ht : c.pool[i]? = some (.socket s .ready)) :
    takenUp i ((c, .act i (.run e)) :: h) = some (h, c) := by
  rw [takenUp, if_pos rfl, ht]

variable [UuidText U] [DecidableEq U] {C : Crates}

theorem hellos_other (hij : j ≠ i) :
    hellos C i ((c, .act j (.run e)) :: h) = hellos C i h := by
  rw [hellos, if_neg hij]

theorem hellos_busy {t : RelayTask U} (ht : c.pool[i]? = some t)
    (hbusy : ∀ s pc, t = .socket s pc → pc.isReady = false) :
    hellos C i ((c, .act i (.run e)) :: h) = hellos C i h := by
  rw [hellos, if_pos rfl, ht]
  split
  · rename_i s heq
    have hready := hbusy s .ready (Option.some.inj heq)
    cases hready
  · rfl

/-- The Hellos of a socket after it took up a frame. -/
theorem hellos_ready {s s' : Socket} {pc' : SocketPc U} {w' : Relay U}
    (ht : c.pool[i]? = some (.socket s .ready))
    (hstep : SocketPc.step C e s c.shared .ready = some (s', pc', w')) :
    hellos C i ((c, .act i (.run e)) :: h) =
      ((acceptedHello C e.incoming pc').map fun a => ⟨a.1, a.2, epoch C a.1 h⟩).toList ++
        hellos C i h := by
  have hrecv : SocketPc.receive C e s c.shared = (s', pc', w') := Option.some.inj hstep
  rw [hellos, if_pos rfl, ht]
  dsimp only
  rw [hrecv]
  cases acceptedHello C e.incoming pc' <;> rfl

end

/-! ## What a socket acts for -/

namespace SocketPc

section

variable {U : Type}

/-- The mailbox a socket acts for: the one of the Hello it is accepting, or its own. -/
def actsFor (s : Socket) : SocketPc U → Option RecipientId
  | helloMark rid _ _ => some rid
  | _ => s.recipientId

/-- The mailbox that a handler is retiring and has not purged yet. -/
def retires : SocketPc U → Option RecipientId
  | retireCount rid | retirePurge rid _ => some rid
  | _ => none

theorem Plain.actsFor {pc : SocketPc U} (h : pc.Plain) (s : Socket) :
    pc.actsFor s = s.recipientId := by
  cases pc <;> first | rfl | exact h.elim

theorem Plain.retires {pc : SocketPc U} (h : pc.Plain) : pc.retires = none := by
  cases pc <;> first | rfl | exact h.elim

theorem Plain.not_hello {pc : SocketPc U} (h : pc.Plain) (C : Crates) (i : Incoming U) :
    acceptedHello C i pc = none := by
  cases pc <;> first | rfl | exact h.elim

/-- A certificate is handed out for the mailbox of the socket only. -/
theorem receive_certificate {C : Crates} {e : RelayEvent U} {s : Socket} {w : Relay U} {n : Nat}
    {requestId m key r cert root : String} {device x : Nat} {last : Bool}
    (hin : e.incoming = .text n (.ok (.issueSenderCertificate requestId m device key)))
    (h : (receive C e s w).2.1 = reply (.senderCertificate r cert root x) last) :
    s.recipientId = some m := by
  have hsame : (countFrame e.store.now s).recipientId = s.recipientId := by
    unfold countFrame
    dsimp only
    split_ifs <;> rfl
  rw [← hsame]
  simp only [receive, hin] at h
  generalize countFrame e.store.now s = s' at h
  split_ifs at h
  · cases h
  · cases h
  · simp only [handle] at h
    cases hrid : s'.recipientId with
    | none =>
      rw [hrid] at h
      cases h
    | some rid =>
      rw [hrid] at h
      dsimp only at h
      split_ifs at h with hne
      · cases h
      · rw [not_not.mp hne]

end

variable {U : Type} [UuidText U]

/-- A socket acts for the mailbox it acted for, unless it accepts a Hello. -/
theorem Stepped.actsFor {C : Crates} {e : RelayEvent U} {s s' : Socket} {pc pc' : SocketPc U}
    {w w' : Relay U} (hs : Stepped C e s pc w s' pc' w') :
    (pc'.actsFor s' = pc.actsFor s ∧ (pc = .ready → acceptedHello C e.incoming pc' = none)) ∨
    (pc = .ready ∧ ∃ m hash, pc'.actsFor s' = some m ∧
      acceptedHello C e.incoming pc' = some (m, hash) ∧
      ∃ a, w'.app.mailboxAuth.get m = some a ∧ a.receiveAuthHash = hash) := by
  cases hs
  case inner hsame hin =>
    refine Or.inl ⟨?_, fun _ => hin.target.not_hello C _⟩
    rw [hin.target.actsFor, hin.source.actsFor, hsame.2]
  case said last =>
    refine Or.inl ⟨?_, fun h => nomatch h⟩
    cases last <;> rfl
  case hello rid token _ _ _ _ _ _ _ _ hin _ hentry _ =>
    obtain ⟨a, ha, hmap, _⟩ := helloEntry_auth hentry
    refine Or.inr ⟨rfl, rid, tokenHash C token, rfl, ?_, a, ?_, ha⟩
    · simp only [acceptedHello, hin]
    · dsimp only
      rw [hmap, OrdMap.get_insert, if_pos rfl]
  case helloMark => exact Or.inl ⟨rfl, fun h => nomatch h⟩
  case helloOk certOnly _ =>
    refine Or.inl ⟨?_, fun h => nomatch h⟩
    cases certOnly <;> rfl
  case tokens hsame => exact Or.inl ⟨hsame.2, fun _ => rfl⟩
  case sendAuth hsame => exact Or.inl ⟨hsame.2, fun _ => rfl⟩
  case ack hsame => exact Or.inl ⟨hsame.2, fun _ => rfl⟩
  case retire hsame => exact Or.inl ⟨hsame.2, fun _ => rfl⟩
  case retireNone hsame => exact Or.inl ⟨hsame.2, fun _ => rfl⟩
  all_goals exact Or.inl ⟨rfl, fun h => nomatch h⟩

/-- A handler that retires a mailbox does so since it took up a RetireMailbox frame, for the
    mailbox of its socket. -/
theorem Stepped.retires {C : Crates} {e : RelayEvent U} {s s' : Socket} {pc pc' : SocketPc U}
    {w w' : Relay U} (hs : Stepped C e s pc w s' pc' w') {m : RecipientId}
    (hm : pc'.retires = some m) :
    (pc.isReady = false ∧ pc.retires = some m) ∨ (pc = .ready ∧ s.recipientId = some m) := by
  cases hs
  case inner hin =>
    rw [hin.target.retires] at hm
    cases hm
  case said last => cases last <;> cases hm
  case helloOk certOnly _ => cases certOnly <;> cases hm
  case retire hrid _ _ =>
    obtain rfl := Option.some.inj hm
    exact Or.inr ⟨rfl, hrid⟩
  case retireNone hrid _ _ =>
    obtain rfl := Option.some.inj hm
    exact Or.inr ⟨rfl, hrid⟩
  case retireCount => exact Or.inl ⟨rfl, hm⟩
  case retirePurge => exact Or.inl ⟨rfl, hm⟩
  all_goals cases hm

end SocketPc

/-! ## Every authority comes from a Hello -/

section

variable {U : Type} [UuidText U] [DecidableEq U]

/-- What a socket does for a mailbox it does since a Hello, and what that Hello said of the
    registration is still so unless the registration has ended. -/
structure Vouched (C : Crates) (h : RelayPast U) (c : RelayConfig U) : Prop where
  named : Named c
  bound : ∀ (i : Nat) (s : Socket) (pc : SocketPc U) (m : RecipientId),
    c.pool[i]? = some (.socket s pc) → pc.actsFor s = some m →
      ∃ cr, (hellos C i h).head? = some cr ∧ cr.mailbox = m
  holds : ∀ (i : Nat) (cr : Credential), cr ∈ hellos C i h →
    cr.ended ≤ epoch C cr.mailbox h ∧ cr.Holds C h c
  retiring : ∀ (i : Nat) (s : Socket) (pc : SocketPc U) (m : RecipientId),
    c.pool[i]? = some (.socket s pc) → pc.retires = some m →
      ∃ h₁ c₁, takenUp i h = some (h₁, c₁) ∧ Authorised C m i h₁ c₁

variable {C : Crates} {h : RelayPast U} {c c' : RelayConfig U} {mv : Move (RelayMove U)}

theorem Vouched.authorised (hv : Vouched C h c) {i : Nat} {s : Socket} {pc : SocketPc U}
    {m : RecipientId} (hpc : c.pool[i]? = some (.socket s pc)) (hm : pc.actsFor s = some m) :
    Authorised C m i h c := by
  obtain ⟨cr, hcr, hmail⟩ := hv.bound i s pc m hpc hm
  exact ⟨cr, hcr, hmail, (hv.holds i cr (List.mem_of_mem_head? hcr)).2⟩

theorem vouched_start {st : AppState} (hk : KeysOk U st.queues.envelopes)
    (hn : st.mailboxAuth.All fun m _ => NameOk m) :
    Vouched C [] (started st : RelayConfig U) := by
  have hpool : ∀ (i : Nat) (s : Socket) (pc : SocketPc U),
      (started st : RelayConfig U).pool[i]? ≠ some (.socket s pc) := by
    intro i s pc h
    cases List.mem_singleton.mp (List.mem_of_getElem? h)
  exact ⟨named_start hk hn, fun i s pc m h => absurd h (hpool i s pc),
    fun i cr h => absurd h List.not_mem_nil, fun i s pc m h => absurd h (hpool i s pc)⟩

/-- What a Hello said holds after a move, if it held before. -/
theorem Credential.Holds.step {cr : Credential} (hle : cr.ended ≤ epoch C cr.mailbox h)
    (hold : cr.Holds C h c) (hn : (relayMachine C).next mv c = some c') :
    cr.ended ≤ epoch C cr.mailbox ((c, mv) :: h) ∧ cr.Holds C ((c, mv) :: h) c' := by
  refine ⟨Nat.le_trans hle (epoch_le cr.mailbox), fun hsame => ?_⟩
  have hgrows : epoch C cr.mailbox h ≤ epoch C cr.mailbox ((c, mv) :: h) := epoch_le cr.mailbox
  have hbefore : epoch C cr.mailbox h = cr.ended := by omega
  obtain ⟨a, ha, hhash⟩ := hold hbefore
  obtain ⟨a', ha', hhash'⟩ := registered_of_epoch hn ha (hsame.trans hbefore.symm)
  exact ⟨a', ha', hhash'.trans hhash⟩

theorem Vouched.step (hv : Vouched C h c) (hn : (relayMachine C).next mv c = some c') :
    Vouched C ((c, mv) :: h) c' := by
  have hm := moved_of_next hn
  have hnamed := hv.named.step hm
  -- Hellos of before
  have hkept : ∀ (i : Nat) (cr : Credential), cr ∈ hellos C i h →
      cr.ended ≤ epoch C cr.mailbox ((c, mv) :: h) ∧ cr.Holds C ((c, mv) :: h) c' :=
    fun i cr hcr => (hv.holds i cr hcr).2.step (hv.holds i cr hcr).1 hn
  cases hm with
  | spawned ev t c w hs =>
    have hnew : ∀ (s : Socket) (pc : SocketPc U), t = .socket s pc →
        pc.actsFor s = none ∧ pc.retires = none := by
      intro s pc ht
      cases hs <;> cases ht
      exact ⟨rfl, rfl⟩
    refine ⟨hnamed, fun i s pc m hi hacts => ?_, hkept, fun i s pc m hi hret => ?_⟩
    · rcases getElem?_snoc_cases hi with hold | ⟨_, ht⟩
      · exact hv.bound i s pc m hold hacts
      · rw [(hnew s pc ht.symm).1] at hacts
        cases hacts
    · rcases getElem?_snoc_cases hi with hold | ⟨_, ht⟩
      · exact hv.retiring i s pc m hold hret
      · rw [(hnew s pc ht.symm).2] at hret
        cases hret
  | wrote ev c w hs => exact ⟨hnamed, hv.bound, hkept, hv.retiring⟩
  | stepped j e t t' c w ht hs =>
    have hother : ∀ i, i ≠ j →
        hellos C i ((c, .act j (.run e)) :: h) = hellos C i h ∧
        takenUp i ((c, .act j (.run e)) :: h) = takenUp i h :=
      fun i hij => ⟨hellos_other (Ne.symm hij), takenUp_other (Ne.symm hij)⟩
    cases hs with
    | socket s s' pc pc' _ _ hs =>
      have hstep : SocketPc.step C e s c.shared pc = some (s', pc', w) := by
        obtain ⟨r, hr, heq⟩ := Option.map_eq_some_iff.mp (step_of_next ht hn)
        cases heq
        exact hr
      -- what the socket has heard, and what it acts for
      have hself : (∀ m, pc'.actsFor s' = some m → ∃ cr,
            (hellos C j ((c, .act j (.run e)) :: h)).head? = some cr ∧ cr.mailbox = m) ∧
          ∀ cr ∈ hellos C j ((c, .act j (.run e)) :: h),
            cr.ended ≤ epoch C cr.mailbox ((c, .act j (.run e)) :: h) ∧
              cr.Holds C ((c, .act j (.run e)) :: h) ⟨w, c.pool.set j (.socket s' pc')⟩ := by
        by_cases hready : pc = .ready
        · subst hready
          rw [hellos_ready ht hstep]
          rcases hs.actsFor with ⟨hacts, hnone⟩ | ⟨_, m, hash, hacts, hsome, a, ha, hhash⟩
          · rw [hnone rfl, hacts]
            exact ⟨fun m hm => hv.bound j s .ready m ht hm, hkept j⟩
          · rw [hacts, hsome]
            refine ⟨fun m' hm' => ⟨_, rfl, Option.some.inj hm'⟩, fun cr hcr => ?_⟩
            rcases List.mem_cons.mp hcr with rfl | hcr
            · exact ⟨epoch_le m, fun _ => ⟨a, ha, hhash⟩⟩
            · exact hkept j cr hcr
        · have hbusy : ∀ s₁ pc₁, RelayTask.socket s pc = .socket s₁ pc₁ → pc₁.isReady = false := by
            intro s₁ pc₁ heq
            cases heq
            cases pc <;> first | rfl | exact absurd rfl hready
          rw [hellos_busy ht hbusy]
          rcases hs.actsFor with ⟨hacts, _⟩ | ⟨hr, _⟩
          · rw [hacts]
            exact ⟨fun m hm => hv.bound j s pc m ht hm, hkept j⟩
          · exact absurd hr hready
      refine ⟨hnamed, fun i s₁ pc₁ m hi hacts => ?_, fun i cr hcr => ?_, fun i s₁ pc₁ m hi hret => ?_⟩
      · rcases getElem?_set_cases hi with ⟨rfl, heq⟩ | ⟨hij, hold⟩
        · cases heq
          exact hself.1 m hacts
        · rw [(hother i hij).1]
          exact hv.bound i s₁ pc₁ m hold hacts
      · by_cases hij : i = j
        · subst hij
          exact hself.2 cr hcr
        · rw [(hother i hij).1] at hcr
          exact hkept i cr hcr
      · rcases getElem?_set_cases hi with ⟨rfl, heq⟩ | ⟨hij, hold⟩
        · cases heq
          rcases hs.retires hret with ⟨hbusy, hold⟩ | ⟨rfl, hrid⟩
          · rw [takenUp_busy ht fun s₁ pc₁ heq => by cases heq; exact hbusy]
            exact hv.retiring i s pc m ht hold
          · exact ⟨h, c, takenUp_ready ht, hv.authorised ht hrid⟩
        · rw [(hother i hij).2]
          exact hv.retiring i s₁ pc₁ m hold hret
    | _ =>
      have hself : hellos C j ((c, .act j (.run e)) :: h) = hellos C j h :=
        hellos_busy ht fun _ _ heq => nomatch heq
      have hall : ∀ i, hellos C i ((c, .act j (.run e)) :: h) = hellos C i h := by
        intro i
        by_cases hij : i = j
        · rw [hij, hself]
        · exact (hother i hij).1
      refine ⟨hnamed, fun i s pc m hi hacts => ?_, fun i cr hcr => ?_, fun i s pc m hi hret => ?_⟩
      · rcases getElem?_set_cases hi with ⟨_, heq⟩ | ⟨_, hold⟩
        · cases heq
        · rw [hall]
          exact hv.bound i s pc m hold hacts
      · rw [hall] at hcr
        exact hkept i cr hcr
      · rcases getElem?_set_cases hi with ⟨_, heq⟩ | ⟨hij, hold⟩
        · cases heq
        · rw [(hother i hij).2]
          exact hv.retiring i s pc m hold hret

/-! ## Operations on a mailbox -/

omit [DecidableEq U] in
/-- A step that takes effect on a mailbox is one of a socket that acts for it. -/
theorem TakesEffect.actsFor {m : RecipientId} {e : RelayEvent U} {s s' : Socket}
    {pc pc' : SocketPc U} {w w' : Relay U} (heff : TakesEffect m e pc w pc' w')
    (hs : SocketPc.Stepped C e s pc w s' pc' w')
    (hrecv : pc = .ready → (SocketPc.receive C e s w).2.1 = pc')
    (hn : NamedStep e.store (.socket s pc) (.socket s' pc') w.app w'.app) :
    s.recipientId = some m ∧ (pc.retires = none ∨ pc.retires = some m) := by
  cases heff with
  | tokens n requestId tokens _ _ _ hin h =>
    refine ⟨?_, Or.inl rfl⟩
    have hedit := hs.authEdit
    generalize w.app.mailboxAuth = tab at hedit h
    generalize w'.app.mailboxAuth = tab' at hedit h
    cases hedit with
    | same => exact absurd rfl h
    | tokens _ _ _ rid _ _ _ _ _ _ _ hrid _ _ =>
      rw [OrdMap.get_insert] at h
      split_ifs at h with hm
      · rw [hm, hrid]
      · exact absurd rfl h
    | hello _ _ _ _ _ _ _ _ _ _ _ _ _ _ hin' => rw [hin] at hin'; cases hin'
    | send _ _ _ _ _ _ _ _ _ _ _ hin' => rw [hin] at hin'; cases hin'
    | retire _ _ _ _ _ _ hin' => rw [hin] at hin'; cases hin'
  | certificate n requestId device key r cert root x last _ _ hin =>
    exact ⟨SocketPc.receive_certificate hin (hrecv rfl), Or.inl rfl⟩
  | retire n _ _ _ hin h =>
    refine ⟨?_, Or.inl rfl⟩
    have hedit := hs.authEdit
    generalize w.app.mailboxAuth = tab at hedit h
    generalize w'.app.mailboxAuth = tab' at hedit h
    cases hedit with
    | same => exact absurd rfl h
    | retire _ _ _ rid _ _ _ hrid _ =>
      rw [OrdMap.get_erase] at h
      split_ifs at h with hm
      · rw [hm, hrid]
      · exact absurd rfl h
    | hello _ _ _ _ _ _ _ _ _ _ _ _ _ _ hin' => rw [hin] at hin'; cases hin'
    | send _ _ _ _ _ _ _ _ _ _ _ hin' => rw [hin] at hin'; cases hin'
    | tokens _ _ _ _ _ _ _ _ _ _ hin' => rw [hin] at hin'; cases hin'
  | acked q _ _ _ h =>
    refine ⟨?_, Or.inl rfl⟩
    obtain ⟨k, v, hk, hin, hnone⟩ := h
    have hrows := hn.rows
    generalize w.app.queues.envelopes = tab at hrows hk
    generalize w'.app.queues.envelopes = tab' at hrows hnone
    cases hrows with
    | same =>
      rw [hk] at hnone
      cases hnone
    | ack _ rid ids _ _ _ hrid hname =>
      rw [OrdMap.get_eraseAll] at hnone
      split_ifs at hnone with hmem
      · obtain ⟨x, _, rfl⟩ := List.mem_map.mp hmem
        rw [inMailbox_keyFor hname, decide_eq_true_eq] at hin
        rw [← hin, hrid]
      · rw [hk] at hnone
        cases hnone
  | purged rid q _ _ _ h =>
    obtain ⟨k, v, hk, hin, hnone⟩ := h
    have hrows := hn.rows
    generalize w.app.queues.envelopes = tab at hrows hk
    generalize w'.app.queues.envelopes = tab' at hrows hnone
    cases hrows with
    | same =>
      rw [hk] at hnone
      cases hnone
    | retire _ rid _ _ _ hrid hname =>
      have hm : rid = m := by
        rw [purgeTable, OrdMap.get_filter, hk] at hnone
        have hout : inMailbox rid k = true := by simpa using hnone
        unfold inMailbox at hin hout
        rw [decide_eq_true_eq] at hin hout
        exact Option.some.inj (hout.symm.trans hin)
      exact ⟨by rw [← hm, hrid], Or.inr (by rw [← hm]; rfl)⟩

omit [DecidableEq U] in
/-- A record that such a step changes was there before it. -/
theorem TakesEffect.registered {m : RecipientId} {e : RelayEvent U} {s s' : Socket}
    {pc pc' : SocketPc U} {w w' : Relay U} (heff : TakesEffect m e pc w pc' w')
    (hs : SocketPc.Stepped C e s pc w s' pc' w')
    (hne : w.app.mailboxAuth.get m ≠ w'.app.mailboxAuth.get m) :
    ∃ a, w.app.mailboxAuth.get m = some a := by
  rcases hs.authEdit.changed hne with hold | ⟨_, _, _, _, _, _, _, _, _, _, ht, hhello⟩
  · exact hold
  · cases ht
    cases heff with
    | tokens _ _ _ _ _ _ hin => rw [hin] at hhello; cases hhello
    | certificate _ _ _ _ _ _ _ _ _ _ _ hin => rw [hin] at hhello; cases hhello
    | retire _ _ _ _ hin => rw [hin] at hhello; cases hhello

/-- A SetDeliveryTokens, IssueSenderCertificate, Ack or RetireMailbox frame takes effect on a
    mailbox only on a socket whose last accepted Hello was for it; if no registration of the
    mailbox has ended since that Hello, the mailbox is registered with the hash of its token.
    The purge of a retirement acts for the socket as it was when the frame was taken up. A
    record that changes is there before. -/
theorem effects_authorised {st : AppState} (hk : KeysOk U st.queues.envelopes)
    (hn : st.mailboxAuth.All fun m _ => NameOk m)
    (r : Trace (relayMachine C) anyPast (started st) h c) {i : Nat} {e : RelayEvent U}
    {s s' : Socket} {pc pc' : SocketPc U} {w : Relay U}
    (hpc : c.pool[i]? = some (.socket s pc))
    (hstep : pc.step C e s c.shared = some (s', pc', w)) {m : RecipientId}
    (heff : TakesEffect m e pc c.shared pc' w) :
    Authorised C m i h c ∧
      (pc.retires.isSome = true → ∃ h₁ c₁, takenUp i h = some (h₁, c₁) ∧ Authorised C m i h₁ c₁) ∧
      (c.shared.app.mailboxAuth.get m ≠ w.app.mailboxAuth.get m →
        ∃ a, c.shared.app.mailboxAuth.get m = some a) := by
  have hv : Vouched C h c :=
    r.invariant (vouched_start hk hn) fun _ _ _ _ hv _ hn => hv.step hn
  have hs := SocketPc.stepped_of_step hstep
  have hrecv : pc = .ready → (SocketPc.receive C e s c.shared).2.1 = pc' := by
    rintro rfl
    rw [Option.some.inj hstep]
  have hnamed := (RelayTask.Stepped.socket s s' pc pc' c.shared w hs).namedStep hv.named.keys
    hv.named.names (hv.named.tasks _ (List.mem_of_getElem? hpc))
  obtain ⟨hrid, hret⟩ := heff.actsFor hs hrecv hnamed
  have hacts : pc.actsFor s = some m := by
    cases heff <;> exact hrid
  refine ⟨hv.authorised hpc hacts, fun hsome => ?_, heff.registered hs⟩
  rcases hret with hnone | hm
  · rw [hnone] at hsome
    cases hsome
  · exact hv.retiring i s pc m hpc hm

end

/-! ## A run -/

/-- The socket at place `i`, if it is between two frames. -/
def readyAt (i : Nat) (c : RelayConfig Nat) : Option Socket :=
  match c.pool[i]? with
  | some (.socket s .ready) => some s
  | _ => none

theorem pool_of_readyAt {i : Nat} {c : RelayConfig Nat} {s : Socket}
    (h : readyAt i c = some s) : c.pool[i]? = some (.socket s .ready) := by
  unfold readyAt at h
  split at h
  · cases h
    assumption
  · cases h

def sampleEvent (f : ClientFrame Nat) : RelayEvent Nat :=
  ⟨⟨sampleTime, [], [], 0⟩, .text 300 (.ok f), 0, false, .error ""⟩

/-- A Hello that does not go online, from the frame to the next one. -/
def shortHello (i : Nat) : List (Move (RelayMove Nat)) :=
  List.replicate 3 (sampleStep sampleTime i (sampleHello true) 0 [])

def sampleAlice : Socket := ⟨0, some AppState.sampleRid, sampleTime, 1⟩

/-- Would a RetireMailbox frame on socket `s` change the record of the sample mailbox? -/
def retireWorks (s : Socket) (c : RelayConfig Nat) : Bool :=
  (SocketPc.step sampleCrates (sampleEvent .retireMailbox) s c.shared .ready).any fun r =>
    decide (c.shared.app.mailboxAuth.get AppState.sampleRid ≠
      r.2.2.app.mailboxAuth.get AppState.sampleRid)

/-- A socket says Hello and retires its mailbox. -/
theorem effects_authorised_sample : ∃ (h : RelayPast Nat) (c : RelayConfig Nat),
    Trace (relayMachine sampleCrates) anyPast (started AppState.sampleState) h c ∧
      Authorised sampleCrates AppState.sampleRid 1 h c := by
  obtain ⟨h, c, r, hend⟩ := exists_trace (M := relayMachine sampleCrates) (G := anyPast)
    (c := started (U := Nat) AppState.sampleState)
    (.spawn (.connect sampleTime) :: shortHello 1)
    (p := fun r => decide (readyAt 1 r.2 = some sampleAlice) && retireWorks sampleAlice r.2)
    (by decide +kernel)
  obtain ⟨hpc, hany⟩ := Bool.and_eq_true_iff.mp hend
  obtain ⟨⟨s', pc', w⟩, hstep, hne⟩ := (Option.any_eq_true _ _).mp hany
  exact ⟨h, c, r, (effects_authorised keysOk_empty OrdMap.all_empty r
    (pool_of_readyAt (of_decide_eq_true hpc)) hstep
    (.retire 300 pc' _ w rfl (of_decide_eq_true hne))).1⟩

/-- A Hello for the sample mailbox with another token. -/
def otherHello : ClientFrame Nat :=
  .hello AppState.sampleRid "receive_secret_alice_02" "delivery_secret_alice_01" none none none
    (some "2879999:3174360") true

/-- Two sockets are authenticated for a mailbox. One retires it, someone else registers it
    with another token, and the other socket retires that registration. -/
theorem authority_outlives_registration : ¬∀ (C : Crates) (st : AppState) (h : RelayPast Nat)
    (c : RelayConfig Nat), KeysOk Nat st.queues.envelopes →
    (st.mailboxAuth.All fun m _ => NameOk m) →
    Trace (relayMachine C) anyPast (started st) h c →
    ∀ (i : Nat) (e : RelayEvent Nat) (s s' : Socket) (pc pc' : SocketPc Nat) (w : Relay Nat)
      (m : RecipientId), c.pool[i]? = some (.socket s pc) →
      pc.step C e s c.shared = some (s', pc', w) → TakesEffect m e pc c.shared pc' w →
      ∃ a, c.shared.app.mailboxAuth.get m = some a ∧
        ∃ cr ∈ hellos C i h, cr.mailbox = m ∧ cr.receiveHash = a.receiveAuthHash := by
  intro hall
  obtain ⟨h, c, r, hend⟩ := exists_trace (M := relayMachine sampleCrates) (G := anyPast)
    (c := started (U := Nat) AppState.sampleState)
    (.spawn (.connect sampleTime) :: .spawn (.connect sampleTime) ::
      .spawn (.connect sampleTime) :: shortHello 1 ++ shortHello 2 ++
      [sampleStep sampleTime 2 .retireMailbox 0 [], sampleStep sampleTime 3 otherHello 0 []])
    (p := fun r => decide (readyAt 1 r.2 = some sampleAlice) &&
      decide (∀ cr ∈ hellos sampleCrates 1 r.1,
        some cr.receiveHash ≠ (r.2.shared.app.mailboxAuth.get AppState.sampleRid).map
          MailboxAuth.receiveAuthHash) && retireWorks sampleAlice r.2)
    (by decide +kernel)
  obtain ⟨hboth, hany⟩ := Bool.and_eq_true_iff.mp hend
  obtain ⟨hpc, hother⟩ := Bool.and_eq_true_iff.mp hboth
  obtain ⟨⟨s', pc', w⟩, hstep, hne⟩ := (Option.any_eq_true _ _).mp hany
  obtain ⟨a, ha, cr, hcr, _, hhash⟩ := hall _ _ h c keysOk_empty OrdMap.all_empty r 1 _ _ s' _ pc'
    w AppState.sampleRid (pool_of_readyAt (of_decide_eq_true hpc)) hstep
    (.retire 300 pc' _ w rfl (of_decide_eq_true hne))
  have hdiff := of_decide_eq_true hother cr hcr
  rw [ha, hhash] at hdiff
  exact hdiff rfl

end AxenoRelay
