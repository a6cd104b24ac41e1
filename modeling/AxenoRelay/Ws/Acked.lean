/-
  Acknowledged envelopes.

  An Ack removes the rows it lists. The live push comes before the commit, so an Ack can
  come in between: it finds no row, and the commit then adds one that nobody will
  acknowledge again (`acked_comes_back`). If the envelope is not in flight when the
  transaction of the Ack runs, it is gone for good: its id is not drawn again, and no
  handler is left that could write it (`acked_stays_acked`).
-/
import AxenoRelay.Ws.Envelopes
import AxenoRelay.Ws.Leftovers

namespace AxenoRelay

open Interleave QueueStore

section

variable {U : Type} [DecidableEq U]

/-- Is the next step of the task the transaction of an Ack for `m` that lists `x`? -/
def RelayTask.acks (m : RecipientId) (x : U) : RelayTask U → Bool
  | socket _ (.ackQueue (.ackTxn r ids)) => decide (r = m) && decide (x ∈ ids)
  | _ => false

/-- The handler at place `i` has still to run the transaction of an Ack that lists `x`. -/
def Acking (m : RecipientId) (x : U) (i : Nat) (c : RelayConfig U) : Prop :=
  ∃ t, c.pool[i]? = some t ∧ t.acks m x = true

/-- Has a handler drawn `x` for an envelope to `m`, and not yet committed or given up? -/
def RelayTask.hasInFlight (m : RecipientId) (x : U) (t : RelayTask U) : Bool :=
  t.inFlight.any fun env => decide (env.toId = m) && decide (env.id = x)

/-- The transaction of the Ack at place `i` does not run while `x` is in flight. -/
def AckLast (m : RecipientId) (x : U) (i : Nat) (c : RelayConfig U) : Move (RelayMove U) → Prop
  | .act j (.run _) => j = i → ∀ t, c.pool[i]? = some t → t.acks m x = true →
    ∀ u ∈ c.pool, u.hasInFlight m x = false
  | _ => True

instance (m : RecipientId) (x : U) (i : Nat) (c : RelayConfig U) :
    ∀ mv, Decidable (AckLast m x i c mv)
  | .act _ (.run _) => inferInstanceAs (Decidable (_ → ∀ _, _ → _ → _))
  | .act _ (.connect _) | .act _ .gc | .act _ .sweepQueues | .act _ .sweepFiles
  | .act _ (.drain _) | .act _ (.drop _) | .spawn _ | .env _ => isTrue trivial

variable [UuidText U]

/-- Is the next step of the task the transaction of an Ack that is not run or fails? -/
def RelayTask.ackFails (e : RelayEvent U) (st : AppState) : RelayTask U → Bool
  | socket _ (.ackQueue (.ackTxn m ids)) =>
    e.notRun || !((ackTxn m ids).commit e.store.faults st.queues.envelopes).1.isOk
  | _ => false

/-- The store call of the Ack at place `i` succeeds. -/
def AckSucceeds (m : RecipientId) (x : U) (i : Nat) (c : RelayConfig U) :
    Move (RelayMove U) → Prop
  | .act j (.run e) => j = i → ∀ t, c.pool[i]? = some t → t.acks m x = true →
    t.ackFails e c.shared.app = false
  | _ => True

instance (m : RecipientId) (x : U) (i : Nat) (c : RelayConfig U) :
    ∀ mv, Decidable (AckSucceeds m x i c mv)
  | .act _ (.run _) => inferInstanceAs (Decidable (_ → ∀ _, _ → _ → _))
  | .act _ (.connect _) | .act _ .gc | .act _ .sweepQueues | .act _ .sweepFiles
  | .act _ (.drain _) | .act _ (.drop _) | .spawn _ | .env _ => isTrue trivial

/-- By this step the socket at place `i` takes up an Ack for its mailbox `m` that lists `x`, the
    id of an envelope that was sent since the start and that its writer task has written. -/
structure AckTaken (C : Crates) (m : RecipientId) (x : U) (i : Nat) (e : RelayEvent U)
    (c c' : RelayConfig U) : Prop where
  next : (relayMachine C).next (.act i (.run e)) c = some c'
  acking : Acking m x i c'
  drawn : x ∈ c.shared.issued
  received : ∃ s ch env, c.pool[i]? = some (.socket s .ready) ∧
    c.shared.chans[s.sid]? = some ch ∧ .envelope env ∈ ch.sent.take ch.taken ∧ env.id = x

end

/-! ## Gone for good -/

section

variable {U : Type} [UuidText U]

/-- Nobody is going to write `x` to the queue of `m`, where it is not. -/
structure Gone (m : RecipientId) (x : U) (c : RelayConfig U) : Prop where
  row : c.shared.app.queues.envelopes.get (keyFor m x) = none
  drawn : x ∈ c.shared.issued
  landed : ∀ t ∈ c.pool, ∀ env, t.inFlight = some env → env.toId = m → env.id ≠ x

variable {C : Crates} {c c' : RelayConfig U} {mv : Move (RelayMove U)} {m : RecipientId} {x : U}

theorem Gone.step (h : Gone m x c) (hc : Named c) (hm : NameOk m) (hs : Moved C c mv c') :
    Gone m x c' := by
  have hdrawn := hs.issued h.drawn
  cases hs with
  | spawned ev t c w hs =>
    obtain ⟨n, happ⟩ := hs.app
    refine ⟨by dsimp only; rw [happ]; exact h.row, hdrawn, fun u hu env henv => ?_⟩
    rcases List.mem_append.mp hu with hu | hu
    · exact h.landed u hu env henv
    · rw [List.mem_singleton.mp hu] at henv
      cases hs
      all_goals cases henv
  | wrote ev c w hs =>
    exact ⟨by dsimp only; rw [hs.app]; exact h.row, hdrawn, h.landed⟩
  | stepped i e t t' c w ht hs =>
    have hmem := List.mem_of_getElem? ht
    have hnamed := hc.tasks t hmem
    have hrows := (hs.namedStep hc.keys hc.names hnamed).rows
    refine ⟨?_, hdrawn, fun u hu env henv hto => ?_⟩
    · cases hv : w.app.queues.envelopes.get (keyFor m x) with
      | none => rfl
      | some v =>
        rcases hrows.landed hm hv with hold | hfly
        · cases h.row.symm.trans hold
        · exact absurd rfl (h.landed t hmem _ hfly rfl)
    · rcases mem_set_cases hu with rfl | hu
      · rcases hs.inFlight hc.keys hnamed henv with hfly | ⟨hdraw, hnew, -⟩
        · exact h.landed t hmem env hfly hto
        · intro hx
          exact hnew (RelayTask.draws_id hdraw ▸ hx ▸ h.drawn)
      · exact h.landed u hu env henv hto

variable [DecidableEq U]

/-- The transaction of an Ack that finds nobody about to write `x`. -/
theorem gone_of_acked {i : Nat} {e : RelayEvent U} (ha : Acking m x i c)
    (hok : AckSucceeds m x i c (.act i (.run e))) (hlast : AckLast m x i c (.act i (.run e)))
    (hdrawn : x ∈ c.shared.issued) (hn : (relayMachine C).next (.act i (.run e)) c = some c') :
    Gone m x c' := by
  obtain ⟨t, ht, hacks⟩ := ha
  have hland := hlast rfl t ht hacks
  have hfails := hok rfl t ht hacks
  obtain ⟨u, t', w, hu, hstep, rfl⟩ := next_act hn
  obtain rfl : t = u := Option.some.inj (ht.symm.trans hu)
  have hothers : ∀ u ∈ c.pool, ∀ env, u.inFlight = some env → env.toId = m → env.id ≠ x := by
    intro u hu env henv hto hid
    have hno := hland u hu
    rw [RelayTask.hasInFlight, henv, Option.any_some, hto, hid] at hno
    simp at hno
  unfold RelayTask.acks at hacks
  split at hacks
  · rename_i s r ids
    obtain ⟨hr, hx⟩ := Bool.and_eq_true_iff.mp hacks
    obtain rfl := of_decide_eq_true hr
    obtain ⟨⟨s', pc', w'⟩, hs, heq⟩ := Option.map_eq_some_iff.mp hstep
    cases heq
    obtain ⟨⟨pc1, w1⟩, hq, heq⟩ := Option.map_eq_some_iff.mp hs
    cases heq
    obtain ⟨hrun, hcommit⟩ : e.notRun = false ∧
        ((ackTxn r ids).commit e.store.faults c.shared.app.queues.envelopes).1.isOk = true := by
      simpa [RelayTask.ackFails] using hfails
    rcases SocketPc.queueStep_cases hq with ⟨res, hdone, -⟩ | ⟨-, hlost, -⟩ | ⟨q', st, hcall, rfl, rfl⟩
    · cases hdone
    · rw [hrun] at hlost
      cases hlost
    · have hne : ids.isEmpty = false := by
        cases ids with
        | nil => cases of_decide_eq_true hx
        | cons => rfl
      simp only [QueueTask.step, hne, Bool.false_eq_true, if_false] at hcall
      rcases ackTxn_cases r ids e.store.faults c.shared.app.queues.envelopes with ⟨err, he⟩ | he
      · rw [he] at hcommit
        cases hcommit
      · rw [he] at hcall
        cases hcall
        refine ⟨?_, hdrawn, fun u hu env henv hto => ?_⟩
        · dsimp only
          rw [OrdMap.get_eraseAll, if_pos (List.mem_map_of_mem (of_decide_eq_true hx))]
        · rcases mem_set_cases hu with rfl | hu
          · cases henv
          · exact hothers u hu env henv hto
  · cases hacks

/-- A move leaves the Ack waiting, or it was the step of its transaction. -/
theorem Acking.step {i : Nat} (ha : Acking m x i c) (hn : (relayMachine C).next mv c = some c') :
    Acking m x i c' ∨ ∃ e, mv = .act i (.run e) := by
  obtain ⟨t, ht, hacks⟩ := ha
  cases moved_of_next hn with
  | spawned ev u c w hs =>
    have hlt : i < c.pool.length := (List.getElem?_eq_some_iff.mp ht).1
    exact Or.inl ⟨t, (List.getElem?_append_left hlt).trans ht, hacks⟩
  | wrote ev c w hs => exact Or.inl ⟨t, ht, hacks⟩
  | stepped j e u u' c w hu hs =>
    by_cases hij : j = i
    · exact Or.inr ⟨e, hij ▸ rfl⟩
    · exact Or.inl ⟨t, (List.getElem?_set_ne hij).trans ht, hacks⟩

/-- The mailbox of an Ack is the one that its socket authenticated for. -/
theorem Acking.nameOk {i : Nat} (ha : Acking m x i c) (hc : Named c) : NameOk m := by
  obtain ⟨t, ht, hacks⟩ := ha
  have hnamed := hc.tasks t (List.mem_of_getElem? ht)
  unfold RelayTask.acks at hacks
  split at hacks
  · obtain ⟨hr, -⟩ := Bool.and_eq_true_iff.mp hacks
    obtain rfl := of_decide_eq_true hr
    obtain ⟨hsock, rid, hrid, hq⟩ := hnamed
    obtain rfl : _ = rid := hq
    exact hsock _ hrid
  · cases hacks

/-- **An acknowledged envelope stays acknowledged**, if it is not in flight any more when the
    transaction of its Ack runs. -/
theorem acked_stays_acked {st : AppState} (hk : KeysOk U st.queues.envelopes)
    (hn : st.mailboxAuth.All fun m _ => NameOk m) {c₀ c₁ : RelayConfig U} {i : Nat}
    {e : RelayEvent U} (r₀ : Run (relayMachine C) anyMove (started st) c₀)
    (ha : AckTaken C m x i e c₀ c₁)
    (r : Run (relayMachine C) (fun c mv => AckSucceeds m x i c mv ∧ AckLast m x i c mv) c₁ c)
    (hdone : ¬Acking m x i c) : c.shared.app.queues.envelopes.get (keyFor m x) = none := by
  have hnamed₀ : Named c₀ := r₀.invariant (named_start hk hn)
    fun c mv c' h _ hm => h.step (moved_of_next hm)
  have hnamed₁ : Named c₁ := hnamed₀.step (moved_of_next ha.next)
  have hdrawn₁ := (moved_of_next ha.next).issued ha.drawn
  have hm := ha.acking.nameOk hnamed₁
  have hinv : Named c ∧ x ∈ c.shared.issued ∧ (Acking m x i c ∨ Gone m x c) := by
    refine r.invariant
      (P := fun c => Named c ∧ x ∈ c.shared.issued ∧ (Acking m x i c ∨ Gone m x c))
      ⟨hnamed₁, hdrawn₁, Or.inl ha.acking⟩ ?_
    rintro c mv c' ⟨hnamed, hdrawn, hcase⟩ ⟨hok, hlast⟩ hmove
    have hmoved := moved_of_next hmove
    refine ⟨hnamed.step hmoved, hmoved.issued hdrawn, ?_⟩
    rcases hcase with hacking | hgone
    · rcases hacking.step hmove with hstill | ⟨e, rfl⟩
      · exact Or.inl hstill
      · exact Or.inr (gone_of_acked hacking hok hlast hdrawn hmove)
    · exact Or.inr (hgone.step hnamed hm hmoved)
  exact (hinv.2.2.resolve_left hdone).row

end

/-! ## Sample runs -/

/-- Does the socket at place `i` take up an Ack for `x` by this step, having received it? -/
def takesAck (m : RecipientId) (x i : Nat) (e : RelayEvent Nat) (c : RelayConfig Nat) : Bool :=
  match c.pool[i]? with
  | some (.socket s .ready) =>
    decide (x ∈ c.shared.issued) &&
    ((c.shared.chans[s.sid]?).any fun ch => (ch.sent.take ch.taken).any fun f =>
      match f with
      | .envelope env => decide (env.id = x)
      | _ => false) &&
    ((relayMachine sampleCrates).next (.act i (.run e)) c).any fun c' =>
      (c'.pool[i]?).any (RelayTask.acks m x)
  | _ => false

theorem ackTaken_of_takesAck {m : RecipientId} {x i : Nat} {e : RelayEvent Nat}
    {c c' : RelayConfig Nat} (h : takesAck m x i e c = true)
    (hn : (relayMachine sampleCrates).next (.act i (.run e)) c = some c') :
    AckTaken sampleCrates m x i e c c' := by
  unfold takesAck at h
  split at h
  · rename_i s hs
    rw [hn, Option.any_some, Bool.and_eq_true_iff, Bool.and_eq_true_iff] at h
    obtain ⟨⟨hdrawn, hrecv⟩, hacks⟩ := h
    obtain ⟨t, ht, hacks⟩ := (Option.any_eq_true _ _).mp hacks
    obtain ⟨ch, hch, hany⟩ := (Option.any_eq_true _ _).mp hrecv
    obtain ⟨f, hf, hid⟩ := List.any_eq_true.mp hany
    refine ⟨hn, ⟨t, ht, hacks⟩, of_decide_eq_true hdrawn, ?_⟩
    split at hid
    · exact ⟨s, ch, _, hs, hch, hf, of_decide_eq_true hid⟩
    · cases hid
  · cases h

/-- Alice is connected and online, and so is Bob. -/
def bothOnline : List (Move (RelayMove Nat)) :=
  .spawn (.connect sampleTime) :: .spawn (.connect sampleTime) :: handled 1 7 (sampleHello false)

def sampleAck : ClientFrame Nat := .ack [1]

/-- Bob's envelope is committed and written to Alice's socket, and then she acknowledges it. -/
theorem acked_stays_acked_sample : ∃ c₀ c₁ c : RelayConfig Nat,
    AckTaken sampleCrates AppState.sampleRid 1 1 (sampleEvent sampleAck) c₀ c₁ ∧
      c₀.shared.app.queues.envelopes.get (keyFor AppState.sampleRid 1) ≠ none ∧ Resting c ∧
      c.shared.app.queues.envelopes.get (keyFor AppState.sampleRid 1) = none := by
  obtain ⟨c₀, c₁, c, r₀, hp, hn, r, hrest⟩ := exists_run_through
    (M := relayMachine sampleCrates)
    (G := fun c mv => AckSucceeds AppState.sampleRid 1 1 c mv ∧ AckLast AppState.sampleRid 1 1 c mv)
    (c := started (U := Nat) AppState.sampleState)
    (bothOnline ++ handled 2 13 sampleSend ++ List.replicate 3 (.env (.drain 0)))
    (.act 1 (.run (sampleEvent sampleAck))) (handled 1 5 sampleAck)
    (p := fun c => takesAck AppState.sampleRid 1 1 (sampleEvent sampleAck) c &&
      decide (c.shared.app.queues.envelopes.get (keyFor AppState.sampleRid 1) ≠ none))
    (q := fun c => decide (Resting c)) (by decide +kernel)
  obtain ⟨htaken, hrow⟩ := Bool.and_eq_true_iff.mp hp
  have ha := ackTaken_of_takesAck htaken hn
  have hrest := of_decide_eq_true hrest
  refine ⟨c₀, c₁, c, ha, of_decide_eq_true hrow, hrest, ?_⟩
  refine acked_stays_acked keysOk_empty OrdMap.all_empty (r₀.mono fun _ _ _ => trivial) ha r ?_
  rintro ⟨t, ht, hacks⟩
  have hidle := hrest t (List.mem_of_getElem? ht)
  unfold RelayTask.acks at hacks
  split at hacks <;> first | cases hidle | cases hacks

/-- Bob's envelope is pushed and written to Alice's socket, she acknowledges it, and then it is
    committed. -/
theorem acked_comes_back : ¬∀ (C : Crates) (st : AppState) (c₀ c₁ c : RelayConfig Nat) (i x : Nat)
    (e : RelayEvent Nat) (m : RecipientId), KeysOk Nat st.queues.envelopes →
    (st.mailboxAuth.All fun m _ => NameOk m) →
    Run (relayMachine C) CallsSucceed (started st) c₀ → AckTaken C m x i e c₀ c₁ →
    Run (relayMachine C) CallsSucceed c₁ c → Resting c →
    c.shared.app.queues.envelopes.get (keyFor m x) = none := by
  intro hall
  obtain ⟨c₀, c₁, c, r₀, hp, hn, r, hq⟩ := exists_run_through (M := relayMachine sampleCrates)
    (G := CallsSucceed) (c := started (U := Nat) AppState.sampleState)
    (bothOnline ++ handled 2 3 sampleSend ++ List.replicate 3 (.env (.drain 0)))
    (.act 1 (.run (sampleEvent sampleAck))) (handled 1 4 sampleAck ++ handled 2 10 sampleSend)
    (p := takesAck AppState.sampleRid 1 1 (sampleEvent sampleAck))
    (q := fun c => decide (Resting c) &&
      decide (c.shared.app.queues.envelopes.get (keyFor AppState.sampleRid 1) ≠ none))
    (by decide +kernel)
  obtain ⟨hrest, hrow⟩ := Bool.and_eq_true_iff.mp hq
  exact of_decide_eq_true hrow (hall _ _ c₀ c₁ c 1 1 _ _ keysOk_empty OrdMap.all_empty r₀
    (ackTaken_of_takesAck hp hn) r (of_decide_eq_true hrest))

end AxenoRelay
