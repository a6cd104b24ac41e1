/-
  Envelopes on their way to a queue.

  SendEnvelope draws an id, pushes the envelope to the live route if there is one, and
  commits it to the queue some steps later. In between the envelope is in flight
  (`RelayTask.inFlight`). What is in flight after a step was so before it, or has just got
  its id; and a row that a step adds is the envelope that was in flight.
-/
import AxenoRelay.Ws.Calls

namespace AxenoRelay

open Interleave QueueStore

section

variable {U : Type}

/-- The envelope that the handler has drawn and not yet committed, nor given up. -/
def SocketPc.inFlight : SocketPc U → Option (StoredEnvelope U)
  | sendStale _ env | sendCheck _ env _ => some env
  | sendQueue _ env _ q => if q.pendingId.isSome then some env else none
  | _ => none

def RelayTask.inFlight : RelayTask U → Option (StoredEnvelope U)
  | socket _ pc => pc.inFlight
  | _ => none

theorem SocketPc.Plain.inFlight {pc : SocketPc U} (h : pc.Plain) : pc.inFlight = none := by
  cases pc <;> first | rfl | exact h.elim

/-- The envelope that the handler is about to draw an id for. -/
def SocketPc.draws (id : U) : SocketPc U → Option (StoredEnvelope U)
  | sendLive _ m ty ct => some ⟨id, m, ty, ct⟩
  | _ => none

def RelayTask.draws (id : U) : RelayTask U → Option (StoredEnvelope U)
  | socket _ pc => pc.draws id
  | _ => none

theorem RelayTask.draws_id {t : RelayTask U} {id : U} {env : StoredEnvelope U}
    (h : t.draws id = some env) : env.id = id := by
  unfold RelayTask.draws SocketPc.draws at h
  repeat' split at h
  all_goals cases h
  rfl

end

section

variable {U : Type} [UuidText U] {C : Crates} {e : RelayEvent U}

/-- What is in flight after a step was so before it, or has just been drawn. -/
theorem SocketPc.Stepped.inFlight {s s' : Socket} {pc pc' : SocketPc U} {w w' : Relay U}
    (hs : SocketPc.Stepped C e s pc w s' pc' w') (hk : KeysOk U w.app.queues.envelopes)
    (hn : (RelayTask.socket s pc).Named) {env : StoredEnvelope U} (h : pc'.inFlight = some env) :
    pc.inFlight = some env ∨
      pc.draws e.uuid = some env ∧ e.uuid ∉ w.issued ∧ w'.issued = e.uuid :: w.issued := by
  cases hs
  case inner hin =>
    rw [hin.target.inFlight] at h
    cases h
  case said f last => cases last <;> cases h
  case helloOk certOnly f => cases certOnly <;> cases h
  case sendMissed hnew _ => exact Or.inr ⟨h, hnew, rfl⟩
  case sendPushed hnew _ _ => exact Or.inr ⟨h, hnew, rfl⟩
  case sendFailed hnew _ _ => exact Or.inr ⟨h, hnew, rfl⟩
  case sendStale => exact Or.inl h
  case sendStart => exact Or.inl h
  case sendQueue q q' st hq =>
    have hname : ∀ m, q.mailbox = some m → NameOk m := fun m hm => hn.2.2.mailbox hm ▸ hn.2.1
    have hst := QueueTask.stepped_of_step hk hname hq
    simp only [SocketPc.inFlight] at h ⊢
    split_ifs at h with hpend
    obtain ⟨id, hid⟩ := Option.isSome_iff_exists.mp hpend
    rw [if_pos (Option.isSome_iff_exists.mpr ⟨id, stepped_pendingId hst hid⟩)]
    exact Or.inl h
  all_goals cases h

theorem RelayTask.Stepped.inFlight {t t' : RelayTask U} {w w' : Relay U}
    (hs : t.Stepped C e w t' w') (hk : KeysOk U w.app.queues.envelopes) (hn : t.Named)
    {env : StoredEnvelope U} (h : t'.inFlight = some env) :
    t.inFlight = some env ∨
      t.draws e.uuid = some env ∧ e.uuid ∉ w.issued ∧ w'.issued = e.uuid :: w.issued := by
  cases hs with
  | socket s s' pc pc' w w' hs => exact hs.inFlight hk hn h
  | _ => cases h

/-- No id is given back. -/
theorem RelayTask.Stepped.issued {t t' : RelayTask U} {w w' : Relay U}
    (hs : t.Stepped C e w t' w') {id : U} (h : id ∈ w.issued) : id ∈ w'.issued := by
  cases hs with
  | socket s s' pc pc' w w' hs =>
    cases hs
    case said =>
      rw [Relay.say_issued]
      exact h
    case helloOk =>
      rw [Relay.say_issued]
      exact h
    case sendMissed | sendPushed | sendFailed => exact List.mem_cons_of_mem _ h
    all_goals exact h
  | _ => exact h

theorem Moved.issued {c c' : RelayConfig U} {mv : Move (RelayMove U)} (hm : Moved C c mv c')
    {id : U} (h : id ∈ c.shared.issued) : id ∈ c'.shared.issued := by
  cases hm with
  | spawned ev t c w hs =>
    cases hs
    all_goals exact h
  | wrote ev c w hs =>
    cases hs
    all_goals exact h
  | stepped i e t t' c w ht hs => exact hs.issued h

/-- A row after a step was there before, or is the envelope that was in flight. -/
theorem RowsStep.landed {es : StoreEvent} {t t' : RelayTask U} {tab tab' : Envelopes}
    (h : RowsStep es t t' tab tab') {m : RecipientId} (hm : NameOk m) {id : U} {v : StoredValue}
    (hv : tab'.get (keyFor m id) = some v) :
    tab.get (keyFor m id) = some v ∨ t.inFlight = some (toEnvelope m (id, v)) := by
  rcases h.get_cases hv with hold | ⟨s, r, env, live, ids, b, rfl, -, hkey, henv, hty, hct⟩
  · exact Or.inl hold
  · obtain ⟨rfl, rfl⟩ := keyFor_inj hm henv hkey
    refine Or.inr (congrArg some ?_)
    rw [toEnvelope, hty, hct]

end

end AxenoRelay
