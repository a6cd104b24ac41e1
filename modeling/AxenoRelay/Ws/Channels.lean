/-
  What has gone through a channel.

  `Relay.through p w sid` is what `p` sees of the frames pushed onto the channel of socket
  `sid`, oldest first: the replies, the deliveries, or all of them. Writer tasks and new
  sockets leave it as it is; a push adds what `p` sees of one frame.
-/
import AxenoRelay.Ws.Routes

namespace AxenoRelay

open Interleave

section

variable {U : Type} {β : Type}

/-- What `p` sees of the frames that have gone through the channel of socket `sid`. -/
def Relay.through (p : ServerFrame U → Option β) (w : Relay U) (sid : Nat) : List β :=
  ((w.chans[sid]?).map fun ch => ch.sent.filterMap p).getD []

variable (p : ServerFrame U → Option β) {w w' : Relay U}

theorem through_chan {sid : Nat} {ch : Chan U} (hch : w.chans[sid]? = some ch) :
    w.through p sid = ch.sent.filterMap p := by
  rw [Relay.through, hch, Option.map_some, Option.getD_some]

theorem through_new : w.through p w.chans.length = [] := by
  rw [Relay.through, List.getElem?_eq_none (Nat.le_refl _)]
  rfl

theorem through_same (h : w'.chans = w.chans) (sid : Nat) : w'.through p sid = w.through p sid := by
  rw [Relay.through, h, Relay.through]

theorem through_push {sid : Nat} {ch : Chan U} {f : ServerFrame U} (hch : w.chans[sid]? = some ch)
    (h : w'.chans = w.chans.set sid (ch.push f)) (j : Nat) :
    w'.through p j = w.through p j ++ if j = sid then (p f).toList else [] := by
  unfold Relay.through
  rw [h]
  by_cases hj : j = sid
  · subst hj
    rw [List.getElem?_set_self (List.getElem?_eq_some_iff.mp hch).1, hch, if_pos rfl]
    simp only [Option.map_some, Option.getD_some, Chan.push, List.filterMap_append]
    cases hf : p f <;> simp [hf]
  · rw [List.getElem?_set_ne (Ne.symm hj), if_neg hj, List.append_nil]

theorem through_say (w : Relay U) (sid : Nat) (f : ServerFrame U) (j : Nat) :
    (w.say sid f).through p j =
      w.through p j ++ if j = sid ∧ (w.trySend sid f).1 = true then (p f).toList else [] := by
  rcases SocketPc.trySend_cases w sid f with ⟨ch, hch, heq⟩ | ⟨heq, _⟩
  · rw [through_push p hch (by rw [Relay.say, heq]) j]
    simp [heq]
  · have hsame : w.say sid f = w := by rw [Relay.say, heq]
    rw [hsame]
    simp [heq]

theorem through_close (sid : Nat)
    (h : w'.chans = w.chans.modify sid fun ch => { ch with isOpen := false }) (j : Nat) :
    w'.through p j = w.through p j := by
  unfold Relay.through
  rw [h, List.getElem?_modify]
  cases w.chans[j]? with
  | none => rfl
  | some ch =>
    by_cases hj : sid = j
    · simp [hj]
    · simp [hj]

theorem through_spawned {t : RelayTask U} (h : Spawned t w w') (j : Nat) :
    w'.through p j = w.through p j := by
  cases h
  case connect =>
    unfold Relay.through
    dsimp only
    by_cases hj : j < w.chans.length
    · rw [List.getElem?_append_left hj]
    · rw [List.getElem?_append_right (Nat.le_of_not_lt hj),
        List.getElem?_eq_none (Nat.le_of_not_lt hj)]
      cases hd : j - w.chans.length with
      | zero => rfl
      | succ n => rfl
  all_goals rfl

theorem through_wrote (h : Wrote w w') (j : Nat) : w'.through p j = w.through p j := by
  cases h with
  | drain sid ch _ hch =>
    unfold Relay.through
    dsimp only
    by_cases hj : j = sid
    · subst hj
      rw [List.getElem?_set_self (List.getElem?_eq_some_iff.mp hch).1, hch]
      rfl
    · rw [List.getElem?_set_ne (Ne.symm hj)]
  | drop sid => exact through_close p sid rfl j

end

end AxenoRelay
