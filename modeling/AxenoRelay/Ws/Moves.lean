/-
  What one move of the relay does, and what its past says.

  `RelayTask.Stepped` puts the steps of the five kinds of tasks side by side, and
  `Moved` lists the moves: a task that begins, a writer task, or a step of a task
  (`moved_of_next`). The past of a relay answers two questions that its state does
  not: which frame a socket is working on (`inHand`), and what time it is
  (`lastClock`).
-/
import AxenoRelay.Lib.Trace
import AxenoRelay.State.Steps
import AxenoRelay.Ws.Machine
import AxenoRelay.Ws.Steps

namespace AxenoRelay

open Interleave

/-! ## Moves -/

section

variable {U : Type} [UuidText U]

/-- What a step does to a task and the relay. -/
inductive RelayTask.Stepped (C : Crates) (e : RelayEvent U) :
    RelayTask U → Relay U → RelayTask U → Relay U → Prop
  | socket (s s' : Socket) (pc pc' : SocketPc U) (w w' : Relay U)
      (h : SocketPc.Stepped C e s pc w s' pc' w') :
      Stepped C e (.socket s pc) w (.socket s' pc') w'
  | flush (f f' : FlushTask) (st : AppState) (w : Relay U)
      (h : FlushTask.Stepped e.store f w.app f' st) :
      Stepped C e (.flush f) w (.flush f') { w with app := st }
  | gc (g g' : GcTask U) (st : AppState) (w : Relay U)
      (h : GcTask.Stepped e.store g w.app g' st) :
      Stepped C e (.gc g) w (.gc g') { w with app := st }
  | sweepQueues (q q' : QueueTask U) (st : QueueStore) (w : Relay U)
      (h : q.step e.store w.app.queues = some (q', st)) :
      Stepped C e (.sweepQueues q) w (.sweepQueues q')
        { w with app := { w.app with queues := st } }
  | sweepFiles (t t' : FileTask) (st : FileStore) (w : Relay U)
      (h : t.step e.store w.app.files = some (t', st)) :
      Stepped C e (.sweepFiles t) w (.sweepFiles t')
        { w with app := { w.app with files := st } }

/-- The configurations before and after a move. -/
inductive Moved (C : Crates) : RelayConfig U → Move (RelayMove U) → RelayConfig U → Prop
  | spawned (ev : RelayMove U) (t : RelayTask U) (c : RelayConfig U) (w : Relay U)
      (h : Spawned t c.shared w) : Moved C c (.spawn ev) ⟨w, c.pool ++ [t]⟩
  | wrote (ev : RelayMove U) (c : RelayConfig U) (w : Relay U) (h : Wrote c.shared w) :
      Moved C c (.env ev) ⟨w, c.pool⟩
  | stepped (i : Nat) (e : RelayEvent U) (t t' : RelayTask U) (c : RelayConfig U) (w : Relay U)
      (ht : c.pool[i]? = some t) (h : t.Stepped C e c.shared t' w) :
      Moved C c (.act i (.run e)) ⟨w, c.pool.set i t'⟩

variable [DecidableEq U]

theorem RelayTask.stepped_of_step {C : Crates} {e : RelayEvent U} {t t' : RelayTask U}
    {w w' : Relay U} (h : t.step C e w = some (t', w')) : t.Stepped C e w t' w' := by
  cases t with
  | socket s pc =>
    obtain ⟨⟨s', pc', w1⟩, hs, heq⟩ := Option.map_eq_some_iff.mp h
    cases heq
    exact Stepped.socket s s' pc pc' w _ (SocketPc.stepped_of_step hs)
  | flush f =>
    obtain ⟨⟨f', st⟩, hs, heq⟩ := Option.map_eq_some_iff.mp h
    cases heq
    exact Stepped.flush f f' st w (FlushTask.stepped_of_step hs)
  | gc g =>
    obtain ⟨⟨g', st⟩, hs, heq⟩ := Option.map_eq_some_iff.mp h
    cases heq
    exact Stepped.gc g g' st w (GcTask.stepped_of_step hs)
  | sweepQueues q =>
    obtain ⟨⟨q', st⟩, hs, heq⟩ := Option.map_eq_some_iff.mp h
    cases heq
    exact Stepped.sweepQueues q q' st w hs
  | sweepFiles t =>
    obtain ⟨⟨t', st⟩, hs, heq⟩ := Option.map_eq_some_iff.mp h
    cases heq
    exact Stepped.sweepFiles t t' st w hs

theorem next_of_step {C : Crates} {c : RelayConfig U} {i : Nat} {e : RelayEvent U}
    {t t' : RelayTask U} {w : Relay U} (ht : c.pool[i]? = some t)
    (h : t.step C e c.shared = some (t', w)) :
    (relayMachine C).next (.act i (.run e)) c = some ⟨w, c.pool.set i t'⟩ := by
  have hstep : (relayMachine C).step (.run e) t c.shared = some (t', w) := h
  simp only [Machine.next, ht, hstep, Option.map_some]

/-- The step of the task that a move set back into its place. -/
theorem step_of_next {C : Crates} {c : RelayConfig U} {i : Nat} {e : RelayEvent U}
    {t t' : RelayTask U} {w : Relay U} (ht : c.pool[i]? = some t)
    (hn : (relayMachine C).next (.act i (.run e)) c = some ⟨w, c.pool.set i t'⟩) :
    t.step C e c.shared = some (t', w) := by
  obtain ⟨u, u', w', hu, hstep, heq⟩ := next_act hn
  obtain rfl : t = u := Option.some.inj (ht.symm.trans hu)
  obtain ⟨hw, hpool⟩ := Config.mk.inj heq
  have hlt : i < c.pool.length := (List.getElem?_eq_some_iff.mp ht).1
  have hget : (c.pool.set i t')[i]? = (c.pool.set i u')[i]? := by rw [hpool]
  rw [List.getElem?_set_self hlt, List.getElem?_set_self hlt] at hget
  rw [Option.some.inj hget, hw]
  exact hstep

theorem moved_of_next {C : Crates} {c c' : RelayConfig U} {m : Move (RelayMove U)}
    (h : (relayMachine C).next m c = some c') : Moved C c m c' := by
  cases m with
  | spawn ev =>
    obtain ⟨t, w, hs, rfl⟩ := next_spawn h
    exact Moved.spawned ev t c w (spawned_of_spawn hs)
  | env ev =>
    obtain ⟨w, hs, rfl⟩ := next_env h
    exact Moved.wrote ev c w (wrote_of_env hs)
  | act i ev =>
    obtain ⟨t, t', w, ht, hs, rfl⟩ := next_act h
    cases ev with
    | run e => exact Moved.stepped i e t t' c w ht (RelayTask.stepped_of_step hs)
    | _ => cases hs

end

/-! ## The past -/

/-- Is the handler between two frames? -/
def SocketPc.isReady {U : Type} : SocketPc U → Bool
  | ready => true
  | _ => false

section

variable {U : Type}

/-- The moves of a relay so far. -/
abbrev RelayPast (U : Type) := Interleave.Past (Relay U) (RelayTask U) (RelayMove U)

/-- The frame that the socket at place `i` took up last, and the clock it did so at. -/
def inHand (i : Nat) : RelayPast U → Option (Nat × ClientFrame U)
  | [] => none
  | (c, .act j (.run e)) :: h =>
    if j = i then
      match c.pool[i]? with
      | some (.socket _ .ready) =>
        match e.incoming with
        | .text _ (.ok f) => some (e.store.now, f)
        | _ => none
      | _ => inHand i h
    else inHand i h
  | _ :: h => inHand i h

/-- The clock of a move, if it reads one. -/
def RelayMove.clock : Move (RelayMove U) → Option Nat
  | .spawn (.connect now) => some now
  | .act _ (.run e) => some e.store.now
  | _ => none

/-- The clock of the last move that read it. -/
def lastClock : RelayPast U → Nat
  | [] => 0
  | (_, m) :: h => (RelayMove.clock m).getD (lastClock h)

/-- The clock does not go back. -/
def ClockOk (h : RelayPast U) (m : Move (RelayMove U)) : Prop :=
  ∀ now, RelayMove.clock m = some now → lastClock h ≤ now

instance (h : RelayPast U) (m : Move (RelayMove U)) : Decidable (ClockOk h m) :=
  decidableForallSome _ fun now => lastClock h ≤ now

variable {c : RelayConfig U} {h : RelayPast U} {i j : Nat} {e : RelayEvent U}

theorem lastClock_le {m : Move (RelayMove U)} (hm : ClockOk h m) :
    lastClock h ≤ lastClock ((c, m) :: h) := by
  unfold ClockOk at hm
  change lastClock h ≤ (RelayMove.clock m).getD (lastClock h)
  cases hc : RelayMove.clock m with
  | none => exact Nat.le_refl _
  | some now => exact hm now hc

theorem inHand_spawn (i : Nat) (ev : RelayMove U) :
    inHand i ((c, .spawn ev) :: h) = inHand i h := rfl

theorem inHand_env (i : Nat) (ev : RelayMove U) :
    inHand i ((c, .env ev) :: h) = inHand i h := rfl

theorem inHand_other (hij : j ≠ i) : inHand i ((c, .act j (.run e)) :: h) = inHand i h := by
  rw [inHand, if_neg hij]

theorem inHand_busy {t : RelayTask U} (ht : c.pool[i]? = some t)
    (hbusy : ∀ s pc, t = .socket s pc → pc.isReady = false) :
    inHand i ((c, .act i (.run e)) :: h) = inHand i h := by
  rw [inHand, if_pos rfl, ht]
  split
  · rename_i s heq
    have hready := hbusy s .ready (Option.some.inj heq)
    cases hready
  · rfl

theorem inHand_taken {s : Socket} {n : Nat} {f : ClientFrame U}
    (ht : c.pool[i]? = some (.socket s .ready)) (hin : e.incoming = .text n (.ok f)) :
    inHand i ((c, .act i (.run e)) :: h) = some (e.store.now, f) := by
  rw [inHand, if_pos rfl, ht]
  dsimp only
  rw [hin]

end

end AxenoRelay
