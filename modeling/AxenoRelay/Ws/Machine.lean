/-
  The relay as a machine: any number of sockets, the flush task, garbage collections
  and sweeps, interleaved step by step.

  A socket's task begins with its connection and keeps its number for good. The
  writer task of a socket takes frames from the channel (`drain`) until it gives up
  (`drop`).
-/
import AxenoRelay.Lib.Interleave
import AxenoRelay.QueueStore.World
import AxenoRelay.Ws.Basic
import Mathlib

namespace AxenoRelay

open Interleave

inductive RelayTask (U : Type) where
  | socket (s : Socket) (pc : SocketPc U)
  | flush (f : FlushTask)
  | gc (g : GcTask U)
  | sweepQueues (q : QueueTask U)
  | sweepFiles (t : FileTask)

inductive RelayMove (U : Type) where
  | connect (now : Nat)
  | gc
  | sweepQueues
  | sweepFiles
  | run (e : RelayEvent U)
  | drain (sid : Nat)
  | drop (sid : Nat)

abbrev RelayConfig (U : Type) := Config (Relay U) (RelayTask U)

namespace RelayTask

variable {U : Type} [UuidText U] [DecidableEq U]

def step (C : Crates) (e : RelayEvent U) : RelayTask U → Relay U → Option (RelayTask U × Relay U)
  | socket s pc, w => (pc.step C e s w).map fun r => (socket r.1 r.2.1, r.2.2)
  | flush f, w => (f.step e.store w.app).map fun r => (flush r.1, { w with app := r.2 })
  | gc g, w => (g.step e.store w.app).map fun r => (gc r.1, { w with app := r.2 })
  | sweepQueues q, w => (q.step e.store w.app.queues).map fun r =>
      (sweepQueues r.1, { w with app := { w.app with queues := r.2 } })
  | sweepFiles t, w => (t.step e.store w.app.files).map fun r =>
      (sweepFiles r.1, { w with app := { w.app with files := r.2 } })

/-- Is the task between two frames, two flushes, or over? -/
def resting : RelayTask U → Bool
  | socket _ .ready | socket _ .closed | flush .lookAuth | gc .done | sweepQueues (.done _)
  | sweepFiles (.done _) => true
  | _ => false

end RelayTask

section Machine

variable {U : Type}

/-- The relay over a state that `build` made. -/
def started (st : AppState) : RelayConfig U := ⟨⟨st, [], []⟩, [.flush .lookAuth]⟩

/-- No handler, flush, collection or sweep is in flight. -/
def Resting (c : RelayConfig U) : Prop := ∀ t ∈ c.pool, t.resting = true

instance (c : RelayConfig U) : Decidable (Resting c) :=
  inferInstanceAs (Decidable (∀ t ∈ c.pool, t.resting = true))

/-- The tasks that begin, and what that does to the relay. -/
inductive Spawned : RelayTask U → Relay U → Relay U → Prop
  | connect (now : Nat) (w : Relay U) :
      Spawned (.socket ⟨w.chans.length, none, now, 0⟩ .ready) w { w with
        app := { w.app with connCount := w.app.connCount + 1 }
        chans := w.chans ++ [Chan.new] }
  | gc (w : Relay U) : Spawned (.gc .scan) w w
  | sweepQueues (w : Relay U) : Spawned (.sweepQueues .sweepTxn) w w
  | sweepFiles (w : Relay U) : Spawned (.sweepFiles .sweepScan) w w

theorem Spawned.app {t : RelayTask U} {w w' : Relay U} (h : Spawned t w w') :
    ∃ n, w'.app = { w.app with connCount := n } := by
  cases h <;> exact ⟨_, rfl⟩

/-- What a writer task does to the relay. -/
inductive Wrote : Relay U → Relay U → Prop
  | drain (sid : Nat) (c : Chan U) (w : Relay U) (hc : w.chans[sid]? = some c) :
      Wrote w { w with chans := w.chans.set sid { c with taken := c.taken + 1 } }
  | drop (sid : Nat) (w : Relay U) :
      Wrote w { w with chans := w.chans.modify sid fun c => { c with isOpen := false } }

theorem Wrote.app {w w' : Relay U} (h : Wrote w w') : w'.app = w.app := by
  cases h <;> rfl

variable [UuidText U] [DecidableEq U]

def relayMachine (C : Crates) : Machine (Relay U) (RelayTask U) (RelayMove U) where
  spawn
    | .connect now, w =>
      if maxConnections ≤ w.app.connCount then none
      else some (.socket ⟨w.chans.length, none, now, 0⟩ .ready,
        { w with
          app := { w.app with connCount := w.app.connCount + 1 }
          chans := w.chans ++ [Chan.new] })
    | .gc, w => some (.gc .scan, w)
    | .sweepQueues, w => some (.sweepQueues .sweepTxn, w)
    | .sweepFiles, w => some (.sweepFiles .sweepScan, w)
    | _, _ => none
  step
    | .run e, t, w => t.step C e w
    | _, _, _ => none
  env
    | .drain sid, w =>
      match w.chans[sid]? with
      | none => none
      | some c =>
        if c.taken < c.sent.length then
          some { w with chans := w.chans.set sid { c with taken := c.taken + 1 } }
        else none
    | .drop sid, w =>
      some { w with chans := w.chans.modify sid fun c => { c with isOpen := false } }
    | _, _ => none

theorem spawned_of_spawn {C : Crates} {m : RelayMove U} {t : RelayTask U} {w w' : Relay U}
    (h : (relayMachine C).spawn m w = some (t, w')) : Spawned t w w' := by
  cases m with
  | connect now =>
    simp only [relayMachine] at h
    split_ifs at h
    cases h
    exact Spawned.connect now w
  | gc =>
    cases h
    exact Spawned.gc w
  | sweepQueues =>
    cases h
    exact Spawned.sweepQueues w
  | sweepFiles =>
    cases h
    exact Spawned.sweepFiles w
  | _ => cases h

theorem wrote_of_env {C : Crates} {m : RelayMove U} {w w' : Relay U}
    (h : (relayMachine C).env m w = some w') : Wrote w w' := by
  cases m with
  | drain sid =>
    simp only [relayMachine] at h
    cases hc : w.chans[sid]? with
    | none =>
      rw [hc] at h
      cases h
    | some c =>
      rw [hc] at h
      dsimp only at h
      split_ifs at h
      cases h
      exact Wrote.drain sid c w hc
  | drop sid =>
    cases h
    exact Wrote.drop sid w
  | _ => cases h

end Machine

/-! ## A relay to run -/

section Samples

def hexDigit (n : Nat) : Char := ("0123456789abcdef".toList[n]?).getD '0'

/-- SHA-256 of the inputs that occur in sample runs. -/
def sampleHashes : List (String × List UInt8) :=
  [("delivery_secret_alice_01",
      [92, 164, 129, 162, 27, 179, 138, 38, 10, 39, 47, 202, 164, 184, 41, 252, 11, 112, 97, 129,
        121, 51, 184, 245, 80, 148, 80, 58, 64, 61, 242, 175]),
    ("receive_secret_alice_01",
      [124, 136, 51, 68, 238, 171, 201, 232, 126, 152, 146, 155, 15, 189, 90, 138, 16, 53, 197,
        4, 19, 145, 27, 163, 110, 169, 2, 4, 109, 95, 105, 124]),
    ("mbx_alice_00000000000000000000000001:2879999:3174360",
      [0, 0, 0, 39, 46, 237, 118, 3, 84, 134, 132, 6, 170, 158, 177, 45, 225, 204, 120, 91, 29,
        91, 70, 184, 248, 216, 207, 140, 231, 248, 76, 127]),
    ("receive_secret_alice_02",
      [47, 108, 84, 177, 31, 235, 191, 98, 198, 194, 76, 165, 230, 161, 96, 246, 183, 73, 92,
        74, 195, 247, 8, 23, 210, 204, 89, 247, 181, 164, 144, 178]),
    ("delivery_secret_bobby_01",
      [123, 165, 201, 126, 247, 250, 198, 86, 79, 21, 113, 239, 114, 42, 208, 130, 36, 208, 72,
        154, 33, 133, 62, 163, 53, 127, 128, 170, 189, 57, 150, 123]),
    ("receive_secret_bobby_01",
      [192, 85, 195, 53, 228, 12, 203, 18, 213, 85, 25, 195, 42, 166, 43, 117, 89, 96, 187, 24,
        113, 14, 79, 77, 171, 15, 167, 58, 192, 34, 130, 98]),
    ("mbx_bobby_00000000000000000000000001:2879999:2111460",
      [0, 0, 2, 220, 51, 75, 174, 207, 123, 50, 221, 233, 122, 162, 207, 59, 168, 135, 149,
        194, 123, 15, 159, 250, 207, 175, 201, 241, 18, 208, 180, 132]),
    ("invite_alice_0001:2879999:3801991",
      [0, 0, 3, 24, 64, 133, 175, 178, 174, 24, 112, 148, 67, 38, 14, 0, 211, 207, 157, 232, 1,
        155, 82, 8, 227, 100, 130, 234, 117, 168, 133, 16])]

def sampleCrates : Crates where
  sha256 s := ((sampleHashes.find? fun e => e.1 == s).map Prod.snd).getD []
  hexEncode l :=
    String.ofList (l.flatMap fun b => [hexDigit (b.toNat / 16), hexDigit (b.toNat % 16)])
  decodeB64 _ := none
  encodeB64 _ := ""

/-- One second before a midnight. -/
def sampleTime : Nat := 20000 * 86400000 - 1000

variable {U : Type}

def sampleHello (certOnly : Bool) : ClientFrame U :=
  .hello AppState.sampleRid "receive_secret_alice_01" "delivery_secret_alice_01" none none none
    (some "2879999:3174360") certOnly

def sampleSend : ClientFrame U :=
  .sendEnvelope none AppState.sampleRid "delivery_secret_alice_01" "message" "hi"

/-- The task at place `i` takes a step at clock `now`; `f` is the frame it would receive. -/
def sampleStep (now i : Nat) (f : ClientFrame U) (uuid : U) (faults : Faults) :
    Move (RelayMove U) :=
  .act i (.run ⟨⟨now, faults, [], 0⟩, .text 300 (.ok f), uuid, false, .error ""⟩)

end Samples

end AxenoRelay
