/-
  Routes and channels.

  `online` changes at four places of the handlers and nowhere else; `routeEdit` names
  the change the next step of a task makes (`RelayTask.Stepped.online`). A channel only
  ever grows, and once closed it stays closed (`Relay.Later`). Sockets are told apart by
  their numbers (`SidsOk`).
-/
import AxenoRelay.Ws.Moves

namespace AxenoRelay

open Interleave

variable {U : Type}

/-! ## Routes -/

/-- The change the next step of a handler makes to `online`. -/
def SocketPc.routeEdit (s : Socket) : SocketPc U → Option (RecipientId × Option Nat)
  | helloOnline rid _ => some (rid, some s.sid)
  | sendStale _ env => some (env.toId, none)
  | retireOnline rid => some (rid, none)
  | closeRemove rid => some (rid, none)
  | _ => none

def RelayTask.routeEdit : RelayTask U → Option (RecipientId × Option Nat)
  | socket s pc => pc.routeEdit s
  | _ => none

/-- Apply a change of `online`. -/
def editRoute (online : OrdMap RecipientId Nat) : Option (RecipientId × Option Nat) →
    OrdMap RecipientId Nat
  | some (k, o) => online.assign k o
  | none => online

/-! ## Channels -/

/-- The channel later on: frames are only added, and it is not opened again. -/
structure Chan.Later {U : Type} (c c' : Chan U) : Prop where
  sent : ∀ f ∈ c.sent, f ∈ c'.sent
  closed : c'.isOpen = true → c.isOpen = true

/-- Every channel is still there, later on. -/
def Relay.Later {U : Type} (w w' : Relay U) : Prop :=
  ∀ (sid : Nat) (c : Chan U), w.chans[sid]? = some c →
    ∃ c' : Chan U, w'.chans[sid]? = some c' ∧ Chan.Later c c'

theorem Chan.later_refl (c : Chan U) : c.Later c := ⟨fun _ hf => hf, id⟩

theorem Chan.later_push (c : Chan U) (f : ServerFrame U) : c.Later (c.push f) :=
  ⟨fun _ hf => List.mem_append_left _ hf, id⟩

theorem Relay.later_same {w w' : Relay U} (h : w'.chans = w.chans) : w.Later w' := by
  intro sid c hc
  exact ⟨c, by rw [h, hc], c.later_refl⟩

theorem Relay.later_set {w w' : Relay U} {sid : Nat} {c c' : Chan U}
    (hc : w.chans[sid]? = some c) (hl : c.Later c') (h : w'.chans = w.chans.set sid c') :
    w.Later w' := by
  intro j d hd
  by_cases hj : sid = j
  · subst hj
    rw [hc] at hd
    obtain rfl := Option.some.inj hd
    refine ⟨c', ?_, hl⟩
    rw [h, List.getElem?_set_self (List.getElem?_eq_some_iff.mp hc).1]
  · exact ⟨d, by rw [h, List.getElem?_set_ne hj, hd], d.later_refl⟩

theorem Relay.later_close {w w' : Relay U} (sid : Nat)
    (h : w'.chans = w.chans.modify sid fun c => { c with isOpen := false }) : w.Later w' := by
  intro j d hd
  rw [h, List.getElem?_modify, hd]
  by_cases hj : sid = j
  · exact ⟨{ d with isOpen := false }, by simp [hj], fun _ hf => hf, fun ho => nomatch ho⟩
  · exact ⟨d, by simp [hj], d.later_refl⟩

theorem Relay.later_say (w : Relay U) (sid : Nat) (f : ServerFrame U) : w.Later (w.say sid f) := by
  rcases SocketPc.trySend_cases w sid f with ⟨c, hc, heq⟩ | ⟨heq, _⟩
  · exact Relay.later_set hc (c.later_push f) (by rw [Relay.say, heq])
  · exact Relay.later_same (by rw [Relay.say, heq])

theorem Relay.later_open {w w' : Relay U} (c : Chan U) (h : w'.chans = w.chans ++ [c]) :
    w.Later w' := by
  intro j d hd
  refine ⟨d, ?_, d.later_refl⟩
  rw [h, List.getElem?_append_left (List.getElem?_eq_some_iff.mp hd).1, hd]

/-! ## One step -/

theorem SocketPc.Plain.routeEdit {pc : SocketPc U} (h : pc.Plain) (s : Socket) :
    pc.routeEdit s = none := by
  cases pc <;> first | rfl | exact h.elim

theorem later_of_spawn {t : RelayTask U} {w w' : Relay U} (h : Spawned t w w') : w.Later w' := by
  cases h
  case connect => exact Relay.later_open _ rfl
  all_goals exact Relay.later_same rfl

theorem later_of_wrote {w w' : Relay U} (h : Wrote w w') : w.Later w' := by
  cases h
  case drain c hc =>
    have hlater : Chan.Later c { c with taken := c.taken + 1 } := ⟨fun _ hf => hf, id⟩
    exact Relay.later_set hc hlater rfl
  case drop => exact Relay.later_close _ rfl

section

variable [UuidText U]

theorem SocketPc.Stepped.online {C : Crates} {e : RelayEvent U} {s s' : Socket}
    {pc pc' : SocketPc U} {w w' : Relay U} (hs : SocketPc.Stepped C e s pc w s' pc' w') :
    w'.app.online = editRoute w.app.online (pc.routeEdit s) := by
  cases hs
  case inner hin => rw [hin.source.routeEdit, editRoute]
  case said =>
    rw [Relay.say_app]
    rfl
  case helloOk =>
    rw [Relay.say_app]
    rfl
  case pruned h => cases PruneTask.stepped_of_step h <;> rfl
  case hello h _ =>
    rcases SocketPc.helloEntry_cases h with ⟨_, _, _, _, rfl⟩ | ⟨_, _, _, rfl⟩ <;> rfl
  all_goals rfl

theorem SocketPc.Stepped.later {C : Crates} {e : RelayEvent U} {s s' : Socket}
    {pc pc' : SocketPc U} {w w' : Relay U} (hs : SocketPc.Stepped C e s pc w s' pc' w') :
    w.Later w' := by
  cases hs
  case said => exact Relay.later_say _ _ _
  case helloOk => exact Relay.later_say _ _ _
  case helloPush env _ _ _ c hc => exact Relay.later_set hc (c.later_push _) rfl
  case helloSynced c hc => exact Relay.later_set hc (c.later_push _) rfl
  case sendPushed c _ _ hc => exact Relay.later_set hc (c.later_push _) rfl
  case closeEnd => exact Relay.later_close _ rfl
  all_goals exact Relay.later_same rfl

theorem RelayTask.Stepped.online {C : Crates} {e : RelayEvent U} {t t' : RelayTask U}
    {w w' : Relay U} (hs : t.Stepped C e w t' w') :
    w'.app.online = editRoute w.app.online t.routeEdit := by
  cases hs with
  | socket s s' pc pc' w w' h => exact h.online
  | flush f f' st w h => cases h <;> rfl
  | gc g g' st w h => cases h <;> rfl
  | _ => rfl

theorem RelayTask.Stepped.later {C : Crates} {e : RelayEvent U} {t t' : RelayTask U}
    {w w' : Relay U} (hs : t.Stepped C e w t' w') : w.Later w' := by
  cases hs with
  | socket s s' pc pc' w w' h => exact h.later
  | _ => exact Relay.later_same rfl

theorem Moved.later {C : Crates} {c c' : RelayConfig U} {m : Move (RelayMove U)}
    (hm : Moved C c m c') : c.shared.Later c'.shared := by
  cases hm with
  | spawned ev t c w h => exact later_of_spawn h
  | wrote ev c w h => exact later_of_wrote h
  | stepped i e t t' c w ht h => exact h.later

/-! ## Sockets and their numbers -/

theorem SocketPc.Stepped.sid {C : Crates} {e : RelayEvent U} {s s' : Socket}
    {pc pc' : SocketPc U} {w w' : Relay U} (hs : SocketPc.Stepped C e s pc w s' pc' w') :
    s'.sid = s.sid := by
  cases hs
  case inner hsame _ => exact hsame.1
  case hello hsame => exact hsame.1
  case tokens hsame => exact hsame.1
  case sendAuth hsame => exact hsame.1
  case ack hsame => exact hsame.1
  case retire hsame => exact hsame.1
  case retireNone hsame => exact hsame.1
  all_goals rfl

end

theorem Relay.Later.lt {w w' : Relay U} (hl : w.Later w') {sid : Nat}
    (h : sid < w.chans.length) : sid < w'.chans.length := by
  obtain ⟨c', hc', _⟩ := hl sid _ (List.getElem?_eq_getElem h)
  exact (List.getElem?_eq_some_iff.mp hc').1

/-- Every socket has a channel, and no two sockets have the same. -/
structure SidsOk (c : RelayConfig U) : Prop where
  lt : ∀ (i : Nat) (s : Socket) (pc : SocketPc U), c.pool[i]? = some (.socket s pc) →
    s.sid < c.shared.chans.length
  inj : ∀ (i j : Nat) (s s' : Socket) (pc pc' : SocketPc U),
    c.pool[i]? = some (.socket s pc) → c.pool[j]? = some (.socket s' pc') → s.sid = s'.sid →
    i = j

theorem sidsOk_start (st : AppState) : SidsOk (started st : RelayConfig U) := by
  have hnone : ∀ (i : Nat) (s : Socket) (pc : SocketPc U),
      (started st : RelayConfig U).pool[i]? ≠ some (.socket s pc) := by
    intro i s pc h
    cases List.mem_singleton.mp (List.mem_of_getElem? h)
  exact ⟨fun i s pc h => absurd h (hnone i s pc), fun i _ s _ pc _ h => absurd h (hnone i s pc)⟩

/-- A socket after a move is an old one, with its number, or a new one with a new number. -/
theorem Moved.socket_cases [UuidText U] {C : Crates} {c c' : RelayConfig U}
    {m : Move (RelayMove U)} (hm : Moved C c m c') {i : Nat} {s : Socket} {pc : SocketPc U}
    (h : c'.pool[i]? = some (.socket s pc)) :
    (∃ s₀ pc₀, c.pool[i]? = some (.socket s₀ pc₀) ∧ s₀.sid = s.sid) ∨
      (i = c.pool.length ∧ s.sid = c.shared.chans.length ∧
        s.sid < c'.shared.chans.length) := by
  cases hm with
  | spawned ev t c w hs =>
    rcases getElem?_snoc_cases h with hold | ⟨rfl, rfl⟩
    · exact Or.inl ⟨s, pc, hold, rfl⟩
    · cases hs
      exact Or.inr ⟨rfl, rfl, by simp⟩
  | wrote ev c w hs => exact Or.inl ⟨s, pc, h, rfl⟩
  | stepped j e t t' c w ht hs =>
    left
    rcases getElem?_set_cases h with ⟨rfl, rfl⟩ | ⟨_, hold⟩
    · cases hs with
      | socket s₀ _ pc₀ _ _ _ hstep => exact ⟨s₀, pc₀, ht, hstep.sid.symm⟩
    · exact ⟨s, pc, hold, rfl⟩

theorem SidsOk.step [UuidText U] {C : Crates} {c c' : RelayConfig U} {m : Move (RelayMove U)}
    (h : SidsOk c) (hm : Moved C c m c') : SidsOk c' := by
  constructor
  · intro i s pc hi
    rcases hm.socket_cases hi with ⟨s₀, pc₀, h₀, hsid⟩ | ⟨_, _, hlt⟩
    · rw [← hsid]
      exact hm.later.lt (h.lt i s₀ pc₀ h₀)
    · exact hlt
  · intro i j s s' pc pc' hi hj hsid
    rcases hm.socket_cases hi with ⟨s₀, pc₀, hi₀, hs₀⟩ | ⟨hi', hnew, _⟩
    · rcases hm.socket_cases hj with ⟨s₁, pc₁, hj₁, hs₁⟩ | ⟨_, hnew, _⟩
      · exact h.inj i j s₀ s₁ pc₀ pc₁ hi₀ hj₁ (by rw [hs₀, hs₁, hsid])
      · have hlt := h.lt i s₀ pc₀ hi₀
        omega
    · rcases hm.socket_cases hj with ⟨s₁, pc₁, hj₁, hs₁⟩ | ⟨hj', _, _⟩
      · have hlt := h.lt j s₁ pc₁ hj₁
        omega
      · rw [hi', hj']

end AxenoRelay
