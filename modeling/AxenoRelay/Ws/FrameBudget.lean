/-
  The frame budget of a socket.

  `countFrame` counts every text of a socket in its window, refused ones too, and the first
  window begins with the connection. Cut off at the limit the counter is a `RateWindow`
  whose first call is the connection (`counted_eq`). So on a clock that does not go back the
  texts that get past the counter are at most twice the limit in any interval of the length
  of a window, and one that does not has a full window before it.
-/
import AxenoRelay.Lib.RateWindow
import AxenoRelay.Ws.Conversation
import AxenoRelay.Ws.Invites

namespace AxenoRelay

open Interleave RateWindow

/-! ## The counter -/

/-- Does the next text get past the counter? -/
def Socket.inBudget (now : Nat) (s : Socket) : Bool :=
  decide ((SocketPc.countFrame now s).frameCount ≤ maxFramesPerWindow)

/-- The window of a socket, its count cut off at the limit. -/
def Socket.window (s : Socket) : Nat × Nat := (s.windowStartMs, min s.frameCount maxFramesPerWindow)

theorem Socket.allow_window (now : Nat) (s : Socket) :
    allow rateWindowMs maxFramesPerWindow now (some s.window) =
      (s.inBudget now, (SocketPc.countFrame now s).window) := by
  unfold allow Socket.inBudget Socket.window SocketPc.countFrame
  dsimp only [Option.getD_some]
  by_cases hout : rateWindowMs < now - s.windowStartMs
  · rw [if_pos hout, if_pos hout]
    rfl
  · rw [if_neg hout, if_neg hout]
    by_cases hfull : maxFramesPerWindow ≤ s.frameCount
    · have hmin : maxFramesPerWindow ≤ min s.frameCount maxFramesPerWindow := by omega
      rw [if_pos hmin, decide_eq_false (by omega)]
      refine Prod.ext rfl (Prod.ext rfl ?_)
      show min s.frameCount maxFramesPerWindow = min (s.frameCount + 1) maxFramesPerWindow
      omega
    · have hmin : ¬ maxFramesPerWindow ≤ min s.frameCount maxFramesPerWindow := by omega
      rw [if_neg hmin, decide_eq_true (by omega)]
      refine Prod.ext rfl (Prod.ext rfl ?_)
      show min s.frameCount maxFramesPerWindow + 1 = min (s.frameCount + 1) maxFramesPerWindow
      omega

/-! ## The texts of a socket -/

section

variable {U : Type}

/-- The texts of the socket at place `i`, newest first: when, and did they get past the counter? -/
def frameCalls (i : Nat) : RelayPast U → Calls
  | [] => []
  | (c, .act j (.run e)) :: h =>
    if j = i then
      match c.pool[i]? with
      | some (.socket s .ready) =>
        match e.incoming with
        | .text _ _ => (e.store.now, s.inBudget e.store.now) :: frameCalls i h
        | _ => frameCalls i h
      | _ => frameCalls i h
    else frameCalls i h
  | _ :: h => frameCalls i h

variable {c : RelayConfig U} {h : RelayPast U} {i j : Nat} {e : RelayEvent U}

theorem frameCalls_other (hij : j ≠ i) :
    frameCalls i ((c, .act j (.run e)) :: h) = frameCalls i h := by
  rw [frameCalls, if_neg hij]

theorem frameCalls_text {s : Socket} {n : Nat} {parsed : Except String (ClientFrame U)}
    (ht : c.pool[i]? = some (.socket s .ready)) (hin : e.incoming = .text n parsed) :
    frameCalls i ((c, .act i (.run e)) :: h) =
      (e.store.now, s.inBudget e.store.now) :: frameCalls i h := by
  rw [frameCalls, if_pos rfl, ht]
  dsimp only
  rw [hin]

/-- A step that takes no text. -/
theorem frameCalls_quiet {t : RelayTask U} (ht : c.pool[i]? = some t)
    (hno : ∀ s n parsed, t = .socket s .ready → e.incoming ≠ .text n parsed) :
    frameCalls i ((c, .act i (.run e)) :: h) = frameCalls i h := by
  rw [frameCalls, if_pos rfl, ht]
  split
  · rename_i s heq
    split
    · rename_i n parsed hin
      exact absurd hin (hno s n parsed (Option.some.inj heq))
    · rfl
  · rfl

end

/-! ## One step -/

section

variable {U : Type} [UuidText U] [DecidableEq U] {C : Crates} {e : RelayEvent U}

/-- The window of a socket changes when it takes a text. -/
theorem SocketPc.step_window {s s' : Socket} {pc pc' : SocketPc U} {w w' : Relay U}
    (hs : SocketPc.step C e s w pc = some (s', pc', w')) (hpc : pc.isReady = false) :
    s'.window = s.window := by
  have hmap : ∀ {α : Type} {o : Option α} {f : α → SocketPc U × Relay U},
      o.map (fun r => (s, f r)) = some (s', pc', w') → s'.window = s.window := by
    intro α o f h
    obtain ⟨r, _, heq⟩ := Option.map_eq_some_iff.mp h
    rw [← (Prod.mk.inj heq).1]
  cases pc with
  | ready => cases hpc
  | closed => cases hs
  | helloPush rest d v =>
    cases rest with
    | nil =>
      cases hs
      rfl
    | cons env rest => exact hmap hs
  | helloSynced d v =>
    simp only [step] at hs
    split_ifs at hs
    · exact hmap hs
    · cases hs
      rfl
  | sendRate r m ty ct =>
    simp only [step] at hs
    split at hs
    all_goals
      cases hs
      rfl
  | sendLive r m ty ct =>
    simp only [step] at hs
    split_ifs at hs
    split at hs
    · cases hs
      rfl
    · split at hs
      all_goals
        cases hs
        rfl
  | sendCheck r env live =>
    simp only [step] at hs
    split_ifs at hs
    all_goals
      cases hs
      rfl
  | prune p f =>
    cases p with
    | done =>
      cases hs
      rfl
    | _ =>
      simp only [step] at hs
      exact hmap hs
  | uploadLook r id ct x =>
    simp only [step] at hs
    split at hs
    all_goals
      cases hs
      rfl
  | fetchBundle r id =>
    simp only [step] at hs
    split at hs
    all_goals
      cases hs
      rfl
  | file t r id i =>
    cases t with
    | done res =>
      cases hs
      rfl
    | _ =>
      simp only [step] at hs
      split_ifs at hs
      · cases hs
        rfl
      · exact hmap hs
  | closeLook =>
    simp only [step] at hs
    split at hs
    all_goals
      cases hs
      rfl
  | sendQueue | ackQueue | retirePurge => exact hmap hs
  | _ =>
    cases hs
    rfl

end

/-! ## Runs -/

section

variable {U : Type} {C : Crates} {h : RelayPast U} {c c' : RelayConfig U}
  {mv : Move (RelayMove U)}

/-- The texts of every socket, after its connection, are the calls of its window. -/
structure Budgeted (h : RelayPast U) (c : RelayConfig U) : Prop where
  fresh : ∀ i, c.pool.length ≤ i → frameCalls i h = []
  past : ∀ i, ∀ x ∈ frameCalls i h, x.1 ≤ lastClock h
  socket : ∀ (i : Nat) (s : Socket) (pc : SocketPc U), c.pool[i]? = some (.socket s pc) →
    ∃ t₀, t₀ ≤ lastClock h ∧ Tracks rateWindowMs maxFramesPerWindow
      (frameCalls i h ++ [(t₀, false)]) s.window.1 s.window.2

theorem budgeted_start (st : AppState) : Budgeted [] (started st : RelayConfig U) := by
  refine ⟨fun i _ => rfl, fun i x hx => absurd hx List.not_mem_nil, fun i s pc h => ?_⟩
  cases List.mem_singleton.mp (List.mem_of_getElem? h)

theorem passed_opened (p : Nat → Bool) (calls : Calls) (t : Nat) :
    passed p (calls ++ [(t, false)]) = passed p calls := by
  simp [passed]

variable [UuidText U] [DecidableEq U]

theorem Budgeted.step (hb : Budgeted h c) (hclock : ClockOk h mv)
    (hn : (relayMachine C).next mv c = some c') : Budgeted ((c, mv) :: h) c' := by
  have hle := lastClock_le (c := c) hclock
  have hm := moved_of_next hn
  cases hm with
  | spawned ev t c w hs =>
    refine ⟨fun i hi => hb.fresh i ?_, fun i x hx => (hb.past i x hx).trans hle,
      fun i s pc hi => ?_⟩
    · rw [List.length_append] at hi
      omega
    · rcases getElem?_snoc_cases hi with hold | ⟨rfl, rfl⟩
      · obtain ⟨t₀, ht₀, htr⟩ := hb.socket i s pc hold
        exact ⟨t₀, ht₀.trans hle, htr⟩
      · -- the window begins with the connection
        have hnow : ∃ now, s.window = (now, 0) ∧ now = lastClock ((c, .spawn ev) :: h) := by
          obtain ⟨t', w', hsp, heq⟩ := next_spawn hn
          obtain ⟨_, hpool⟩ := Config.mk.inj heq
          obtain rfl := List.singleton_inj.mp (List.append_cancel_left hpool)
          cases ev with
          | connect now =>
            simp only [relayMachine] at hsp
            split_ifs at hsp
            cases hsp
            exact ⟨now, rfl, rfl⟩
          | gc => cases hsp
          | sweepQueues => cases hsp
          | sweepFiles => cases hsp
          | _ => cases hsp
        obtain ⟨now, hwin, hlast⟩ := hnow
        refine ⟨now, hlast.le, ?_⟩
        change Tracks _ _ (frameCalls c.pool.length h ++ [(now, false)]) _ _
        rw [hb.fresh _ (Nat.le_refl _), hwin]
        exact tracks_opened now
  | wrote ev c w hs =>
    refine ⟨hb.fresh, fun i x hx => (hb.past i x hx).trans hle, fun i s pc hi => ?_⟩
    obtain ⟨t₀, ht₀, htr⟩ := hb.socket i s pc hi
    exact ⟨t₀, ht₀.trans hle, htr⟩
  | stepped j e t t' c w ht hs =>
    have hlt : j < c.pool.length := (List.getElem?_eq_some_iff.mp ht).1
    have hnow : lastClock h ≤ e.store.now := hclock _ rfl
    refine ⟨fun i hi => ?_, fun i x hx => ?_, fun i s pc hi => ?_⟩
    · rw [List.length_set] at hi
      rw [frameCalls_other (by omega)]
      exact hb.fresh i hi
    · by_cases hij : j = i
      · subst hij
        by_cases htext : ∃ s n parsed, t = .socket s .ready ∧ e.incoming = .text n parsed
        · obtain ⟨s, n, parsed, rfl, hin⟩ := htext
          rw [frameCalls_text ht hin] at hx
          rcases List.mem_cons.mp hx with rfl | hx
          · exact Nat.le_refl _
          · exact (hb.past j x hx).trans hle
        · rw [frameCalls_quiet ht fun s n parsed hts hin => htext ⟨s, n, parsed, hts, hin⟩] at hx
          exact (hb.past j x hx).trans hle
      · rw [frameCalls_other hij] at hx
        exact (hb.past i x hx).trans hle
    · by_cases hij : j = i
      · subst hij
        rw [List.getElem?_set_self hlt] at hi
        obtain rfl := Option.some.inj hi
        obtain ⟨s₀, pc₀, rfl, hstep⟩ : ∃ s₀ pc₀, t = .socket s₀ pc₀ ∧
            SocketPc.step C e s₀ c.shared pc₀ = some (s, pc, w) := by
          cases hs with
          | socket s₀ _ pc₀ _ _ _ hs =>
            obtain ⟨r, hr, heq⟩ := Option.map_eq_some_iff.mp (step_of_next ht hn)
            cases heq
            exact ⟨s₀, pc₀, rfl, hr⟩
        obtain ⟨t₀, ht₀, htr⟩ := hb.socket j s₀ pc₀ ht
        refine ⟨t₀, ht₀.trans hle, ?_⟩
        by_cases htext : pc₀ = .ready ∧ ∃ n parsed, e.incoming = .text n parsed
        · obtain ⟨rfl, n, parsed, hin⟩ := htext
          have hwin : s.window = (SocketPc.countFrame e.store.now s₀).window := by
            have hrecv : SocketPc.receive C e s₀ c.shared = (s, pc, w) := Option.some.inj hstep
            unfold SocketPc.receive at hrecv
            rw [hin] at hrecv
            dsimp only at hrecv
            split_ifs at hrecv
            · rw [← (Prod.mk.inj hrecv).1]
            · rw [← (Prod.mk.inj hrecv).1]
            · split at hrecv <;> rw [← (Prod.mk.inj hrecv).1]
          have hpast : ∀ x ∈ frameCalls j h ++ [(t₀, false)], x.1 ≤ e.store.now := by
            intro x hx
            rcases List.mem_append.mp hx with hx | hx
            · exact (hb.past j x hx).trans hnow
            · rw [List.mem_singleton.mp hx]
              exact ht₀.trans hnow
          have hcalled := htr.called (by decide) hpast
          rw [Socket.allow_window] at hcalled
          rw [frameCalls_text ht hin, hwin]
          exact hcalled
        · have hquiet : s.window = s₀.window := by
            by_cases hready : pc₀ = .ready
            · subst hready
              have hrecv : SocketPc.receive C e s₀ c.shared = (s, pc, w) := Option.some.inj hstep
              unfold SocketPc.receive at hrecv
              cases hin : e.incoming with
              | text n parsed => exact absurd ⟨rfl, n, parsed, hin⟩ htext
              | other =>
                rw [hin] at hrecv
                rw [← (Prod.mk.inj hrecv).1]
              | closed =>
                rw [hin] at hrecv
                rw [← (Prod.mk.inj hrecv).1]
            · refine SocketPc.step_window hstep ?_
              cases pc₀ <;> first | rfl | exact absurd rfl hready
          rw [frameCalls_quiet ht, hquiet]
          · exact htr
          · intro s' n parsed hts hin
            cases hts
            exact htext ⟨rfl, n, parsed, hin⟩
      · rw [List.getElem?_set_ne hij] at hi
        rw [frameCalls_other hij]
        obtain ⟨t₀, ht₀, htr⟩ := hb.socket i s pc hi
        exact ⟨t₀, ht₀.trans hle, htr⟩

/-- On a clock that does not go back, the texts of a socket that get past the counter are at most
    twice the limit in any interval of the length of a window, and a text that does not get past
    it comes after a full window, counted from a start at most that long ago. -/
theorem frame_budget_exact {st : AppState} (r : Trace (relayMachine C) ClockRuns (started st) h c)
    {i : Nat} {s : Socket} {pc : SocketPc U} (hpc : c.pool[i]? = some (.socket s pc)) :
    (∀ a, passed (within rateWindowMs a) (frameCalls i h) ≤ 2 * maxFramesPerWindow) ∧
      ∀ now, lastClock h ≤ now → s.inBudget now = false →
        ∃ start, start ≤ now ∧ now ≤ start + rateWindowMs ∧
          passed (fun t => decide (start ≤ t) && decide (t ≤ now)) (frameCalls i h) =
            maxFramesPerWindow := by
  have hb : Budgeted h c :=
    r.invariant (budgeted_start st) fun _ _ _ _ hb hg hn => hb.step hg hn
  obtain ⟨t₀, ht₀, htr⟩ := hb.socket i s pc hpc
  refine ⟨fun a => ?_, fun now hnow hover => ?_⟩
  · rw [← passed_opened _ _ t₀]
    exact htr.any a
  · have hallow := Socket.allow_window now s
    rw [hover] at hallow
    unfold allow at hallow
    dsimp only [Option.getD_some] at hallow
    split_ifs at hallow with hout hfull
    · cases (Prod.mk.inj hallow).1
    · have hcount : s.window.2 = maxFramesPerWindow := le_antisymm htr.full hfull
      have hle : ∀ x ∈ frameCalls i h ++ [(t₀, false)], x.1 ≤ now := by
        intro x hx
        rcases List.mem_append.mp hx with hx | hx
        · exact (hb.past i x hx).trans hnow
        · rw [List.mem_singleton.mp hx]
          exact ht₀.trans hnow
      refine ⟨s.window.1, htr.start_le hle, by omega, ?_⟩
      rw [← passed_opened _ _ t₀, ← hcount, ← htr.current]
      exact List.countP_congr fun x hx => by simp [hle x hx]
    · cases (Prod.mk.inj hallow).1

end

/-! ## A run -/

/-- A socket sends two texts and has the reply to the first. -/
theorem frame_budget_exact_sample : ∃ (h : RelayPast Nat) (c : RelayConfig Nat),
    Trace (relayMachine sampleCrates) ClockRuns (started AppState.sampleState) h c ∧
      passed (within rateWindowMs sampleTime) (frameCalls 1 h) = 2 ∧
      ∀ a, passed (within rateWindowMs a) (frameCalls 1 h) ≤ 1200 := by
  obtain ⟨h, c, r, hend⟩ := exists_trace (M := relayMachine sampleCrates) (G := ClockRuns)
    (c := started (U := Nat) AppState.sampleState)
    [.spawn (.connect sampleTime), garbled 1, garbled 1, garbled 1]
    (p := fun r => (socketAt 1 r.2).isSome &&
      decide (passed (within rateWindowMs sampleTime) (frameCalls 1 r.1) = 2)) (by decide +kernel)
  obtain ⟨hat, hpassed⟩ := Bool.and_eq_true_iff.mp hend
  obtain ⟨⟨s, pc⟩, hat⟩ := Option.isSome_iff_exists.mp hat
  exact ⟨h, c, r, of_decide_eq_true hpassed, (frame_budget_exact r (pool_of_socketAt hat)).1⟩

end AxenoRelay
