/-
  The rate of sends to one destination.

  `Sends` is a history of `allow_dest_send` calls, from any number of sockets, with
  whatever else happens to the state between them, as long as the destination's entry
  stays. The entry is a `RateWindow`, and a call for another destination does not touch it
  (`Sends.served`). So the limit holds in every interval, a refusal means a full window,
  and only the destination's own calls count (`send_rate_exact`).
-/
import AxenoRelay.Lib.RateWindow
import AxenoRelay.State.Basic

namespace AxenoRelay

open RateWindow AppState

theorem allowDestSend_eq (now : Nat) (toId : RecipientId) (st : AppState) :
    st.allowDestSend now toId =
      ((allow rateWindowMs maxSendsPerDestPerWindow now (st.sendRate.get toId)).1,
        { st with
          sendRate := st.sendRate.insert toId
            (allow rateWindowMs maxSendsPerDestPerWindow now (st.sendRate.get toId)).2 }) := by
  unfold allowDestSend allow
  dsimp only
  split_ifs <;> rfl

/-- One call of `allow_dest_send`. -/
structure Send where
  now : Nat
  toId : RecipientId
  allowed : Bool

/-- The calls `h`, newest first, were made between `st₀` and `st`, in the order of the
    clock. The rest of the state may change, and every entry but that of `m`. -/
inductive Sends (m : RecipientId) (st₀ : AppState) : List Send → AppState → Prop
  | start : Sends m st₀ [] st₀
  | send {h : List Send} {st : AppState} {now : Nat} (r : Sends m st₀ h st)
      (hnow : ∀ c ∈ h, c.now ≤ now) (toId : RecipientId) :
      Sends m st₀ (⟨now, toId, (st.allowDestSend now toId).1⟩ :: h)
        (st.allowDestSend now toId).2
  | other {h : List Send} {st st' : AppState} (r : Sends m st₀ h st)
      (hsame : st'.sendRate.get m = st.sendRate.get m) : Sends m st₀ h st'

/-- The calls for `m`. -/
def callsTo (m : RecipientId) (h : List Send) : Calls :=
  (h.filter fun c => decide (c.toId = m)).map fun c => (c.now, c.allowed)

theorem callsTo_cons_self (m : RecipientId) (now : Nat) (ok : Bool) (h : List Send) :
    callsTo m (⟨now, m, ok⟩ :: h) = (now, ok) :: callsTo m h := by
  simp [callsTo]

theorem callsTo_cons_ne {m toId : RecipientId} (hne : toId ≠ m) (now : Nat) (ok : Bool)
    (h : List Send) : callsTo m (⟨now, toId, ok⟩ :: h) = callsTo m h := by
  simp [callsTo, hne]

theorem callsTo_le {m : RecipientId} {h : List Send} {now : Nat} (hnow : ∀ c ∈ h, c.now ≤ now) :
    ∀ c ∈ callsTo m h, c.1 ≤ now := by
  intro c hc
  obtain ⟨s, hs, rfl⟩ := List.mem_map.mp hc
  exact hnow s (List.mem_filter.mp hs).1

section

variable {m : RecipientId} {st₀ st : AppState} {h : List Send}

/-- The entry of `m` is the window of the calls for `m`. -/
theorem Sends.served (h0 : st₀.sendRate.get m = none) (r : Sends m st₀ h st) :
    Served rateWindowMs maxSendsPerDestPerWindow (callsTo m h) (st.sendRate.get m) := by
  induction r with
  | start => exact h0 ▸ .start
  | @send h st now r hnow toId ih =>
    rw [allowDestSend_eq]
    by_cases hm : toId = m
    · subst hm
      rw [callsTo_cons_self, OrdMap.get_insert, if_pos rfl]
      exact .call ih (callsTo_le hnow)
    · rw [callsTo_cons_ne hm, OrdMap.get_insert, if_neg (Ne.symm hm)]
      exact ih
  | other r hsame ih => exact hsame ▸ ih

/-- **The limit of a destination is sound and exact.** -/
theorem send_rate_exact (h0 : st₀.sendRate.get m = none) (r : Sends m st₀ h st) :
    (∀ a, passed (within rateWindowMs a) (callsTo m h) ≤ 2 * maxSendsPerDestPerWindow) ∧
      (∀ t, (∀ c ∈ h, c.now ≤ t) → (st.allowDestSend t m).1 = false →
        ∃ start, st.sendRate.get m = some (start, maxSendsPerDestPerWindow) ∧
          t - rateWindowMs ≤ start ∧ start ≤ t ∧
          passed (fun s => decide (start ≤ s) && decide (s ≤ t)) (callsTo m h) =
            maxSendsPerDestPerWindow) ∧
      ∀ st₀' h' st', st₀'.sendRate.get m = none → Sends m st₀' h' st' →
        (callsTo m h').map Prod.fst = (callsTo m h).map Prod.fst →
        ∀ t, (st'.allowDestSend t m).1 = (st.allowDestSend t m).1 := by
  have hM : 0 < maxSendsPerDestPerWindow := by decide
  have hs := r.served h0
  refine ⟨hs.passed_le hM, fun t hnow href => ?_, fun st₀' h' st' h0' r' ht t => ?_⟩
  · rw [allowDestSend_eq] at href
    obtain ⟨start, he, hle, hend, hcount⟩ := hs.refused hM (callsTo_le hnow) href
    exact ⟨start, he, Nat.sub_le_iff_le_add.mpr hend, hle, hcount⟩
  · rw [allowDestSend_eq, allowDestSend_eq, hs.entry_eq (r'.served h0') ht]

end

/-- The first send to a destination, after one to another. -/
theorem send_rate_sample :
    ∃ h st, Sends sampleRid sampleState h st ∧
      passed (within rateWindowMs 0) (callsTo sampleRid h) = 1 ∧
      ∀ a, passed (within rateWindowMs a) (callsTo sampleRid h) ≤ 240 := by
  have r₁ := @Sends.send sampleRid sampleState _ _ 5 .start (by decide) "mbx_b"
  have r₂ := @Sends.send _ _ _ _ 9 r₁ (by decide) sampleRid
  refine ⟨_, _, r₂, by decide, (send_rate_exact (by decide) r₂).1⟩

end AxenoRelay
