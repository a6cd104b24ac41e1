/-
  The lease of a mailbox, and what garbage collection may take.

  An accepted Hello and an accepted send stamp the lease with the clock rounded down to
  the day, and later steps cover what it stamped (`Covers.step`). So a stamp keeps its mailbox from
  being collected for the idle time less a day (`collected_late`), and that rounding is
  why a mailbox can go up to a day early (`collected_early`).
-/
import AxenoRelay.Ws.Authority

namespace AxenoRelay

open Interleave

/-! ## Rounding -/

theorem nowActivityMs_le (now : Nat) : nowActivityMs now ≤ now := Nat.sub_le _ _

theorem nowActivityMs_lt (now : Nat) :
    now < nowActivityMs now + mailboxActivityGranularityMs := by
  have hmod : now % mailboxActivityGranularityMs < mailboxActivityGranularityMs :=
    Nat.mod_lt _ (by decide)
  unfold nowActivityMs
  omega

theorem nowActivityMs_mono {s now : Nat} (h : s ≤ now) : nowActivityMs s ≤ nowActivityMs now := by
  have hfloor : ∀ n, nowActivityMs n =
      mailboxActivityGranularityMs * (n / mailboxActivityGranularityMs) := by
    intro n
    have hdiv := Nat.div_add_mod n mailboxActivityGranularityMs
    unfold nowActivityMs
    omega
  rw [hfloor, hfloor]
  exact Nat.mul_le_mul_left _ (Nat.div_le_div_right h)

/-! ## Leases -/

/-- If `m` is registered, its lease covers a stamp at clock `s`. -/
def Covers (s : Nat) (m : RecipientId) (auth : OrdMap RecipientId MailboxAuth) : Prop :=
  ∀ a, auth.get m = some a → nowActivityMs s ≤ a.lastActiveMs

/-- If `m` is registered, it is not idle at clock `t`. -/
def Fresh (t : Nat) (m : RecipientId) (auth : OrdMap RecipientId MailboxAuth) : Prop :=
  ∀ a, auth.get m = some a → AppState.idle t a = false

theorem idle_eq_false_iff {t : Nat} {a : MailboxAuth} :
    AppState.idle t a = false ↔ t ≤ a.lastActiveMs + mailboxIdleTtlMs := by
  unfold AppState.idle
  rw [decide_eq_false_iff_not]
  omega

theorem Covers.fresh {s t : Nat} {m : RecipientId} {auth : OrdMap RecipientId MailboxAuth}
    (h : Covers s m auth) (ht : t + mailboxActivityGranularityMs ≤ s + mailboxIdleTtlMs) :
    Fresh t m auth := by
  intro a ha
  have hle := h a ha
  have hround := nowActivityMs_lt s
  rw [idle_eq_false_iff]
  omega

section

variable {U : Type} [UuidText U] {C : Crates} {e : RelayEvent U} {t t' : RelayTask U}
  {w w' : Relay U}

/-- A lease after a step is the one before, or was stamped by the step. -/
theorem lease_after (hs : t.Stepped C e w t' w') {m : RecipientId} {a' : MailboxAuth}
    (ha' : w'.app.mailboxAuth.get m = some a') :
    (∃ a, w.app.mailboxAuth.get m = some a ∧ a'.lastActiveMs = a.lastActiveMs) ∨
      a'.lastActiveMs = nowActivityMs e.store.now := by
  have hins : ∀ {rid : RecipientId} {b : MailboxAuth},
      (w.app.mailboxAuth.insert rid b).get m = some a' →
      (∃ a, w.app.mailboxAuth.get m = some a ∧ a'.lastActiveMs = a.lastActiveMs) ∨
        rid = m ∧ a' = b := by
    intro rid b h
    rw [OrdMap.get_insert] at h
    split_ifs at h with hm
    · exact Or.inr ⟨hm.symm, (Option.some.inj h).symm⟩
    · exact Or.inl ⟨a', h, rfl⟩
  have herase : ∀ {rid : RecipientId}, (w.app.mailboxAuth.erase rid).get m = some a' →
      ∃ a, w.app.mailboxAuth.get m = some a ∧ a'.lastActiveMs = a.lastActiveMs := by
    intro rid h
    rw [OrdMap.get_erase] at h
    split_ifs at h
    exact ⟨a', h, rfl⟩
  cases hs with
  | socket s s' pc pc' _ _ h =>
    cases h
    case said =>
      rw [Relay.say_app] at ha'
      exact Or.inl ⟨a', ha', rfl⟩
    case helloOk =>
      rw [Relay.say_app] at ha'
      exact Or.inl ⟨a', ha', rfl⟩
    case pruned hp =>
      cases PruneTask.stepped_of_step hp <;> exact Or.inl ⟨a', ha', rfl⟩
    case hello hentry _ =>
      rcases SocketPc.helloEntry_cases hentry with ⟨_, b, _, hb, rfl⟩ | ⟨_, b, hb, rfl⟩
      all_goals
        rcases hins ha' with h | ⟨-, rfl⟩
        · exact Or.inl h
        · exact Or.inr hb
    case tokens auth _ _ _ _ _ _ hget _ =>
      rcases hins ha' with h | ⟨rfl, rfl⟩
      · exact Or.inl h
      · exact Or.inl ⟨auth, hget, rfl⟩
    case sendAuth =>
      rcases hins ha' with h | ⟨-, rfl⟩
      · exact Or.inl h
      · exact Or.inr rfl
    case retire => exact Or.inl (herase ha')
    all_goals exact Or.inl ⟨a', ha', rfl⟩
  | flush f f' st _ h => cases h <;> exact Or.inl ⟨a', ha', rfl⟩
  | gc g g' st _ h =>
    cases h
    case collected => exact Or.inl (herase ha')
    all_goals exact Or.inl ⟨a', ha', rfl⟩
  | sweepQueues | sweepFiles => exact Or.inl ⟨a', ha', rfl⟩

/-- A stamp stays covered while the clock does not go back. -/
theorem Covers.step (hs : t.Stepped C e w t' w') {s : Nat} {m : RecipientId}
    (h : Covers s m w.app.mailboxAuth) (hclock : s ≤ e.store.now) :
    Covers s m w'.app.mailboxAuth := by
  intro a' ha'
  rcases lease_after hs ha' with ⟨a, ha, hsame⟩ | hstamp
  · rw [hsame]
    exact h a ha
  · rw [hstamp]
    exact nowActivityMs_mono hclock

/-- A mailbox that is not idle at an earlier clock is not idle at it later. -/
theorem Fresh.step (hs : t.Stepped C e w t' w') {r : Nat} {m : RecipientId}
    (h : Fresh r m w.app.mailboxAuth) (hclock : r ≤ e.store.now) :
    Fresh r m w'.app.mailboxAuth := by
  intro a' ha'
  rcases lease_after hs ha' with ⟨a, ha, hsame⟩ | hstamp
  · have hidle := h a ha
    rw [idle_eq_false_iff] at hidle ⊢
    rw [hsame]
    exact hidle
  · have hround := nowActivityMs_lt e.store.now
    have hday : mailboxActivityGranularityMs ≤ mailboxIdleTtlMs := by decide
    rw [idle_eq_false_iff, hstamp]
    omega

end

/-- A mailbox that `remove_if` takes is idle and offline. -/
theorem idle_of_removed {U : Type} [UuidText U] {e : StoreEvent} {r t : Nat} {m : RecipientId}
    {l stale : List RecipientId} {st st' : AppState}
    (h : GcTask.step (U := U) e (.collect r l) st = some (.count t m stale, st')) :
    (∃ a, st.mailboxAuth.get m = some a ∧ AppState.idle t a = true) ∧ st.online.get m = none := by
  cases l with
  | nil => cases h
  | cons rid l =>
    simp only [GcTask.step, AppState.collectIdle] at h
    cases hauth : st.mailboxAuth.get rid with
    | none =>
      rw [hauth] at h
      cases h
    | some a =>
      rw [hauth] at h
      dsimp only at h
      by_cases hidle : (AppState.idle r a && !st.online.contains rid) = true
      · rw [if_pos hidle] at h
        cases h
        obtain ⟨h1, h2⟩ := Bool.and_eq_true_iff.mp hidle
        refine ⟨⟨a, hauth, h1⟩, ?_⟩
        rw [Bool.not_eq_true', OrdMap.contains, Option.isSome_eq_false_iff] at h2
        exact Option.isNone_iff_eq_none.mp h2
      · rw [if_neg hidle] at h
        cases h

/-! ## Stamps in the past -/

section

variable {U : Type} [UuidText U] [DecidableEq U]

/-- The task at place `i` after the move. -/
def taskAfter (C : Crates) (c : RelayConfig U) (mv : Move (RelayMove U)) (i : Nat) :
    Option (RelayTask U) :=
  ((relayMachine C).next mv c).bind fun c' => c'.pool[i]?

/-- The mailbox whose Hello, or a send to which, a handler accepts at this move, and the
    clock of the move. -/
def acceptedAt (C : Crates) (c : RelayConfig U) : Move (RelayMove U) → Option (RecipientId × Nat)
  | .act i (.run e) =>
    match c.pool[i]?, taskAfter C c (.act i (.run e)) i with
    | some (.socket _ .ready), some (.socket _ (.helloMark m _ _))
    | some (.socket _ .ready), some (.socket _ (.sendRate _ m _ _)) => some (m, e.store.now)
    | _, _ => none
  | _ => none

/-- The mailbox that a collection removes at this move, and the clock it had read. -/
def collectedAt (C : Crates) (c : RelayConfig U) : Move (RelayMove U) → Option (RecipientId × Nat)
  | .act i (.run e) =>
    match c.pool[i]?, taskAfter C c (.act i (.run e)) i with
    | some (.gc (.collect _ _)), some (.gc (.count t m _)) => some (m, t)
    | _, _ => none
  | _ => none

variable {C : Crates} {h : RelayPast U} {c₀ c c' : RelayConfig U} {mv : Move (RelayMove U)}
  {m : RecipientId} {t now : Nat}

/-- The task at a place and its next step, from what stands there after the move. -/
theorem step_of_taskAfter {i : Nat} {e : RelayEvent U} {u u' : RelayTask U}
    (hu : c.pool[i]? = some u) (hafter : taskAfter C c (.act i (.run e)) i = some u') :
    ∃ w, u.step C e c.shared = some (u', w) := by
  obtain ⟨c', hn, hget⟩ := Option.bind_eq_some_iff.mp hafter
  obtain ⟨v, v', w, hv, hstep, rfl⟩ := next_act hn
  obtain rfl : u = v := Option.some.inj (hu.symm.trans hv)
  dsimp only at hget
  rw [List.getElem?_set_self (List.getElem?_eq_some_iff.mp hu).1] at hget
  obtain rfl := Option.some.inj hget
  exact ⟨w, hstep⟩

/-- The step of the collection that removes a mailbox. -/
theorem step_of_collectedAt (hc : collectedAt C c mv = some (m, t)) :
    ∃ (i : Nat) (e : RelayEvent U) (r : Nat) (l stale : List RecipientId) (st : AppState),
      mv = .act i (.run e) ∧ c.pool[i]? = some (.gc (.collect r l)) ∧
        GcTask.step (U := U) e.store (.collect r l) c.shared.app = some (.count t m stale, st) := by
  unfold collectedAt at hc
  split at hc
  · split at hc
    · cases hc
      obtain ⟨w, hstep⟩ := step_of_taskAfter ‹_› ‹_›
      obtain ⟨⟨g', st⟩, hg, heq⟩ := Option.map_eq_some_iff.mp hstep
      obtain ⟨hg', -⟩ := Prod.mk.inj heq
      obtain rfl := RelayTask.gc.inj hg'
      exact ⟨_, _, _, _, _, st, rfl, ‹_›, hg⟩
    · cases hc
  · cases hc

/-- An accepted Hello or send stamps the lease with the clock of its move. -/
theorem covers_of_acceptedAt (ha : acceptedAt C c mv = some (m, now))
    (hn : (relayMachine C).next mv c = some c') :
    RelayMove.clock mv = some now ∧ Covers now m c'.shared.app.mailboxAuth := by
  have hkey : ∀ {e : RelayEvent U} {s s' : Socket} {pc : SocketPc U} {w : Relay U},
      SocketPc.Stepped C e s .ready c.shared s' pc w →
      (∃ selected certOnly, pc = .helloMark m selected certOnly) ∨
        (∃ r ty ct, pc = .sendRate r m ty ct) → Covers e.store.now m w.app.mailboxAuth := by
    intro e s s' pc w hs hpc a hget
    cases hs
    case inner hin =>
      have hplain := hin.target
      rcases hpc with ⟨_, _, rfl⟩ | ⟨_, _, _, rfl⟩ <;> exact hplain.elim
    case hello hentry _ =>
      rcases hpc with ⟨_, _, heq⟩ | ⟨_, _, _, heq⟩
      · cases heq
        rcases SocketPc.helloEntry_cases hentry with ⟨_, b, _, hb, rfl⟩ | ⟨_, b, hb, rfl⟩
        all_goals
          dsimp only at hget
          rw [OrdMap.get_insert, if_pos rfl] at hget
          rw [← Option.some.inj hget, hb]
      · cases heq
    case sendAuth =>
      rcases hpc with ⟨_, _, heq⟩ | ⟨_, _, _, heq⟩
      · cases heq
      · cases heq
        dsimp only at hget
        rw [OrdMap.get_insert, if_pos rfl] at hget
        rw [← Option.some.inj hget]
        exact Nat.le_refl _
    all_goals rcases hpc with ⟨_, _, heq⟩ | ⟨_, _, _, heq⟩ <;> cases heq
  cases moved_of_next hn with
  | spawned => cases ha
  | wrote => cases ha
  | stepped i e u u' c w hu hs =>
    have hafter : taskAfter C c (.act i (.run e)) i = some u' := by
      rw [taskAfter, hn, Option.bind_some]
      exact List.getElem?_set_self (List.getElem?_eq_some_iff.mp hu).1
    simp only [acceptedAt, hu, hafter] at ha
    split at ha
    · cases ha
      rename_i heq heq'
      cases heq
      cases heq'
      cases hs with
      | socket _ _ _ _ _ _ hs => exact ⟨rfl, hkey hs (Or.inl ⟨_, _, rfl⟩)⟩
    · cases ha
      rename_i heq heq'
      cases heq
      cases heq'
      cases hs with
      | socket _ _ _ _ _ _ hs => exact ⟨rfl, hkey hs (Or.inr ⟨_, _, _, rfl⟩)⟩
    · cases ha

/-- The clock does not go back, and nothing else is asked. -/
def Timed (h : RelayPast U) (_ : RelayConfig U) (mv : Move (RelayMove U)) : Prop := ClockOk h mv

instance : ∀ (h : RelayPast U) (c : RelayConfig U) (mv : Move (RelayMove U)),
    Decidable (Timed h c mv) := fun h _ mv => inferInstanceAs (Decidable (ClockOk h mv))

/-- What covers a stamp goes on covering it. -/
theorem Covers.move (hn : (relayMachine C).next mv c = some c') (hclock : ClockOk h mv)
    (hle : now ≤ lastClock h) (hc : Covers now m c.shared.app.mailboxAuth) :
    Covers now m c'.shared.app.mailboxAuth := by
  cases moved_of_next hn with
  | spawned ev u c w hs =>
    obtain ⟨n, happ⟩ := hs.app
    dsimp only
    rw [happ]
    exact hc
  | wrote ev c w hs =>
    dsimp only
    rw [hs.app]
    exact hc
  | stepped i e u u' c w hu hs => exact hc.step hs (hle.trans (hclock _ rfl))

/-- Every stamp of the past is covered. -/
theorem covers_past (r : Trace (relayMachine C) Timed c₀ h c) :
    ∀ p ∈ h, ∀ m now, acceptedAt C p.1 p.2 = some (m, now) →
      now ≤ lastClock h ∧ Covers now m c.shared.app.mailboxAuth := by
  refine r.invariant (P := fun h c => ∀ p ∈ h, ∀ m now, acceptedAt C p.1 p.2 = some (m, now) →
      now ≤ lastClock h ∧ Covers now m c.shared.app.mailboxAuth) ?_ ?_
  · intro p hp
    cases hp
  · intro h c mv c' ih hclock hn p hp m now ha
    rcases List.mem_cons.mp hp with rfl | hp
    · obtain ⟨hnow, hcov⟩ := covers_of_acceptedAt ha hn
      refine ⟨?_, hcov⟩
      change now ≤ (RelayMove.clock mv).getD (lastClock h)
      rw [hnow]
      exact Nat.le_refl _
    · obtain ⟨hle, hcov⟩ := ih p hp m now ha
      exact ⟨hle.trans (lastClock_le hclock), hcov.move hn hclock hle⟩

/-- **A mailbox is collected less than a day early**: whatever was accepted for it lies the
    idle time back, less the rounding. -/
theorem collected_late (r : Trace (relayMachine C) Timed c₀ h c)
    (hc : collectedAt C c mv = some (m, t)) {p : RelayConfig U × Move (RelayMove U)} (hp : p ∈ h)
    (ha : acceptedAt C p.1 p.2 = some (m, now)) :
    now + mailboxIdleTtlMs < t + mailboxActivityGranularityMs := by
  obtain ⟨_, _, _, _, _, _, _, _, hstep⟩ := step_of_collectedAt hc
  obtain ⟨a, hget, hidle⟩ := (idle_of_removed hstep).1
  by_contra hge
  have hfresh := (covers_past r p hp m now ha).2.fresh (t := t) (by omega) a hget
  rw [hidle] at hfresh
  cases hfresh

end

/-- The clock of a collection: thirty days, less almost one, after the sample Hello. -/
def sampleGcTime : Nat := nowActivityMs sampleTime + mailboxIdleTtlMs + 1

def sampleGcStep : Move (RelayMove Nat) := sampleStep sampleGcTime 2 .ping 0 []

/-- A Hello a second before midnight, and a collection that has found its mailbox idle. -/
def earlyCollection : List (Move (RelayMove Nat)) :=
  .spawn (.connect sampleTime) :: shortHello 1 ++ .spawn .gc :: List.replicate 4 sampleGcStep

/-- The sample Hello was accepted, and the next step of the collection removes its mailbox. -/
def collectsSample (r : RelayPast Nat × RelayConfig Nat) : Bool :=
  decide (collectedAt sampleCrates r.2 sampleGcStep = some (AppState.sampleRid, sampleGcTime)) &&
    r.1.any fun p => decide (acceptedAt sampleCrates p.1 p.2 = some (AppState.sampleRid, sampleTime))

theorem exists_earlyCollection : ∃ (h : RelayPast Nat) (c : RelayConfig Nat),
    Trace (relayMachine sampleCrates) Timed (started AppState.sampleState) h c ∧
      collectedAt sampleCrates c sampleGcStep = some (AppState.sampleRid, sampleGcTime) ∧
      ∃ p ∈ h, acceptedAt sampleCrates p.1 p.2 = some (AppState.sampleRid, sampleTime) := by
  obtain ⟨h, c, r, hend⟩ := exists_trace (M := relayMachine sampleCrates) (G := Timed)
    (c := started (U := Nat) AppState.sampleState) earlyCollection (p := collectsSample)
    (by decide +kernel)
  obtain ⟨hcoll, hany⟩ := Bool.and_eq_true_iff.mp hend
  obtain ⟨p, hp, hacc⟩ := List.any_eq_true.mp hany
  exact ⟨h, c, r, of_decide_eq_true hcoll, p, hp, of_decide_eq_true hacc⟩

theorem collected_late_sample : ∃ now t : Nat, now = sampleTime ∧ t = sampleGcTime ∧
    now + mailboxIdleTtlMs < t + mailboxActivityGranularityMs := by
  obtain ⟨h, c, r, hcoll, p, hp, hacc⟩ := exists_earlyCollection
  exact ⟨_, _, rfl, rfl, collected_late r hcoll hp hacc⟩

/-- A Hello keeps its mailbox for less than the idle time. -/
theorem collected_early : ¬∀ (C : Crates) (st : AppState) (h : RelayPast Nat)
    (c : RelayConfig Nat) (mv : Move (RelayMove Nat)) (m : RecipientId) (t now : Nat)
    (p : RelayConfig Nat × Move (RelayMove Nat)),
    Trace (relayMachine C) Timed (started st) h c → collectedAt C c mv = some (m, t) →
      p ∈ h → acceptedAt C p.1 p.2 = some (m, now) → now ≤ t - mailboxIdleTtlMs := by
  intro hall
  obtain ⟨h, c, r, hcoll, p, hp, hacc⟩ := exists_earlyCollection
  exact absurd (hall _ _ h c _ _ _ _ p r hcoll hp hacc) (by decide)

end AxenoRelay
