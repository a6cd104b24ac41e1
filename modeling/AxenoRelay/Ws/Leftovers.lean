/-
  What a retired mailbox leaves behind.

  Three things can be left for a mailbox that is not registered: rows of its queue, its
  entry in the rate window, and its route. A retirement or a collection removes them
  after the record, one by one; a task that has still to remove one owes it
  (`RelayTask.owed`). Three steps of the handlers bring one about (`RelayTask.brings`),
  each after its own look at the record, so it can come too late. In a run in which
  none does (`CleansUp`), whatever is left for a mailbox that is not registered is owed
  by some task (`Owing`), and nothing is left once all have finished.
-/
import AxenoRelay.Ws.Authority
import AxenoRelay.Ws.Calls
import AxenoRelay.Ws.Registrations
import AxenoRelay.Ws.Routes

namespace AxenoRelay

open Interleave QueueStore

inductive Leftover where
  | rows
  | rate
  | route
  deriving DecidableEq, Repr

/-- Is something of this kind left for mailbox `m`? -/
def Leftover.Left (m : RecipientId) (st : AppState) : Leftover → Prop
  | rows => ∃ k v, st.queues.envelopes.get k = some v ∧ inMailbox m k = true
  | rate => st.sendRate.get m ≠ none
  | route => st.online.get m ≠ none

namespace RelayTask

variable {U : Type}

/-- Has the task still to remove what is left of this kind for mailbox `m`? -/
def owed (m : RecipientId) : Leftover → RelayTask U → Bool
  | .rows, socket _ (.retireCount r) => decide (r = m)
  | .rows, socket _ (.retirePurge r q) => decide (r = m) && q.starts
  | .rows, gc (.count _ r _) | .rows, gc (.mark _ r _) => decide (r = m)
  | .rows, gc (.purge _ r q _) => decide (r = m) && q.starts
  | .rate, socket _ (.retireCount r) | .rate, socket _ (.retirePurge r _)
  | .rate, socket _ (.retireRate r) => decide (r = m)
  | .rate, gc (.count _ r _) | .rate, gc (.mark _ r _) | .rate, gc (.purge _ r _ _)
  | .rate, gc (.rate _ r _) => decide (r = m)
  | .route, socket _ (.retireCount r) | .route, socket _ (.retirePurge r _)
  | .route, socket _ (.retireRate r) | .route, socket _ (.retireOnline r) => decide (r = m)
  | _, _ => false

/-- What the next step of the task brings about, if anything. -/
def brings : RelayTask U → Option (Leftover × RecipientId)
  | socket _ (.sendRate _ m _ _) => some (.rate, m)
  | socket _ (.sendQueue _ env _ (.enqWrite _ _ _ _ _)) => some (.rows, env.toId)
  | socket _ (.helloOnline m _) => some (.route, m)
  | _ => none

/-- Is the next step of the task a purge that is not run or fails? -/
def purgeFails (e : RelayEvent U) (st : AppState) : RelayTask U → Bool
  | socket _ (.retirePurge _ (.purgeTxn m)) =>
    e.notRun || !((purgeTxn m).commit e.store.faults st.queues.envelopes).1.isOk
  | gc (.purge _ _ (.purgeTxn m) _) =>
    !((purgeTxn m).commit e.store.faults st.queues.envelopes).1.isOk
  | _ => false

end RelayTask

section

variable {U : Type}

/-- What a step brings about is for a registered mailbox, or some task has still to remove
    it; and purges succeed. -/
def CleansUp (c : RelayConfig U) : Move (RelayMove U) → Prop
  | .act i (.run e) => ∀ t, c.pool[i]? = some t →
    (∀ a, t.brings = some a → (c.shared.app.mailboxAuth.get a.2).isSome = true ∨
      ∃ u ∈ c.pool, u.owed a.2 a.1 = true) ∧ t.purgeFails e c.shared.app = false
  | _ => True

instance (c : RelayConfig U) : ∀ m, Decidable (CleansUp c m)
  | .act _ (.run _) => decidableForallSome _ _
  | .act _ (.connect _) | .act _ .gc | .act _ .sweepQueues | .act _ .sweepFiles
  | .act _ (.drain _) | .act _ (.drop _) | .spawn _ | .env _ => isTrue trivial

/-- What is left for a mailbox that is not registered is owed. -/
def Owing (m : RecipientId) (c : RelayConfig U) : Prop :=
  c.shared.app.mailboxAuth.get m = none → ∀ l : Leftover, l.Left m c.shared.app →
    ∃ t ∈ c.pool, t.owed m l = true

/-- What a step of a task does about one kind of leftover. -/
structure LeftoverStep (m : RecipientId) (l : Leftover) (t t' : RelayTask U)
    (st st' : AppState) : Prop where
  added : l.Left m st' → l.Left m st ∨ t.brings = some (l, m)
  kept : t.owed m l = true → t'.owed m l = true ∨ ¬l.Left m st'
  ended : ∀ a, st.mailboxAuth.get m = some a → st'.mailboxAuth.get m = none →
    t'.owed m l = true ∨ ¬l.Left m st'

end

/-! ## One step -/

section

variable {U : Type} [UuidText U] {C : Crates} {e : RelayEvent U} {t t' : RelayTask U}
  {w w' : Relay U} {m : RecipientId}

/-- A purge that does not fail leaves no row of its mailbox. -/
theorem purge_clears {q q' : QueueTask U} {st st' : QueueStore} (hk : KeysOk U st.envelopes)
    (hm : NameOk m) (hq : q.Purges m) (hstart : q.starts = true)
    (hok : ((purgeTxn m).commit e.store.faults st.envelopes).1.isOk = true)
    (h : q.step e.store st = some (q', st')) (k : String) (v : StoredValue)
    (hget : st'.envelopes.get k = some v) : inMailbox m k = false := by
  cases q with
  | purgeTxn r =>
    obtain rfl : r = m := hq
    simp only [QueueTask.step] at h
    rcases purgeTxn_cases hk hm e.store.faults with ⟨err, he⟩ | he
    · rw [he] at hok
      cases hok
    · rw [he] at h
      cases h
      rw [purgeTable, OrdMap.get_filter] at hget
      have hkept := (Option.filter_eq_some_iff.mp hget).2
      simpa using hkept
  | enqSeq | ackTxn => exact hq.elim
  | sweepTxn => exact hq.elim
  | _ => cases hstart

/-- The row of a key after a step was there before, or the step wrote it. -/
theorem RowsStep.added {es : StoreEvent} {tab tab' : Envelopes} (h : RowsStep es t t' tab tab')
    {k : String} {v : StoredValue} (hget : tab'.get k = some v) (hin : inMailbox m k = true) :
    (∃ v, tab.get k = some v) ∨ t.brings = some (.rows, m) := by
  rcases h.get_cases hget with hold | ⟨s, r, env, live, ids, b, rfl, -, hk, hm, -⟩
  · exact Or.inl ⟨v, hold⟩
  · rw [hk, inMailbox_keyFor hm, decide_eq_true_eq] at hin
    right
    rw [RelayTask.brings, hin]

omit [UuidText U] in
/-- A step that ends a registration begins its cleanup. -/
theorem AuthEdit.ended {tab tab' : OrdMap RecipientId MailboxAuth} (h : AuthEdit C e t t' tab tab')
    {a : MailboxAuth} (ha : tab.get m = some a) (hnone : tab'.get m = none) :
    (∃ s s', t = .socket s .ready ∧ t' = .socket s' (.retireCount m)) ∨
      ∃ now stale, t = .gc (.collect now (m :: stale)) ∧ t' = .gc (.count now m stale) := by
  have hins : ∀ (r : RecipientId) (b : MailboxAuth), (tab.insert r b).get m ≠ none := by
    intro r b
    rw [OrdMap.get_insert]
    split_ifs
    · exact Option.some_ne_none _
    · rw [ha]
      exact Option.some_ne_none _
  cases h with
  | same =>
    rw [ha] at hnone
    cases hnone
  | hello => exact absurd hnone (hins _ _)
  | tokens => exact absurd hnone (hins _ _)
  | send => exact absurd hnone (hins _ _)
  | retire s s' _ r =>
    rw [OrdMap.get_erase] at hnone
    split_ifs at hnone with hm
    · subst hm
      exact Or.inl ⟨s, s', rfl, rfl⟩
    · rw [ha] at hnone
      cases hnone
  | collected now r stale =>
    rw [OrdMap.get_erase] at hnone
    split_ifs at hnone with hm
    · subst hm
      exact Or.inr ⟨now, stale, rfl, rfl⟩
    · rw [ha] at hnone
      cases hnone

/-- A queue purge that is owed is still owed after a step, or has left no row. -/
theorem rows_kept (hs : t.Stepped C e w t' w') (hk : KeysOk U w.app.queues.envelopes)
    (hn : t.Named) (hg : t.purgeFails e w.app = false) (ho : t.owed m .rows = true) :
    t'.owed m .rows = true ∨ ¬Leftover.rows.Left m w'.app := by
  have hgone : ∀ {q q' : QueueTask U} {st : QueueStore}, NameOk m → q.Purges m →
      q.starts = true →
      ((purgeTxn m).commit e.store.faults w.app.queues.envelopes).1.isOk = true →
      q.step e.store w.app.queues = some (q', st) →
      ¬Leftover.rows.Left m { w.app with queues := st } := by
    intro q q' st hm hq hstart hok hstep ⟨k, v, hget, hin⟩
    rw [purge_clears hk hm hq hstart hok hstep k v hget] at hin
    cases hin
  cases hs with
  | socket s s' pc pc' _ _ hs =>
    obtain ⟨hsock, hpc⟩ := hn
    cases hs
    case inner hin => cases pc <;> first | cases ho | cases hin
    case retireCount rid =>
      left
      simpa [RelayTask.owed, QueueTask.starts] using ho
    case retirePurge rid q q' st hq =>
      obtain ⟨hm, hstart⟩ := Bool.and_eq_true_iff.mp ho
      rw [decide_eq_true_eq] at hm
      subst hm
      right
      refine hgone (hsock _ hpc.1) hpc.2 hstart ?_ hq
      cases q with
      | purgeTxn r =>
        obtain rfl : r = rid := hpc.2
        simp only [RelayTask.purgeFails, Bool.or_eq_false_iff, Bool.not_eq_false'] at hg
        exact hg.2
      | enqSeq | ackTxn | sweepTxn => exact hpc.2.elim
      | _ => cases hstart
    case retirePurged rid q hq =>
      obtain ⟨_, hstart⟩ := Bool.and_eq_true_iff.mp ho
      rcases hq with hfin | ⟨_, hrun⟩
      · cases q with
        | done r => cases hstart
        | _ => cases hfin
      · cases q with
        | purgeTxn r =>
          simp only [RelayTask.purgeFails, hrun, Bool.true_or] at hg
          cases hg
        | enqSeq | ackTxn | sweepTxn => exact hpc.2.elim
        | _ => cases hstart
    all_goals cases ho
  | gc g g' st _ hs =>
    cases hs
    case count => exact Or.inl ho
    case mark =>
      left
      simpa [RelayTask.owed, QueueTask.starts] using ho
    case purge now rid q q' stale queues hq =>
      obtain ⟨hm, hstart⟩ := Bool.and_eq_true_iff.mp ho
      rw [decide_eq_true_eq] at hm
      subst hm
      right
      refine hgone hn.1 hn.2.1 hstart ?_ hq
      cases q with
      | purgeTxn r =>
        obtain rfl : r = rid := hn.2.1
        simpa [RelayTask.purgeFails] using hg
      | enqSeq | ackTxn | sweepTxn => exact hn.2.1.elim
      | _ => cases hstart
    case purged =>
      simp [RelayTask.owed, QueueTask.starts] at ho
    all_goals cases ho
  | flush | sweepQueues | sweepFiles => cases ho

theorem rows_leftoverStep (hs : t.Stepped C e w t' w') (hk : KeysOk U w.app.queues.envelopes)
    (hn : w.app.mailboxAuth.All fun m _ => NameOk m) (ht : t.Named)
    (hg : t.purgeFails e w.app = false) : LeftoverStep m .rows t t' w.app w'.app where
  added := by
    rintro ⟨k, v, hget, hin⟩
    rcases (hs.namedStep hk hn ht).rows.added hget hin with ⟨v', hv'⟩ | hbrings
    · exact Or.inl ⟨k, v', hv', hin⟩
    · exact Or.inr hbrings
  kept := rows_kept hs hk ht hg
  ended := by
    intro a ha hnone
    left
    rcases hs.authEdit.ended ha hnone with ⟨_, s, _, rfl⟩ | ⟨now, stale, _, rfl⟩ <;>
      exact decide_eq_true rfl

/-! ## The rate window -/

/-- The tasks whose next step touches the rate window. -/
def RelayTask.rates : RelayTask U → Bool
  | socket _ (.sendRate _ _ _ _) | socket _ (.retireRate _) | gc (.rate _ _ _) => true
  | _ => false

theorem RelayTask.Stepped.sendRate_same (hs : t.Stepped C e w t' w') (h : t.rates = false) :
    w'.app.sendRate = w.app.sendRate := by
  cases hs with
  | socket s s' pc pc' _ _ hs =>
    cases hs
    case said => rw [Relay.say_app]
    case helloOk => rw [Relay.say_app]
    case pruned hp => cases PruneTask.stepped_of_step hp <;> rfl
    case hello hentry _ =>
      rcases SocketPc.helloEntry_cases hentry with ⟨_, _, _, _, rfl⟩ | ⟨_, _, _, rfl⟩ <;> rfl
    case sendRate => cases h
    case sendRefused => cases h
    case retireRate => cases h
    all_goals rfl
  | flush f f' st _ hs => cases hs <;> rfl
  | gc g g' st _ hs =>
    cases hs
    case rate => cases h
    all_goals rfl
  | sweepQueues | sweepFiles => rfl

variable [DecidableEq U]

/-- The window of a mailbox after a step was there before, or the step charged it. -/
theorem RelayTask.sendRate_added (hraw : t.step C e w = some (t', w'))
    (hleft : w'.app.sendRate.get m ≠ none) :
    w.app.sendRate.get m ≠ none ∨ t.brings = some (.rate, m) := by
  cases hr : t.rates with
  | false =>
    rw [(RelayTask.stepped_of_step hraw).sendRate_same hr] at hleft
    exact Or.inl hleft
  | true =>
    cases t with
    | socket s pc =>
      obtain ⟨⟨s', pc', w1⟩, hstep, heq⟩ := Option.map_eq_some_iff.mp hraw
      cases heq
      cases pc with
      | sendRate r k ty ct =>
        by_cases hk : m = k
        · rw [hk]
          exact Or.inr rfl
        · have hwin : ∀ v, (w.app.sendRate.insert k v).get m = w.app.sendRate.get m := by
            intro v
            rw [OrdMap.get_insert, if_neg hk]
          simp only [SocketPc.step, AppState.allowDestSend] at hstep
          split_ifs at hstep <;> cases hstep <;> exact Or.inl (hwin _ ▸ hleft)
      | retireRate k =>
        cases hstep
        rw [OrdMap.get_erase] at hleft
        split_ifs at hleft with hk
        · exact absurd rfl hleft
        · exact Or.inl hleft
      | _ => cases hr
    | gc g =>
      obtain ⟨⟨g', st⟩, hstep, heq⟩ := Option.map_eq_some_iff.mp hraw
      cases heq
      cases g with
      | rate now k stale =>
        cases hstep
        rw [OrdMap.get_erase] at hleft
        split_ifs at hleft with hk
        · exact absurd rfl hleft
        · exact Or.inl hleft
      | _ => cases hr
    | _ => cases hr

omit [DecidableEq U] in
/-- A window that is owed is still owed after a step, or this is the step that drops it. -/
theorem RelayTask.Stepped.rate_owed (hs : t.Stepped C e w t' w') (ho : t.owed m .rate = true) :
    t'.owed m .rate = true ∨ (∃ s, t = .socket s (.retireRate m)) ∨
      ∃ now stale, t = .gc (.rate now m stale) := by
  cases hs with
  | socket s s' pc pc' _ _ hs =>
    cases hs
    case inner hin => cases pc <;> first | cases ho | cases hin
    case retireCount => exact Or.inl ho
    case retirePurge => exact Or.inl ho
    case retirePurged => exact Or.inl ho
    case retireRate k _ =>
      obtain rfl : k = m := of_decide_eq_true ho
      exact Or.inr (Or.inl ⟨s, rfl⟩)
    all_goals cases ho
  | gc g g' st _ hs =>
    cases hs
    case count => exact Or.inl ho
    case mark => exact Or.inl ho
    case purge => exact Or.inl ho
    case purged => exact Or.inl ho
    case rate now k stale rates =>
      obtain rfl : k = m := of_decide_eq_true ho
      exact Or.inr (Or.inr ⟨now, stale, rfl⟩)
    all_goals cases ho
  | flush | sweepQueues | sweepFiles => cases ho

theorem rate_leftoverStep (hraw : t.step C e w = some (t', w')) :
    LeftoverStep m .rate t t' w.app w'.app where
  added := RelayTask.sendRate_added hraw
  kept := by
    intro howed
    have hgone : ∀ rates : OrdMap RecipientId (Nat × Nat), ¬(rates.erase m).get m ≠ none := by
      intro rates
      rw [OrdMap.get_erase, if_pos rfl]
      exact fun h => h rfl
    rcases (RelayTask.stepped_of_step hraw).rate_owed howed with
      hkept | ⟨s, rfl⟩ | ⟨now, stale, rfl⟩
    · exact Or.inl hkept
    · cases hraw
      exact Or.inr (hgone _)
    · cases hraw
      exact Or.inr (hgone _)
  ended := by
    intro a ha hnone
    left
    rcases (RelayTask.stepped_of_step hraw).authEdit.ended ha hnone with
      ⟨_, s, _, rfl⟩ | ⟨now, stale, _, rfl⟩ <;>
      exact decide_eq_true rfl

/-! ## The route -/

theorem editRoute_ne_none {online : OrdMap RecipientId Nat} {ed : Option (RecipientId × Option Nat)}
    (h : (editRoute online ed).get m ≠ none) :
    online.get m ≠ none ∨ ∃ sid, ed = some (m, some sid) := by
  cases ed with
  | none => exact Or.inl h
  | some p =>
    obtain ⟨k, o⟩ := p
    rw [editRoute, OrdMap.get_assign] at h
    split_ifs at h with hk
    · obtain ⟨sid, rfl⟩ := Option.ne_none_iff_exists'.mp h
      exact Or.inr ⟨sid, by rw [hk]⟩
    · exact Or.inl h

omit [UuidText U] [DecidableEq U] in
theorem RelayTask.brings_of_routeEdit {sid : Nat} (h : t.routeEdit = some (m, some sid)) :
    t.brings = some (.route, m) := by
  cases t with
  | socket s pc => cases pc <;> first | (cases h; rfl) | cases h
  | _ => cases h

omit [DecidableEq U] in
/-- A route that is owed is still owed after a step, or this is the step that drops it. -/
theorem RelayTask.Stepped.route_owed (hs : t.Stepped C e w t' w') (ho : t.owed m .route = true) :
    t'.owed m .route = true ∨ t.routeEdit = some (m, none) := by
  cases hs with
  | socket s s' pc pc' _ _ hs =>
    cases hs
    case inner hin => cases pc <;> first | cases ho | cases hin
    case retireCount => exact Or.inl ho
    case retirePurge => exact Or.inl ho
    case retirePurged => exact Or.inl ho
    case retireRate => exact Or.inl ho
    case retireOnline k =>
      obtain rfl : k = m := of_decide_eq_true ho
      exact Or.inr rfl
    all_goals cases ho
  | gc g g' st _ hs => cases hs <;> cases ho
  | flush | sweepQueues | sweepFiles => cases ho

theorem route_leftoverStep (hraw : t.step C e w = some (t', w')) :
    LeftoverStep m .route t t' w.app w'.app where
  added := by
    intro hleft
    rw [Leftover.Left, (RelayTask.stepped_of_step hraw).online] at hleft
    rcases editRoute_ne_none hleft with hold | ⟨sid, hed⟩
    · exact Or.inl hold
    · exact Or.inr (RelayTask.brings_of_routeEdit hed)
  kept := by
    intro howed
    rcases (RelayTask.stepped_of_step hraw).route_owed howed with hkept | hed
    · exact Or.inl hkept
    · right
      rw [Leftover.Left, (RelayTask.stepped_of_step hraw).online, hed, editRoute,
        OrdMap.get_assign, if_pos rfl]
      exact fun h => h rfl
  ended := by
    intro a ha hnone
    rcases (RelayTask.stepped_of_step hraw).authEdit.ended ha hnone with
      ⟨_, s, _, rfl⟩ | ⟨now, stale, rfl, rfl⟩
    · exact Or.inl (decide_eq_true rfl)
    · -- a collection takes a mailbox only while it has no route
      right
      obtain ⟨⟨g', st⟩, hstep, heq⟩ := Option.map_eq_some_iff.mp hraw
      cases heq
      simp only [GcTask.step, AppState.collectIdle, ha] at hstep
      by_cases hidle : (AppState.idle now a && !w.app.online.contains m) = true
      swap
      · rw [if_neg hidle] at hstep
        cases hstep
      rw [if_pos hidle] at hstep
      cases hstep
      rw [Bool.and_eq_true, Bool.not_eq_true', OrdMap.contains_eq, Option.isSome_eq_false_iff]
        at hidle
      intro hleft
      exact hleft (Option.isNone_iff_eq_none.mp hidle.2)

/-! ## The run -/

theorem Owing.step {c c' : RelayConfig U} {mv : Move (RelayMove U)} (hn : Named c)
    (ho : Owing m c) (g : CleansUp c mv) (h : (relayMachine C).next mv c = some c') :
    Owing m c' := by
  cases mv with
  | spawn e =>
    obtain ⟨t, w, hsp, rfl⟩ := next_spawn h
    obtain ⟨n, happ⟩ := (spawned_of_spawn hsp).app
    intro hnone l hleft
    have hleft' : l.Left m c.shared.app := by
      rw [happ] at hleft
      cases l <;> exact hleft
    rw [happ] at hnone
    obtain ⟨t, ht, howed⟩ := ho hnone l hleft'
    exact ⟨t, List.mem_append_left _ ht, howed⟩
  | env e =>
    obtain ⟨w, he, rfl⟩ := next_env h
    have happ : w.app = c.shared.app := (wrote_of_env he).app
    intro hnone l hleft
    rw [happ] at hnone hleft
    exact ho hnone l hleft
  | act i e =>
    cases e with
    | run e =>
      obtain ⟨t, t', w', hi, hraw, rfl⟩ := next_act h
      have hmem : t ∈ c.pool := List.mem_of_getElem? hi
      obtain ⟨hbrings, hpurge⟩ := g t hi
      intro hnone l hleft
      have hstep : LeftoverStep m l t t' c.shared.app w'.app := by
        cases l with
        | rows =>
          exact rows_leftoverStep (RelayTask.stepped_of_step hraw) hn.keys hn.names
            (hn.tasks t hmem) hpurge
        | rate => exact rate_leftoverStep hraw
        | route => exact route_leftoverStep hraw
      have howed : (∃ u ∈ c.pool, u.owed m l = true) →
          ∃ u ∈ c.pool.set i t', u.owed m l = true :=
        exists_set hi fun h => (hstep.kept h).resolve_right fun hgone => hgone hleft
      cases hreg : c.shared.app.mailboxAuth.get m with
      | none =>
        rcases hstep.added hleft with hold | ha
        · exact howed (ho hreg l hold)
        · rcases hbrings _ ha with hsome | howing
          · rw [hreg] at hsome
            cases hsome
          · exact howed howing
      | some a =>
        have hgone := (hstep.ended a hreg hnone).resolve_right fun hgone => hgone hleft
        exact ⟨t', mem_set_self hi t', hgone⟩
    | _ =>
      obtain ⟨t, t', w', _, hraw, _⟩ := next_act h
      cases hraw

omit [UuidText U] [DecidableEq U] in
theorem RelayTask.owed_of_resting (h : t.resting = true) (l : Leftover) :
    t.owed m l = false := by
  cases t with
  | socket s pc => cases pc <;> first | (cases l <;> rfl) | cases h
  | gc g => cases g <;> first | (cases l <;> rfl) | cases h
  | _ => cases l <;> rfl

/-- Once every task has finished, nothing is left for a mailbox that is not registered. -/
theorem retired_leaves_nothing {st : AppState} (hk : KeysOk U st.queues.envelopes)
    (hn : st.mailboxAuth.All fun m _ => NameOk m)
    (h0 : st.mailboxAuth.get m = none → ∀ l : Leftover, ¬l.Left m st) {c : RelayConfig U}
    (r : Run (relayMachine C) CleansUp (started st) c) (hrest : Resting c)
    (hfree : c.shared.app.mailboxAuth.get m = none) (l : Leftover) :
    ¬l.Left m c.shared.app := by
  have howing : Owing m c := by
    refine (r.invariant (P := fun c => Named c ∧ Owing m c) ⟨named_start hk hn, ?_⟩ ?_).2
    · exact fun hnone l hl => absurd hl (h0 hnone l)
    · rintro c mv c' ⟨hnamed, ho⟩ g hm
      exact ⟨hnamed.step (moved_of_next hm), ho.step hnamed g hm⟩
  intro hleft
  obtain ⟨t, ht, howed⟩ := howing hfree l hleft
  rw [RelayTask.owed_of_resting (hrest t ht)] at howed
  cases howed

end

/-! ## Sample runs -/

/-- No store call fails, and no blocking task is lost. -/
def CallsSucceed {U : Type} : RelayConfig U → Move (RelayMove U) → Prop
  | _, .act _ (.run e) => e.store.faults = [] ∧ e.notRun = false
  | _, _ => True

instance {U : Type} : ∀ (c : RelayConfig U) (m : Move (RelayMove U)), Decidable (CallsSucceed c m)
  | _, .act _ (.run _) => inferInstanceAs (Decidable (_ ∧ _))
  | _, .act _ (.connect _) | _, .act _ .gc | _, .act _ .sweepQueues | _, .act _ .sweepFiles
  | _, .act _ (.drain _) | _, .act _ (.drop _) | _, .spawn _ | _, .env _ => isTrue trivial

/-- A socket's handler for the frame, from the frame to the next one or to its end. -/
def handled (i steps : Nat) (f : ClientFrame Nat) : List (Move (RelayMove Nat)) :=
  List.replicate steps (sampleStep sampleTime i f 1 [])

/-- Is everything at rest and the sample mailbox not registered? -/
def retiredAndResting (c : RelayConfig Nat) : Bool :=
  decide (Resting c) && (c.shared.app.mailboxAuth.get AppState.sampleRid).isNone

/-- An envelope is queued for a mailbox, and then the mailbox is retired. -/
theorem retired_leaves_nothing_sample : ∃ c : RelayConfig Nat,
    Run (relayMachine sampleCrates) CleansUp (started AppState.sampleState) c ∧
      retiredAndResting c = true ∧
      ∀ l : Leftover, ¬l.Left AppState.sampleRid c.shared.app := by
  obtain ⟨c, r, hend⟩ := exists_run (M := relayMachine sampleCrates) (G := CleansUp)
    (c := started (U := Nat) AppState.sampleState)
    (.spawn (.connect sampleTime) :: .spawn (.connect sampleTime) :: shortHello 1 ++
      handled 2 13 sampleSend ++ handled 1 12 .retireMailbox)
    (p := retiredAndResting) (by decide +kernel)
  obtain ⟨hrest, hfree⟩ := Bool.and_eq_true_iff.mp hend
  refine ⟨c, r, hend, fun l => ?_⟩
  refine retired_leaves_nothing keysOk_empty OrdMap.all_empty (fun _ l hl => ?_) r
    (of_decide_eq_true hrest) (Option.isNone_iff_eq_none.mp hfree) l
  cases l with
  | rows =>
    obtain ⟨k, v, hget, _⟩ := hl
    cases hget
  | _ => exact hl rfl

/-- A sender's token is checked, the mailbox is retired, and then the sender charges the
    window and queues its envelope. -/
theorem sender_outlives_retirement : ¬∀ (C : Crates) (st : AppState) (m : RecipientId)
    (c : RelayConfig Nat), KeysOk Nat st.queues.envelopes →
    (st.mailboxAuth.All fun m _ => NameOk m) → (∀ l : Leftover, ¬l.Left m st) →
    Run (relayMachine C) CallsSucceed (started st) c → Resting c →
    c.shared.app.mailboxAuth.get m = none → ∀ l : Leftover, ¬l.Left m c.shared.app := by
  intro hall
  obtain ⟨c, r, hend⟩ := exists_run (M := relayMachine sampleCrates) (G := CallsSucceed)
    (c := started (U := Nat) AppState.sampleState)
    (.spawn (.connect sampleTime) :: .spawn (.connect sampleTime) :: shortHello 1 ++
      handled 2 1 sampleSend ++ handled 1 12 .retireMailbox ++ handled 2 12 sampleSend)
    (p := fun c => retiredAndResting c &&
      (c.shared.app.sendRate.get AppState.sampleRid).isSome) (by decide +kernel)
  obtain ⟨hboth, hsome⟩ := Bool.and_eq_true_iff.mp hend
  obtain ⟨hrest, hfree⟩ := Bool.and_eq_true_iff.mp hboth
  refine hall sampleCrates AppState.sampleState AppState.sampleRid c keysOk_empty
    OrdMap.all_empty (fun l hl => ?_) r (of_decide_eq_true hrest)
    (Option.isNone_iff_eq_none.mp hfree) .rate (Option.isSome_iff_ne_none.mp hsome)
  cases l with
  | rows =>
    obtain ⟨k, v, hget, _⟩ := hl
    cases hget
  | _ => exact hl rfl

end AxenoRelay
