/-
  What one step of a prune, of the flush task and of a collection does.

  One `Stepped` relation a task, with the guards a step had and the one change it
  makes; `stepped_of_step` says that the task does nothing else. For the flush the
  two batches are described by `BatchFails` and `OrdMap.assignAll`, so that no proof
  over runs looks into a transaction.
-/
import AxenoRelay.State.Tasks

namespace AxenoRelay

theorem pickFrom_cases {α : Type} {e : StoreEvent} {l l' : List α} {a : α}
    (h : pickFrom e l = some (a, l')) : a ∈ l ∧ l' = l.eraseIdx e.pick := by
  obtain ⟨b, hb, heq⟩ := Option.map_eq_some_iff.mp h
  cases heq
  exact ⟨List.mem_of_getElem? hb, rfl⟩

/-! ## `prune_expired_bundles` -/

namespace PruneTask

inductive Stepped (e : StoreEvent) : PruneTask → AppState → PruneTask → AppState → Prop
  | due (st : AppState) : Stepped e check st (stamp e.now) st
  | early (st : AppState) : Stepped e check st done st
  | stamp (now : Nat) (st : AppState) :
      Stepped e (stamp now) st (scan now) { st with lastBundlePruneMs := now }
  | none (now : Nat) (st : AppState) : Stepped e (scan now) st done st
  | some (now : Nat) (st : AppState) :
      Stepped e (scan now) st (remove (AppState.expiredBundles now st) 0) st
  | last (freed : Nat) (st : AppState) : Stepped e (remove [] freed) st (sub freed) st
  | gone (rest rest' : List (String × Nat)) (freed : Nat) (st : AppState) :
      Stepped e (remove rest freed) st (remove rest' freed) st
  | removed (id : String) (n : Nat) (rest rest' : List (String × Nat)) (freed : Nat)
      (b : HostedBundle) (st : AppState) (hpick : pickFrom e rest = some ((id, n), rest'))
      (h : st.bundles.get id = some b) :
      Stepped e (remove rest freed) st (mark id rest' (freed + n))
        { st with bundles := st.bundles.erase id }
  | mark (id : String) (rest : List (String × Nat)) (freed : Nat) (st : AppState) :
      Stepped e (mark id rest freed) st (remove rest freed) (st.markBundleDirty id)
  | sub (freed : Nat) (st : AppState) : Stepped e (sub freed) st done (st.subBundleBytes freed)

theorem stepped_of_step {e : StoreEvent} {p p' : PruneTask} {st st' : AppState}
    (h : step e p st = .some (p', st')) : Stepped e p st p' st' := by
  cases p with
  | check =>
    simp only [step] at h
    split_ifs at h <;> cases h
    · exact Stepped.due st
    · exact Stepped.early st
  | stamp now =>
    cases h
    exact Stepped.stamp now st
  | scan now =>
    simp only [step] at h
    split_ifs at h <;> cases h
    · exact Stepped.none now st
    · exact Stepped.some now st
  | remove rest freed =>
    simp only [step] at h
    by_cases hrest : rest.isEmpty = true
    · rw [if_pos hrest] at h
      cases h
      rw [List.isEmpty_iff.mp hrest]
      exact Stepped.last freed st
    · rw [if_neg hrest] at h
      cases hpick : pickFrom e rest with
      | none =>
        rw [hpick] at h
        cases h
      | some r =>
        obtain ⟨⟨id, n⟩, rest'⟩ := r
        simp only [hpick] at h
        cases hget : st.bundles.get id with
        | none =>
          simp only [hget] at h
          cases h
          exact Stepped.gone rest rest' freed st
        | some b =>
          simp only [hget] at h
          cases h
          exact Stepped.removed id n rest rest' freed b st hpick hget
  | mark id rest freed =>
    cases h
    exact Stepped.mark id rest freed st
  | sub freed =>
    cases h
    exact Stepped.sub freed st
  | done => cases h

end PruneTask

/-! ## The flush task -/

namespace FlushTask

inductive Stepped (e : StoreEvent) : FlushTask → AppState → FlushTask → AppState → Prop
  | look (f f' : FlushTask) (st : AppState) (hf : f = lookAuth ∨ f = lookBundles)
      (hf' : f' = lookAuth ∨ f' = lookBundles ∨ f' = authKeys) : Stepped e f st f' st
  | authKeys (st : AppState) : Stepped e authKeys st (authTake st.dirtyAuth.keys []) st
  | authTake (k : RecipientId) (rest rest' : List RecipientId)
      (batch : List (RecipientId × Option MailboxAuth)) (st : AppState) :
      Stepped e (authTake rest batch) st (authRead k rest' batch)
        { st with dirtyAuth := st.dirtyAuth.erase k }
  | authTaken (batch : List (RecipientId × Option MailboxAuth)) (st : AppState) :
      Stepped e (authTake [] batch) st (authTxn batch) st
  | authRead (k : RecipientId) (rest : List RecipientId)
      (batch : List (RecipientId × Option MailboxAuth)) (st : AppState) :
      Stepped e (authRead k rest batch) st
        (authTake rest (batch ++ [(k, st.mailboxAuth.get k)])) st
  | authFailed (batch : List (RecipientId × Option MailboxAuth)) (st : AppState)
      (h : BatchFails e.faults batch) : Stepped e (authTxn batch) st lookAuth st
  | authWritten (batch : List (RecipientId × Option MailboxAuth)) (st : AppState)
      (h : ¬BatchFails e.faults batch) :
      Stepped e (authTxn batch) st bundleKeys { st with
        tables := { st.tables with auth := st.tables.auth.assignAll batch } }
  | bundleKeys (st : AppState) : Stepped e bundleKeys st (bundleTake st.dirtyBundles.keys []) st
  | bundleTake (k : String) (rest rest' : List String)
      (batch : List (String × Option HostedBundle)) (st : AppState) :
      Stepped e (bundleTake rest batch) st (bundleRead k rest' batch)
        { st with dirtyBundles := st.dirtyBundles.erase k }
  | bundleTaken (batch : List (String × Option HostedBundle)) (st : AppState) :
      Stepped e (bundleTake [] batch) st (bundleTxn batch) st
  | bundleRead (k : String) (rest : List String) (batch : List (String × Option HostedBundle))
      (st : AppState) :
      Stepped e (bundleRead k rest batch) st
        (bundleTake rest (batch ++ [(k, st.bundles.get k)])) st
  | bundleFailed (batch : List (String × Option HostedBundle)) (st : AppState)
      (h : BatchFails e.faults batch) : Stepped e (bundleTxn batch) st lookAuth st
  | bundleWritten (batch : List (String × Option HostedBundle)) (st : AppState)
      (h : ¬BatchFails e.faults batch) :
      Stepped e (bundleTxn batch) st lookAuth { st with
        tables := { st.tables with bundles := st.tables.bundles.assignAll batch } }

theorem stepped_of_step {e : StoreEvent} {f f' : FlushTask} {st st' : AppState}
    (h : step e f st = some (f', st')) : Stepped e f st f' st' := by
  cases f with
  | lookAuth =>
    simp only [step] at h
    split_ifs at h <;> cases h
    · exact Stepped.look _ _ st (Or.inl rfl) (Or.inr (Or.inl rfl))
    · exact Stepped.look _ _ st (Or.inl rfl) (Or.inr (Or.inr rfl))
  | lookBundles =>
    simp only [step] at h
    split_ifs at h <;> cases h
    · exact Stepped.look _ _ st (Or.inr rfl) (Or.inl rfl)
    · exact Stepped.look _ _ st (Or.inr rfl) (Or.inr (Or.inr rfl))
  | authKeys =>
    cases h
    exact Stepped.authKeys st
  | authTake rest batch =>
    simp only [step] at h
    by_cases hrest : rest.isEmpty = true
    · rw [if_pos hrest] at h
      cases h
      rw [List.isEmpty_iff.mp hrest]
      exact Stepped.authTaken batch st
    · rw [if_neg hrest] at h
      cases hpick : pickFrom e rest with
      | none =>
        rw [hpick] at h
        cases h
      | some r =>
        rw [hpick] at h
        cases h
        exact Stepped.authTake r.1 rest r.2 batch st
  | authRead k rest batch =>
    cases h
    exact Stepped.authRead k rest batch st
  | authTxn batch =>
    simp only [step, MetaTables.flushAuth] at h
    rcases writeBatch_cases batch e.faults st.tables.auth with ⟨hf, err, he⟩ | ⟨hf, hok⟩
    · rw [he] at h
      cases h
      exact Stepped.authFailed batch st hf
    · rw [hok] at h
      cases h
      exact Stepped.authWritten batch st hf
  | bundleKeys =>
    cases h
    exact Stepped.bundleKeys st
  | bundleTake rest batch =>
    simp only [step] at h
    by_cases hrest : rest.isEmpty = true
    · rw [if_pos hrest] at h
      cases h
      rw [List.isEmpty_iff.mp hrest]
      exact Stepped.bundleTaken batch st
    · rw [if_neg hrest] at h
      cases hpick : pickFrom e rest with
      | none =>
        rw [hpick] at h
        cases h
      | some r =>
        rw [hpick] at h
        cases h
        exact Stepped.bundleTake r.1 rest r.2 batch st
  | bundleRead k rest batch =>
    cases h
    exact Stepped.bundleRead k rest batch st
  | bundleTxn batch =>
    simp only [step, MetaTables.flushBundles] at h
    rcases writeBatch_cases batch e.faults st.tables.bundles with ⟨hf, err, he⟩ | ⟨hf, hok⟩
    · rw [he] at h
      cases h
      exact Stepped.bundleFailed batch st hf
    · rw [hok] at h
      cases h
      exact Stepped.bundleWritten batch st hf

end FlushTask

/-! ## `gc_idle_mailboxes` -/

namespace GcTask

section

variable {U : Type} [UuidText U]

inductive Stepped (e : StoreEvent) : GcTask U → AppState → GcTask U → AppState → Prop
  | scan (st : AppState) : Stepped e scan st (empty e.now (AppState.gcCandidates e.now st) []) st
  | looked (now : Nat) (rid : RecipientId) (queueEmpty : Bool) (rest rest' stale : List RecipientId)
      (st : AppState) (hpick : pickFrom e rest = some (rid, rest')) :
      Stepped e (empty now rest stale) st (offline now rid queueEmpty rest' stale) st
  | listed (now : Nat) (stale : List RecipientId) (st : AppState) :
      Stepped e (empty now [] stale) st (collect now stale) st
  | offline (now : Nat) (rid : RecipientId) (queueEmpty : Bool) (rest stale stale' : List RecipientId)
      (st : AppState) (h : ∀ r ∈ stale', r = rid ∨ r ∈ stale) :
      Stepped e (offline now rid queueEmpty rest stale) st (empty now rest stale') st
  | done (now : Nat) (st : AppState) : Stepped e (collect now []) st done st
  | kept (now : Nat) (rid : RecipientId) (stale : List RecipientId) (st : AppState) :
      Stepped e (collect now (rid :: stale)) st (collect now stale) st
  | collected (now : Nat) (rid : RecipientId) (stale : List RecipientId) (auth : MailboxAuth)
      (st : AppState) (h : st.mailboxAuth.get rid = some auth) :
      Stepped e (collect now (rid :: stale)) st (count now rid stale)
        { st with mailboxAuth := st.mailboxAuth.erase rid }
  | count (now : Nat) (rid : RecipientId) (stale : List RecipientId) (st : AppState) :
      Stepped e (count now rid stale) st (mark now rid stale)
        { st with mailboxCount := fetchSubOne st.mailboxCount }
  | mark (now : Nat) (rid : RecipientId) (stale : List RecipientId) (st : AppState) :
      Stepped e (mark now rid stale) st (purge now rid (.purgeTxn rid) stale)
        (st.markAuthDirty rid)
  | purge (now : Nat) (rid : RecipientId) (q q' : QueueTask U) (stale : List RecipientId)
      (queues : QueueStore) (st : AppState) (h : q.step e st.queues = some (q', queues)) :
      Stepped e (purge now rid q stale) st (purge now rid q' stale) { st with queues := queues }
  | purged (now : Nat) (rid : RecipientId) (r : Except DbError Nat) (stale : List RecipientId)
      (st : AppState) : Stepped e (purge now rid (.done r) stale) st (rate now rid stale) st
  | rate (now : Nat) (rid : RecipientId) (stale : List RecipientId)
      (rates : OrdMap RecipientId (Nat × Nat)) (st : AppState) :
      Stepped e (rate now rid stale) st (collect now stale) { st with sendRate := rates }

theorem stepped_of_step {e : StoreEvent} {g g' : GcTask U} {st st' : AppState}
    (h : step e g st = some (g', st')) : Stepped e g st g' st' := by
  cases g with
  | scan =>
    cases h
    exact Stepped.scan st
  | empty now rest stale =>
    simp only [step] at h
    by_cases hrest : rest.isEmpty = true
    · rw [if_pos hrest] at h
      cases h
      rw [List.isEmpty_iff.mp hrest]
      exact Stepped.listed now stale st
    · rw [if_neg hrest] at h
      cases hpick : pickFrom e rest with
      | none =>
        rw [hpick] at h
        cases h
      | some r =>
        rw [hpick] at h
        cases h
        exact Stepped.looked now r.1 _ rest r.2 stale st hpick
  | offline now rid queueEmpty rest stale =>
    cases h
    refine Stepped.offline now rid queueEmpty rest stale _ st ?_
    intro r hr
    split_ifs at hr
    · rcases List.mem_append.mp hr with h | h
      · exact Or.inr h
      · exact Or.inl (List.mem_singleton.mp h)
    · exact Or.inr hr
  | collect now stale =>
    cases stale with
    | nil =>
      cases h
      exact Stepped.done now st
    | cons rid stale =>
      simp only [step, AppState.collectIdle] at h
      cases hget : st.mailboxAuth.get rid with
      | none =>
        simp only [hget] at h
        cases h
        exact Stepped.kept now rid stale st
      | some auth =>
        simp only [hget] at h
        by_cases hidle : (AppState.idle now auth && !st.online.contains rid) = true
        · rw [if_pos hidle] at h
          cases h
          exact Stepped.collected now rid stale auth st hget
        · rw [if_neg hidle] at h
          cases h
          exact Stepped.kept now rid stale st
  | count now rid stale =>
    cases h
    exact Stepped.count now rid stale st
  | mark now rid stale =>
    cases h
    exact Stepped.mark now rid stale st
  | purge now rid q stale =>
    cases q with
    | done r =>
      cases h
      exact Stepped.purged now rid r stale st
    | _ =>
      simp only [step] at h
      obtain ⟨⟨q', queues⟩, hq, heq⟩ := Option.map_eq_some_iff.mp h
      cases heq
      exact Stepped.purge now rid _ q' stale queues st hq
  | rate now rid stale =>
    cases h
    exact Stepped.rate now rid stale _ st
  | done => cases h

end

end GcTask

end AxenoRelay
