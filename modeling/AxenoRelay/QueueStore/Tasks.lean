/-
  The calls of the queue store as tasks.

  A `QueueTask` is a call between two of its atomic steps: a counter or index
  operation, or a whole transaction. Its fields are the locals the source still
  needs. `QueueTask.step` runs the next piece of `QueueStore.Basic`; a task that runs
  alone does what the call there does (`enqueue_alone` and its siblings).
-/
import AxenoRelay.Lib.Interleave
import AxenoRelay.QueueStore.Invariant

namespace AxenoRelay

inductive QueueTask (U : Type) where
  | enqSeq (mailbox : String) (env : StoredEnvelope U)
  | enqIndex (mailbox : String) (env : StoredEnvelope U) (value : StoredValue)
  | enqRead (mailbox : String) (env : StoredEnvelope U) (value : StoredValue)
  | enqWrite (mailbox : String) (env : StoredEnvelope U) (value : StoredValue)
      (evictIds : List U) (evictBytes : Nat)
  | enqAdd (mailbox : String) (evicted evictBytes incomingLen : Nat)
  | enqSub (mailbox : String) (evicted evictBytes incomingLen : Nat)
  | enqUpdate (mailbox : String) (evicted evictBytes incomingLen : Nat)
  | ackTxn (mailbox : String) (ids : List U)
  | ackSub (mailbox : String) (removed freed : Nat)
  | ackUpdate (mailbox : String) (removed freed : Nat)
  | purgeTxn (mailbox : String)
  | purgeSub (mailbox : String) (n freed : Nat)
  | purgeUpdate (mailbox : String) (n freed : Nat)
  | sweepTxn
  | sweepSub (n freed : Nat) (perMailbox : OrdMap String (Nat × Nat))
  | sweepUpdate (n : Nat) (rest : OrdMap String (Nat × Nat))
  | done (r : Except DbError Nat)

namespace QueueTask

variable {U : Type} [UuidText U]

/-- The next atomic step; a finished task has none. -/
def step (e : StoreEvent) : QueueTask U → QueueStore → Option (QueueTask U × QueueStore)
  | enqSeq m env, st =>
    some (enqIndex m env (QueueStore.storedValue e.now st.takeSeq.1 env), st.takeSeq.2)
  | enqIndex m env v, st =>
    if QueueStore.needsEviction (st.indexOf m) (len env.ciphertext) then some (enqRead m env v, st)
    else some (enqWrite m env v [] 0, st)
  | enqRead m env v, st =>
    match ((QueueStore.readMailbox U m).commit e.faults st.envelopes).1 with
    | .error err => some (done (.error err), st)
    | .ok existing =>
      let r := QueueStore.chooseVictims (len env.ciphertext) existing
      some (enqWrite m env v r.1 r.2, st)
  | enqWrite m env v evictIds evictBytes, st =>
    match (QueueStore.enqueueTxn m env.id v evictIds).commit e.faults st.envelopes with
    | (.error err, _) => some (done (.error err), st)
    | (.ok (), t) =>
      some (enqAdd m evictIds.length evictBytes (len env.ciphertext), { st with envelopes := t })
  | enqAdd m k b i, st => some (enqSub m k b i, st.addTotal i)
  | enqSub m k b i, st => some (enqUpdate m k b i, st.subTotal b)
  | enqUpdate m k b i, st => some (done (.ok k), st.indexEnqueue m k b i)
  | ackTxn m ids, st =>
    if ids.isEmpty then some (done (.ok 0), st)
    else
      match (QueueStore.ackTxn m ids).commit e.faults st.envelopes with
      | (.error err, _) => some (done (.error err), st)
      | (.ok (removed, freed), t) => some (ackSub m removed freed, { st with envelopes := t })
  | ackSub m removed freed, st =>
    some (if 0 < removed then ackUpdate m removed freed else done (.ok removed),
      st.subTotal freed)
  | ackUpdate m removed freed, st => some (done (.ok removed), st.indexSub m removed freed)
  | purgeTxn m, st =>
    match (QueueStore.purgeTxn m).commit e.faults st.envelopes with
    | (.error err, _) => some (done (.error err), st)
    | (.ok (n, freed), t) => some (purgeSub m n freed, { st with envelopes := t })
  | purgeSub m n freed, st => some (purgeUpdate m n freed, st.subTotal freed)
  | purgeUpdate m n _, st => some (done (.ok n), st.indexRemove m)
  | sweepTxn, st =>
    match (QueueStore.sweepTxn e.now).commit e.faults st.envelopes with
    | (.error err, _) => some (done (.error err), st)
    | (.ok (n, freed, perMailbox), t) =>
      some (sweepSub n freed perMailbox, { st with envelopes := t })
  | sweepSub n freed perMailbox, st => some (sweepUpdate n perMailbox, st.subTotal freed)
  | sweepUpdate n rest, st =>
    if rest.entries.isEmpty then some (done (.ok n), st)
    else
      match rest.entries[e.pick]? with
      | none => none
      | some (m, c, b) => some (sweepUpdate n (rest.erase m), st.indexSub m c b)
  | done _, _ => none

/-- Is this the first step of a call? -/
def starts : QueueTask U → Bool
  | enqSeq _ _ | ackTxn _ _ | purgeTxn _ | sweepTxn => true
  | _ => false

/-- Is the next step a database transaction? -/
def transacts : QueueTask U → Bool
  | enqRead _ _ _ | enqWrite _ _ _ _ _ | ackTxn _ _ | purgeTxn _ | sweepTxn => true
  | _ => false

def finished : QueueTask U → Bool
  | done _ => true
  | _ => false

/-- The mailbox a call is about. -/
def mailbox : QueueTask U → Option String
  | enqSeq m _ | enqIndex m _ _ | enqRead m _ _ | enqWrite m _ _ _ _ | enqAdd m _ _ _
  | enqSub m _ _ _ | enqUpdate m _ _ _ | ackTxn m _ | ackSub m _ _ | ackUpdate m _ _
  | purgeTxn m | purgeSub m _ _ | purgeUpdate m _ _ => some m
  | sweepTxn | sweepSub _ _ _ | sweepUpdate _ _ | done _ => none

/-- The id an enqueue is still going to write. -/
def pendingId : QueueTask U → Option U
  | enqSeq _ env | enqIndex _ env _ | enqRead _ env _ | enqWrite _ env _ _ _ => some env.id
  | _ => none

/-! ## One step -/

open QueueStore

/-- What a step does to the task and the store. -/
inductive Stepped (e : StoreEvent) : QueueTask U → QueueStore → QueueTask U → QueueStore → Prop
  | failed {t : QueueTask U} {st : QueueStore} (err : DbError) (h : t.transacts = true) :
      Stepped e t st (done (.error err)) st
  | seq (m : String) (env : StoredEnvelope U) (st : QueueStore) :
      Stepped e (enqSeq m env) st (enqIndex m env (storedValue e.now st.nextSeq env)) st.takeSeq.2
  | skip (m : String) (env : StoredEnvelope U) (v : StoredValue) (st : QueueStore) :
      Stepped e (enqIndex m env v) st (enqWrite m env v [] 0) st
  | trip (m : String) (env : StoredEnvelope U) (v : StoredValue) (st : QueueStore) :
      Stepped e (enqIndex m env v) st (enqRead m env v) st
  | read (m : String) (env : StoredEnvelope U) (v : StoredValue) (st : QueueStore) :
      Stepped e (enqRead m env v) st
        (enqWrite m env v ((victimRows U m (len env.ciphertext) st.envelopes).map Prod.fst)
          (rowBytes (victimRows U m (len env.ciphertext) st.envelopes))) st
  | write (m : String) (env : StoredEnvelope U) (v : StoredValue) (ids : List U) (b : Nat)
      (st : QueueStore) :
      Stepped e (enqWrite m env v ids b) st (enqAdd m ids.length b (len env.ciphertext))
        { st with envelopes := enqueueTable m env.id v ids st.envelopes }
  | add (m : String) (k b i : Nat) (st : QueueStore) :
      Stepped e (enqAdd m k b i) st (enqSub m k b i) (st.addTotal i)
  | sub (m : String) (k b i : Nat) (st : QueueStore) :
      Stepped e (enqSub m k b i) st (enqUpdate m k b i) (st.subTotal b)
  | update (m : String) (k b i : Nat) (st : QueueStore) :
      Stepped e (enqUpdate m k b i) st (done (.ok k)) (st.indexEnqueue m k b i)
  | ackNone (m : String) (st : QueueStore) : Stepped e (ackTxn m []) st (done (.ok 0)) st
  | ack (m : String) (ids : List U) (st : QueueStore) :
      Stepped e (ackTxn m ids) st
        (ackSub m (ackFold m (0, 0) ids st.envelopes).1 (ackFold m (0, 0) ids st.envelopes).2)
        { st with envelopes := st.envelopes.eraseAll (ids.map (keyFor m)) }
  | ackSub (m : String) (r f : Nat) (st : QueueStore) (h : 0 < r) :
      Stepped e (ackSub m r f) st (ackUpdate m r f) (st.subTotal f)
  | ackSkip (m : String) (f : Nat) (st : QueueStore) :
      Stepped e (ackSub m 0 f) st (done (.ok 0)) (st.subTotal f)
  | ackUpdate (m : String) (r f : Nat) (st : QueueStore) :
      Stepped e (ackUpdate m r f) st (done (.ok r)) (st.indexSub m r f)
  | purge (m : String) (st : QueueStore) :
      Stepped e (purgeTxn m) st (purgeSub m (countOf m st.envelopes) (bytesOf m st.envelopes))
        { st with envelopes := purgeTable m st.envelopes }
  | purgeSub (m : String) (n f : Nat) (st : QueueStore) :
      Stepped e (purgeSub m n f) st (purgeUpdate m n f) (st.subTotal f)
  | purgeUpdate (m : String) (n f : Nat) (st : QueueStore) :
      Stepped e (purgeUpdate m n f) st (done (.ok n)) (st.indexRemove m)
  | sweep (st : QueueStore) :
      Stepped e sweepTxn st
        (sweepSub (sweepResult e.now st.envelopes).1 (sweepResult e.now st.envelopes).2.1
          (sweepResult e.now st.envelopes).2.2)
        { st with envelopes := sweepTable e.now st.envelopes }
  | sweepSub (n f : Nat) (per : OrdMap String (Nat × Nat)) (st : QueueStore) :
      Stepped e (sweepSub n f per) st (sweepUpdate n per) (st.subTotal f)
  | sweepUpdate (n : Nat) (rest : OrdMap String (Nat × Nat)) (m : String) (c b : Nat)
      (st : QueueStore) (h : rest.entries[e.pick]? = some (m, c, b)) :
      Stepped e (sweepUpdate n rest) st (sweepUpdate n (rest.erase m)) (st.indexSub m c b)
  | sweepDone (n : Nat) (rest : OrdMap String (Nat × Nat)) (st : QueueStore)
      (h : rest = OrdMap.empty) : Stepped e (sweepUpdate n rest) st (done (.ok n)) st

/-- Every step is one of these; a purge needs rows whose keys were made by `key_for`. -/
theorem stepped_of_call {e : StoreEvent} {t t' : QueueTask U} {st st' : QueueStore}
    (hp : ∀ m, t = purgeTxn m → KeysOk U st.envelopes ∧ NameOk m)
    (h : step e t st = some (t', st')) : Stepped e t st t' st' := by
  cases t with
  | enqSeq m env =>
    cases h
    exact Stepped.seq m env st
  | enqIndex m env v =>
    simp only [step] at h
    split_ifs at h
    · cases h
      exact Stepped.trip m env v st
    · cases h
      exact Stepped.skip m env v st
  | enqRead m env v =>
    simp only [step] at h
    rcases readMailbox_cases (U := U) m e.faults st.envelopes with ⟨err, he⟩ | he
    · rw [he] at h
      cases h
      exact Stepped.failed err rfl
    · rw [he] at h
      dsimp only at h
      rw [chooseVictims_eq] at h
      cases h
      exact Stepped.read m env v st
  | enqWrite m env v ids b =>
    simp only [step] at h
    rcases enqueueTxn_cases m env.id v ids e.faults st.envelopes with ⟨err, he⟩ | he
    · rw [he] at h
      cases h
      exact Stepped.failed err rfl
    · rw [he] at h
      cases h
      exact Stepped.write m env v ids b st
  | enqAdd m k b i =>
    cases h
    exact Stepped.add m k b i st
  | enqSub m k b i =>
    cases h
    exact Stepped.sub m k b i st
  | enqUpdate m k b i =>
    cases h
    exact Stepped.update m k b i st
  | ackTxn m ids =>
    simp only [step] at h
    split_ifs at h with hids
    · cases h
      rw [List.isEmpty_iff.mp hids]
      exact Stepped.ackNone m st
    · rcases ackTxn_cases m ids e.faults st.envelopes with ⟨err, he⟩ | he
      · rw [he] at h
        cases h
        exact Stepped.failed err rfl
      · rw [he] at h
        cases h
        exact Stepped.ack m ids st
  | ackSub m r f =>
    simp only [step] at h
    split_ifs at h with hr
    · cases h
      exact Stepped.ackSub m r f st hr
    · cases h
      obtain rfl : r = 0 := by omega
      exact Stepped.ackSkip m f st
  | ackUpdate m r f =>
    cases h
    exact Stepped.ackUpdate m r f st
  | purgeTxn m =>
    simp only [step] at h
    rcases purgeTxn_cases (hp m rfl).1 (hp m rfl).2 e.faults with ⟨err, he⟩ | he
    · rw [he] at h
      cases h
      exact Stepped.failed err rfl
    · rw [he] at h
      cases h
      exact Stepped.purge m st
  | purgeSub m n f =>
    cases h
    exact Stepped.purgeSub m n f st
  | purgeUpdate m n f =>
    cases h
    exact Stepped.purgeUpdate m n f st
  | sweepTxn =>
    simp only [step] at h
    rcases sweepTxn_cases e.now e.faults st.envelopes with ⟨err, he⟩ | he
    · rw [he] at h
      cases h
      exact Stepped.failed err rfl
    · rw [he] at h
      cases h
      exact Stepped.sweep st
  | sweepSub n f per =>
    cases h
    exact Stepped.sweepSub n f per st
  | sweepUpdate n rest =>
    simp only [step] at h
    split_ifs at h with hrest
    · cases h
      refine Stepped.sweepDone n rest st (OrdMap.ext_get fun k => ?_)
      rw [OrdMap.get, List.isEmpty_iff.mp hrest]
      rfl
    · cases hp : rest.entries[e.pick]? with
      | none =>
        rw [hp] at h
        cases h
      | some p =>
        obtain ⟨m, c, b⟩ := p
        rw [hp] at h
        cases h
        exact Stepped.sweepUpdate n rest m c b st hp
  | done r => cases h

/-- Every step of a task about an accepted name is one of these. -/
theorem stepped_of_step {e : StoreEvent} {t t' : QueueTask U} {st st' : QueueStore}
    (hk : KeysOk U st.envelopes) (hm : ∀ m, t.mailbox = some m → NameOk m)
    (h : step e t st = some (t', st')) : Stepped e t st t' st' :=
  stepped_of_call (fun m ht => ⟨hk, hm m (ht ▸ rfl)⟩) h

/-! ## A task that runs alone -/

/-- Steps of one task with nothing in between. -/
def runAlone : List StoreEvent → QueueTask U → QueueStore → Option (QueueTask U × QueueStore)
  | [], t, st => some (t, st)
  | e :: es, t, st => (t.step e st).bind fun r => runAlone es r.1 r.2

theorem enqueue_alone (now : Nat) (rf wf : Faults) (m : String) (env : StoredEnvelope U)
    (st : QueueStore) :
    ∃ es, runAlone es (enqSeq m env) st =
      some (done (enqueue now rf wf m env st).1, (enqueue now rf wf m env st).2) := by
  -- the steps from the write transaction on
  have hwrite : ∀ (v : StoredValue) (ids : List U) (b : Nat) (st : QueueStore),
      ∃ es, ∀ r, r = (match (enqueueTxn m env.id v ids).commit wf st.envelopes with
        | (.error e, _) => (.error e, st)
        | (.ok (), t) => (.ok ids.length,
            (({ st with envelopes := t }.addTotal (len env.ciphertext)).subTotal b).indexEnqueue m
              ids.length b (len env.ciphertext)) : Except DbError Nat × QueueStore) →
        runAlone es (enqWrite m env v ids b) st = some (done r.1, r.2) := by
    intro v ids b st
    rcases enqueueTxn_cases m env.id v ids wf st.envelopes with ⟨e, he⟩ | he
    · refine ⟨[⟨now, wf, [], 0⟩], fun r hr => ?_⟩
      simp only [runAlone, step, he, Option.bind_some, hr]
    · refine ⟨[⟨now, wf, [], 0⟩, ⟨now, [], [], 0⟩, ⟨now, [], [], 0⟩, ⟨now, [], [], 0⟩], fun r hr => ?_⟩
      simp only [runAlone, step, he, Option.bind_some, hr]
  unfold enqueue selectVictims
  dsimp only
  cases hn : needsEviction (st.takeSeq.2.indexOf m) (len env.ciphertext) with
  | false =>
    obtain ⟨es, hes⟩ := hwrite (storedValue now st.takeSeq.1 env) [] 0 st.takeSeq.2
    refine ⟨⟨now, [], [], 0⟩ :: ⟨now, [], [], 0⟩ :: es, ?_⟩
    simp only [runAlone, step, hn, Option.bind_some, Bool.false_eq_true, if_false]
    exact hes _ rfl
  | true =>
    rcases readMailbox_cases (U := U) m rf st.takeSeq.2.envelopes with ⟨e, he⟩ | he
    · refine ⟨[⟨now, [], [], 0⟩, ⟨now, [], [], 0⟩, ⟨now, rf, [], 0⟩], ?_⟩
      simp only [runAlone, step, hn, he, Option.bind_some, if_true]
    · obtain ⟨es, hes⟩ := hwrite (storedValue now st.takeSeq.1 env)
        (chooseVictims (len env.ciphertext) (sortBySeq (mailboxRows U m st.takeSeq.2.envelopes))).1
        (chooseVictims (len env.ciphertext) (sortBySeq (mailboxRows U m st.takeSeq.2.envelopes))).2
        st.takeSeq.2
      refine ⟨⟨now, [], [], 0⟩ :: ⟨now, [], [], 0⟩ :: ⟨now, rf, [], 0⟩ :: es, ?_⟩
      simp only [runAlone, step, hn, he, Option.bind_some, if_true]
      exact hes _ rfl

theorem ack_alone (fs : Faults) (m : String) (ids : List U) (st : QueueStore) :
    ∃ es, runAlone es (ackTxn m ids) st = some (done (ack fs m ids st).1, (ack fs m ids st).2) := by
  unfold QueueStore.ack
  split_ifs with hids
  · refine ⟨[⟨0, [], [], 0⟩], ?_⟩
    simp only [runAlone, step, hids, if_true, Option.bind_some]
  · rcases ackTxn_cases m ids fs st.envelopes with ⟨e, he⟩ | he
    · refine ⟨[⟨0, fs, [], 0⟩], ?_⟩
      simp only [runAlone, step, hids, Bool.false_eq_true, if_false, he, Option.bind_some]
    · by_cases hr : 0 < (ackFold m (0, 0) ids st.envelopes).1
      · refine ⟨[⟨0, fs, [], 0⟩, ⟨0, [], [], 0⟩, ⟨0, [], [], 0⟩], ?_⟩
        simp only [runAlone, step, hids, Bool.false_eq_true, if_false, he, Option.bind_some, if_pos hr]
      · refine ⟨[⟨0, fs, [], 0⟩, ⟨0, [], [], 0⟩], ?_⟩
        simp only [runAlone, step, hids, Bool.false_eq_true, if_false, he, Option.bind_some, if_neg hr]

theorem purge_alone {st : QueueStore} (hk : KeysOk U st.envelopes) (fs : Faults) {m : String}
    (hm : NameOk m) :
    ∃ es, runAlone (U := U) es (purgeTxn m) st =
      some (done (purgeMailbox fs m st).1, (purgeMailbox fs m st).2) := by
  unfold purgeMailbox
  rcases purgeTxn_cases hk hm fs with ⟨e, he⟩ | he
  · refine ⟨[⟨0, fs, [], 0⟩], ?_⟩
    simp only [runAlone, step, he, Option.bind_some]
  · refine ⟨[⟨0, fs, [], 0⟩, ⟨0, [], [], 0⟩, ⟨0, [], [], 0⟩], ?_⟩
    simp only [runAlone, step, he, Option.bind_some]

/-- The index updates of a sweep, taken in the order of the list. -/
theorem sweepUpdate_alone (n : Nat) (l : List (String × Nat × Nat))
    (rest : OrdMap String (Nat × Nat)) (hl : rest.entries = l) (st : QueueStore) :
    ∃ es, runAlone (U := U) es (sweepUpdate n rest) st =
      some (done (.ok n), l.foldl (fun st e => st.indexSub e.1 e.2.1 e.2.2) st) := by
  induction l generalizing rest st with
  | nil =>
    refine ⟨[⟨0, [], [], 0⟩], ?_⟩
    simp [runAlone, step, hl]
  | cons p l ih =>
    obtain ⟨m, c, b⟩ := p
    obtain ⟨es, hes⟩ := ih (rest.erase m) (OrdMap.entries_erase_head hl) (st.indexSub m c b)
    refine ⟨⟨0, [], [], 0⟩ :: es, ?_⟩
    simp only [runAlone, step, hl, List.isEmpty_cons, Bool.false_eq_true, if_false,
      List.getElem?_cons_zero, Option.bind_some, hes, List.foldl_cons]

theorem sweep_alone (now : Nat) (fs : Faults) (st : QueueStore) :
    ∃ es, runAlone (U := U) es sweepTxn st =
      some (done (sweepExpired now fs st).1, (sweepExpired now fs st).2) := by
  unfold sweepExpired
  rcases sweepTxn_cases now fs st.envelopes with ⟨e, he⟩ | he
  · refine ⟨[⟨now, fs, [], 0⟩], ?_⟩
    simp only [runAlone, step, he, Option.bind_some]
  · obtain ⟨es, hes⟩ := sweepUpdate_alone (U := U) (sweepResult now st.envelopes).1
      (sweepResult now st.envelopes).2.2.entries (sweepResult now st.envelopes).2.2 rfl
      ({ st with envelopes := sweepTable now st.envelopes }.subTotal
        (sweepResult now st.envelopes).2.1)
    refine ⟨⟨now, fs, [], 0⟩ :: ⟨now, [], [], 0⟩ :: es, ?_⟩
    simp only [runAlone, step, he, Option.bind_some, hes]

end QueueTask

end AxenoRelay
