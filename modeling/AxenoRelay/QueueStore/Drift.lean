/-
  Queue accounting under concurrency.

  A task owes what its transaction has done to the disk and it has not yet done to
  the counters (`totalOwed`, `indexOwed`), so counter plus debts equals disk, and
  with no call in flight counter equals disk (`no_drift`). The law needs that each
  step settles its debt in full (`Settles`): an enqueue whose victims are still
  there, a subtraction that is not clamped, a purge that drops an index entry equal
  to what it purged. Where a step does not, the accounting drifts (`drifts`).
-/
import AxenoRelay.QueueStore.World

namespace AxenoRelay

open Interleave QueueStore

section Owed

variable {U : Type}

def pairZ (p : Nat × Nat) : ℤ × ℤ := (p.1, p.2)

namespace QueueTask

/-- What a task still has to add to `total_bytes`. -/
def totalOwed : QueueTask U → ℤ
  | enqAdd _ _ b i => i - b
  | enqSub _ _ b _ => -b
  | ackSub _ _ f => -f
  | purgeSub _ _ f => -f
  | sweepSub _ f _ => -f
  | _ => 0

/-- What a task still has to add to the index entry of `n`. -/
def indexOwed (n : String) : QueueTask U → ℤ × ℤ
  | enqAdd m k b i | enqSub m k b i | enqUpdate m k b i => if n = m then (1 - k, i - b) else 0
  | ackSub m r f | ackUpdate m r f => if n = m then -pairZ (r, f) else 0
  | purgeSub m c f | purgeUpdate m c f => if n = m then -pairZ (c, f) else 0
  | sweepSub _ _ rest | sweepUpdate _ rest => -pairZ (countIn rest n)
  | _ => 0

end QueueTask

theorem owed_of_transacts {t : QueueTask U} (h : t.transacts = true) :
    t.totalOwed = 0 ∧ ∀ n, t.indexOwed n = 0 := by
  cases t <;> first | exact ⟨rfl, fun _ => rfl⟩ | cases h

theorem owed_of_starts {t : QueueTask U} (h : t.starts = true) :
    t.totalOwed = 0 ∧ ∀ n, t.indexOwed n = 0 := by
  cases t <;> first | exact ⟨rfl, fun _ => rfl⟩ | cases h

theorem owed_of_finished {t : QueueTask U} (h : t.finished = true) :
    t.totalOwed = 0 ∧ ∀ n, t.indexOwed n = 0 := by
  cases t <;> first | exact ⟨rfl, fun _ => rfl⟩ | cases h

/-- A subtraction that is not clamped. -/
theorem sub_balance {x f : Nat} (h : f ≤ x) (d : ℤ) : ((x - f : Nat) : ℤ) + 0 + d = x + -f + d := by
  omega

/-- A mailbox's totals on disk. -/
def diskIndex (n : String) (t : Envelopes) : ℤ × ℤ := pairZ (countOf n t, bytesOf n t)

/-- Counter plus debts is disk, for the total and for every mailbox. -/
structure Balanced (c : QueueConfig U) : Prop where
  total : (c.shared.store.totalBytes : ℤ) + c.total QueueTask.totalOwed =
    diskBytes c.shared.store.envelopes
  index : ∀ n, NameOk n → pairZ (c.shared.store.indexOf n) + c.total (QueueTask.indexOwed n) =
    diskIndex n c.shared.store.envelopes

theorem balanced_spawn {c : QueueConfig U} (hb : Balanced c) {t : QueueTask U}
    (ha : Admits c.shared t) :
    Balanced ⟨{ c.shared with used := t.pendingId.toList ++ c.shared.used }, c.pool ++ [t]⟩ := by
  have h0 := owed_of_starts ha.1
  constructor
  · rw [total_spawn, h0.1, add_zero]
    exact hb.total
  · intro n hn
    rw [total_spawn, h0.2, add_zero]
    exact hb.index n hn

end Owed

section Drift

variable {U : Type} [UuidText U]

/-- The next step of the task does its whole share of the accounting. -/
def Settles (e : StoreEvent) (st : QueueStore) : QueueTask U → Prop
  | .enqWrite m _ _ ids _ => ∀ id ∈ ids, (st.envelopes.get (keyFor m id)).isSome
  | .enqSub _ _ b _ => b ≤ st.totalBytes
  | .enqUpdate m k b _ => k ≤ (st.indexOf m).1 ∧ b ≤ (st.indexOf m).2
  | .ackSub _ _ f | .purgeSub _ _ f | .sweepSub _ f _ => f ≤ st.totalBytes
  | .ackUpdate m r f => r ≤ (st.indexOf m).1 ∧ f ≤ (st.indexOf m).2
  | .purgeUpdate m c f => st.indexOf m = (c, f)
  | .sweepUpdate _ rest =>
    ∀ p ∈ rest.entries[e.pick]?, p.2.1 ≤ (st.indexOf p.1).1 ∧ p.2.2 ≤ (st.indexOf p.1).2
  | _ => True

instance (e : StoreEvent) (st : QueueStore) (t : QueueTask U) : Decidable (Settles e st t) := by
  cases t <;> unfold Settles <;> infer_instance

/-- A move whose step settles in full. -/
def Settled (c : QueueConfig U) : Move (QueueMove U) → Prop
  | .act i (.run e) => ∀ t ∈ c.pool[i]?, Settles e c.shared.store t
  | _ => True

instance (c : QueueConfig U) (m : Move (QueueMove U)) : Decidable (Settled c m) := by
  unfold Settled
  split <;> infer_instance

/-! ## Counter plus debts is disk -/

/-- The victims of a write that settles: they are on disk with the bytes counted. -/
theorem WorldOk.victims {c : QueueConfig U} (hc : WorldOk c) {m : String}
    {env : StoredEnvelope U} {v : StoredValue} {ids : List U} {b : Nat} {e : StoreEvent}
    (hmem : QueueTask.enqWrite m env v ids b ∈ c.pool)
    (hset : Settles e c.shared.store (.enqWrite m env v ids b)) :
    v.c = env.ciphertext ∧ ∃ rows : List (U × StoredValue), ids = rows.map Prod.fst ∧
      b = rowBytes rows ∧ (rows.map Prod.fst).Nodup ∧
      ∀ r ∈ rows, c.shared.store.envelopes.get (keyFor m r.1) = some r.2 := by
  obtain ⟨hv, rows, rfl, hb, hnd, hrows⟩ := hc.sane _ hmem
  refine ⟨hv, rows, rfl, hb, hnd, ?_⟩
  intro r hr
  obtain ⟨w, hw⟩ := Option.isSome_iff_exists.mp (hset r.1 (List.mem_map_of_mem hr))
  rw [hw, (hrows r hr).2 w hw]

/-- A step that settles in full keeps the total balanced. -/
theorem total_balance {c : QueueConfig U} (hc : WorldOk c) {t t' : QueueTask U}
    {st st' : QueueStore} {e : StoreEvent} (hmem : t ∈ c.pool) (hst : c.shared.store = st)
    (hs : t.Stepped e st t' st') (hset : Settles e st t) :
    (st'.totalBytes : ℤ) + t'.totalOwed + diskBytes st.envelopes =
      st.totalBytes + t.totalOwed + diskBytes st'.envelopes := by
  cases hs with
  | failed err h =>
    rw [(owed_of_transacts h).1]
    rfl
  | write m env v ids b =>
    have hm := hc.names _ hmem m rfl
    have hfresh := hc.fresh hmem hm rfl
    obtain ⟨hv, rows, rfl, rfl, hnd, hrows⟩ := hc.victims hmem (hst ▸ hset)
    rw [hst] at hfresh hrows
    have hbytes := diskBytes_enqueueTable hm env.id v hnd hrows
    rw [hv, replacedRow_of_fresh _ hfresh, Option.elim_none] at hbytes
    show (st.totalBytes : ℤ) + (len env.ciphertext - rowBytes rows) + diskBytes st.envelopes =
      st.totalBytes + 0 + diskBytes (enqueueTable m env.id v (rows.map Prod.fst) st.envelopes)
    omega
  | add m k b i =>
    show ((st.totalBytes + i : Nat) : ℤ) + -b + diskBytes st.envelopes =
      st.totalBytes + (i - b) + diskBytes st.envelopes
    omega
  | sub m k b i => exact sub_balance hset _
  | ack m ids =>
    have hbytes := ackFold_bytes m ids (0, 0) st.envelopes
    show (st.totalBytes : ℤ) + -(ackFold m (0, 0) ids st.envelopes).2 + _ =
      st.totalBytes + 0 + diskBytes (st.envelopes.eraseAll (ids.map (keyFor m)))
    omega
  | ackSub m r f => exact sub_balance hset _
  | ackSkip m f => exact sub_balance hset _
  | ackUpdate m r f =>
    obtain ⟨h1, h2, _⟩ := indexSub_frame st m r f
    rw [h1, h2]
    rfl
  | purge m =>
    have hbytes := purge_bytes m st.envelopes
    show (st.totalBytes : ℤ) + -bytesOf m st.envelopes + _ =
      st.totalBytes + 0 + diskBytes (purgeTable m st.envelopes)
    omega
  | purgeSub m n f => exact sub_balance hset _
  | sweep =>
    have hbytes := sweep_bytes e.now st.envelopes
    show (st.totalBytes : ℤ) + -diskBytes (sweptRows e.now st.envelopes) + _ =
      st.totalBytes + 0 + diskBytes (sweepTable e.now st.envelopes)
    omega
  | sweepSub n f per => exact sub_balance hset _
  | sweepUpdate n rest m c b =>
    obtain ⟨h1, h2, _⟩ := indexSub_frame st m c b
    rw [h1, h2]
    rfl
  | _ => rfl

/-- A step that settles in full keeps every index entry balanced. -/
theorem index_balance {c : QueueConfig U} (hc : WorldOk c) {t t' : QueueTask U}
    {st st' : QueueStore} {e : StoreEvent} (hmem : t ∈ c.pool) (hst : c.shared.store = st)
    (hs : t.Stepped e st t' st') (hset : Settles e st t) (n : String) :
    pairZ (st'.indexOf n) + t'.indexOwed n + diskIndex n st.envelopes =
      pairZ (st.indexOf n) + t.indexOwed n + diskIndex n st'.envelopes := by
  cases hs with
  | failed err h =>
    rw [(owed_of_transacts h).2]
    rfl
  | write m env v ids b =>
    have hm := hc.names _ hmem m rfl
    have hfresh := hc.fresh hmem hm rfl
    obtain ⟨hv, rows, rfl, rfl, hnd, hrows⟩ := hc.victims hmem (hst ▸ hset)
    rw [hst] at hfresh hrows
    have hcount := mailboxSum_enqueueTable (fun _ => 1) hm n env.id v hnd hrows
    have hbytes := mailboxSum_enqueueTable (fun v => len v.c) hm n env.id v hnd hrows
    rw [replacedRow_of_fresh _ hfresh, Option.elim_none, add_zero] at hcount hbytes
    rw [List.map_const', List.sum_replicate, smul_eq_mul, mul_one] at hcount
    rw [hv] at hbytes
    show pairZ (st.indexOf n) + (if n = m then (1 - ((rows.map Prod.fst).length : ℤ),
      (len env.ciphertext : ℤ) - rowBytes rows) else 0) + pairZ (mailboxSum (fun _ => 1) n
      st.envelopes, mailboxSum (fun v => len v.c) n st.envelopes) = pairZ (st.indexOf n) + 0 +
      pairZ (mailboxSum (fun _ => 1) n (enqueueTable m env.id v (rows.map Prod.fst) st.envelopes),
        mailboxSum (fun v => len v.c) n
          (enqueueTable m env.id v (rows.map Prod.fst) st.envelopes))
    rw [List.length_map]
    unfold pairZ rowBytes
    split_ifs at hcount hbytes ⊢ <;>
      simp only [Prod.mk_add_mk, Prod.mk.injEq, add_zero] <;> omega
  | update m k b i =>
    rw [indexOf_indexEnqueue]
    show pairZ _ + 0 + diskIndex n st.envelopes = pairZ (st.indexOf n) +
      (if n = m then (1 - (k : ℤ), (i : ℤ) - b) else 0) + diskIndex n st.envelopes
    by_cases hn : n = m
    · obtain ⟨hk, hb⟩ : k ≤ (st.indexOf m).1 ∧ b ≤ (st.indexOf m).2 := hset
      rw [if_pos hn, if_pos hn, hn]
      unfold pairZ diskIndex
      simp only [pairZ, Prod.mk_add_mk, Prod.mk.injEq, add_zero]
      omega
    · rw [if_neg hn, if_neg hn]
  | ack m ids =>
    obtain ⟨hcount, hbytes⟩ := ackFold_balance (hc.names _ hmem m rfl) ids (0, 0) st.envelopes n
    show pairZ (st.indexOf n) + (if n = m then -pairZ (ackFold m (0, 0) ids st.envelopes) else 0) +
      diskIndex n st.envelopes = pairZ (st.indexOf n) + 0 +
        diskIndex n (st.envelopes.eraseAll (ids.map (keyFor m)))
    unfold diskIndex
    split_ifs at hcount hbytes ⊢ <;>
      simp only [pairZ, Prod.neg_mk, Prod.mk_add_mk, Prod.mk.injEq, add_zero] <;> omega
  | ackSkip m f =>
    have hf : f = 0 := hc.sane _ hmem rfl
    show pairZ (st.indexOf n) + 0 + diskIndex n st.envelopes =
      pairZ (st.indexOf n) + (if n = m then -pairZ (0, f) else 0) + diskIndex n st.envelopes
    rw [hf]
    simp [pairZ]
  | ackUpdate m r f =>
    rw [(indexSub_frame st m r f).1, indexOf_indexSub]
    show pairZ _ + 0 + diskIndex n st.envelopes =
      pairZ (st.indexOf n) + (if n = m then -pairZ (r, f) else 0) + diskIndex n st.envelopes
    by_cases hn : n = m
    · obtain ⟨hr, hf⟩ : r ≤ (st.indexOf m).1 ∧ f ≤ (st.indexOf m).2 := hset
      rw [if_pos hn, if_pos hn, hn]
      simp only [pairZ, diskIndex, Prod.neg_mk, Prod.mk_add_mk, Prod.mk.injEq, add_zero]
      omega
    · rw [if_neg hn, if_neg hn]
  | purge m =>
    have hcount := purge_balance m n st.envelopes fun _ => 1
    have hbytes := purge_balance m n st.envelopes fun v => len v.c
    show pairZ (st.indexOf n) +
      (if n = m then -pairZ (mailboxSum (fun _ => 1) m st.envelopes,
        mailboxSum (fun v => len v.c) m st.envelopes) else 0) +
      pairZ (mailboxSum (fun _ => 1) n st.envelopes, mailboxSum (fun v => len v.c) n st.envelopes) =
      pairZ (st.indexOf n) + 0 + pairZ (mailboxSum (fun _ => 1) n (purgeTable m st.envelopes),
        mailboxSum (fun v => len v.c) n (purgeTable m st.envelopes))
    split_ifs at hcount hbytes ⊢ <;>
      simp only [pairZ, Prod.neg_mk, Prod.mk_add_mk, Prod.mk.injEq, add_zero] <;> omega
  | purgeUpdate m k f =>
    rw [indexOf_indexRemove]
    show pairZ _ + 0 + diskIndex n st.envelopes =
      pairZ (st.indexOf n) + (if n = m then -pairZ (k, f) else 0) + diskIndex n st.envelopes
    by_cases hn : n = m
    · have heq : st.indexOf m = (k, f) := hset
      rw [if_pos hn, if_pos hn, hn, heq]
      simp [pairZ]
    · rw [if_neg hn, if_neg hn]
  | sweep =>
    have hcount := sweep_balance e.now n st.envelopes fun _ => 1
    have hbytes := sweep_balance e.now n st.envelopes fun v => len v.c
    show pairZ (st.indexOf n) + -pairZ (countIn (sweepResult e.now st.envelopes).2.2 n) +
      diskIndex n st.envelopes =
      pairZ (st.indexOf n) + 0 + diskIndex n (sweepTable e.now st.envelopes)
    rw [sweepResult, countIn_table]
    simp only [pairZ, diskIndex, countOf, bytesOf, Prod.neg_mk, Prod.mk_add_mk, Prod.mk.injEq,
      add_zero]
    omega
  | sweepUpdate k rest m c b _ h =>
    rw [(indexSub_frame st m c b).1, indexOf_indexSub]
    show pairZ _ + -pairZ (countIn (rest.erase m) n) + diskIndex n st.envelopes =
      pairZ (st.indexOf n) + -pairZ (countIn rest n) + diskIndex n st.envelopes
    unfold countIn
    rw [OrdMap.get_erase]
    by_cases hn : n = m
    · obtain ⟨hle1, hle2⟩ : c ≤ (st.indexOf m).1 ∧ b ≤ (st.indexOf m).2 := hset _ h
      have hget : rest.get m = some (c, b) :=
        OrdMap.get_eq_some_iff.mpr (List.mem_of_getElem? h)
      rw [if_pos hn, if_pos hn, hn, hget]
      simp only [pairZ, diskIndex, Option.getD_none, Option.getD_some, Prod.neg_mk, Prod.mk_add_mk,
        Prod.mk.injEq]
      omega
    · rw [if_neg hn, if_neg hn]
  | sweepDone k rest _ h =>
    rw [h]
    show pairZ (st.indexOf n) + 0 + diskIndex n st.envelopes =
      pairZ (st.indexOf n) + -pairZ (0, 0) + diskIndex n st.envelopes
    simp [pairZ]
  | _ => rfl

theorem balanced_act {c : QueueConfig U} (hc : WorldOk c) (hb : Balanced c) {i : Nat}
    {t t' : QueueTask U} {st' : QueueStore} {e : StoreEvent} (ht : c.pool[i]? = some t)
    (hs : t.Stepped e c.shared.store t' st') (hset : Settles e c.shared.store t) :
    Balanced ⟨{ c.shared with store := st' }, c.pool.set i t'⟩ := by
  have hmem := List.mem_of_getElem? ht
  constructor
  · have hpool := total_act QueueTask.totalOwed (u := t')
      (s := { c.shared with store := st' }) ht
    have hstep := total_balance hc hmem rfl hs hset
    have hbal := hb.total
    show (st'.totalBytes : ℤ) + _ = diskBytes st'.envelopes
    omega
  · intro n hn
    have hpool := total_act (QueueTask.indexOwed n) (u := t')
      (s := { c.shared with store := st' }) ht
    have hstep := index_balance hc hmem rfl hs hset n
    have hbal := hb.index n hn
    show pairZ (st'.indexOf n) + _ = diskIndex n st'.envelopes
    rw [Prod.ext_iff] at hpool hstep hbal ⊢
    simp only [Prod.fst_add, Prod.snd_add] at hpool hstep hbal ⊢
    omega

theorem balanced_fresh {t : Envelopes} {used : List U} (ht : UsedIds t used) :
    Balanced (freshQueue t used) := by
  have hstore : StoreOk U (QueueStore.ofTable t) := storeOk_ofTable (worldOk_fresh ht).keys
  constructor
  · show ((QueueStore.ofTable t).totalBytes : ℤ) + 0 = diskBytes t
    rw [hstore.total, add_zero]
    rfl
  · intro n hn
    show pairZ ((QueueStore.ofTable t).indexOf n) + 0 = diskIndex n t
    rw [hstore.index n hn, add_zero]
    rfl

variable [DecidableEq U]

theorem run_balanced {t : Envelopes} {used : List U} (ht : UsedIds t used) {c : QueueConfig U}
    (r : Run (queueMachine U) Settled (freshQueue t used) c) : WorldOk c ∧ Balanced c := by
  refine r.invariant (P := fun c => WorldOk c ∧ Balanced c)
    ⟨worldOk_fresh ht, balanced_fresh ht⟩ ?_
  intro c m c' ⟨hc, hb⟩ hg hn
  rcases queueMachine_next hc hn with ⟨u, rfl, ha, rfl⟩ | ⟨i, e, u, u', st', rfl, hu, hs, rfl⟩
  · exact ⟨worldOk_spawn hc ha, balanced_spawn hb ha⟩
  · exact ⟨worldOk_act hc hu hs, balanced_act hc hb hu hs (hg u hu)⟩

/-- **No drift.** If every step of a run settles in full, then whenever no call is in
    flight the total and every index entry are what is on disk. -/
theorem no_drift {t : Envelopes} {used : List U} (ht : UsedIds t used) {c : QueueConfig U}
    (r : Run (queueMachine U) Settled (freshQueue t used) c) (hq : Quiet c) :
    c.shared.store.totalBytes = diskBytes c.shared.store.envelopes ∧
      ∀ m, NameOk m → c.shared.store.indexOf m =
        (countOf m c.shared.store.envelopes, bytesOf m c.shared.store.envelopes) := by
  obtain ⟨_, hb⟩ := run_balanced ht r
  constructor
  · have h := hb.total
    rw [total_eq_zero, add_zero] at h
    · exact Int.ofNat.inj h
    · intro u hu
      exact (owed_of_finished (hq u hu)).1
  · intro m hm
    have h := hb.index m hm
    rw [total_eq_zero, add_zero] at h
    · obtain ⟨h1, h2⟩ := Prod.mk.inj h
      exact Prod.ext (Int.ofNat.inj h1) (Int.ofNat.inj h2)
    · intro u hu
      exact (owed_of_finished (hq u hu)).2 m

end Drift

/-! ## A run that drifts -/

/-- No database call of the move fails. -/
def AllSucceed {U : Type} (_ : QueueConfig U) : Move (QueueMove U) → Prop
  | .act _ (.run e) => e.faults = []
  | _ => True

instance {U : Type} (c : QueueConfig U) (m : Move (QueueMove U)) : Decidable (AllSucceed c m) := by
  unfold AllSucceed
  split <;> infer_instance

/-- A step at clock 0 with no failure. -/
def calm {U : Type} (i : Nat) : Move (QueueMove U) := .act i (.run ⟨0, [], [], 0⟩)

def startEnqueue (id : SampleUuid) : Move (QueueMove SampleUuid) :=
  .spawn (.start (.enqSeq sampleMailbox.1 (sampleEnvelope id)))

def startAck (id : SampleUuid) : Move (QueueMove SampleUuid) :=
  .spawn (.start (.ackTxn sampleMailbox.1 [id]))

/-- An envelope is acked between its commit and its accounting: the ack finds the
    counter at 0 and no index entry, and the enqueue then counts a row that is gone. -/
theorem drifts : ¬∀ c : QueueConfig SampleUuid,
    Run (queueMachine SampleUuid) AllSucceed (freshQueue OrdMap.empty []) c → Quiet c →
      c.shared.store.totalBytes = diskBytes c.shared.store.envelopes ∧
        ∀ m, NameOk m → c.shared.store.indexOf m =
          (countOf m c.shared.store.envelopes, bytesOf m c.shared.store.envelopes) := by
  intro hall
  obtain ⟨c, hrun, hc⟩ := exists_run (M := queueMachine SampleUuid) (G := AllSucceed)
    (c := freshQueue OrdMap.empty [])
    [startEnqueue .u1, calm 0, calm 0, calm 0, startAck .u1, calm 1, calm 1, calm 1, calm 0,
      calm 0, calm 0]
    (p := fun c => decide (Quiet c ∧
      c.shared.store.totalBytes ≠ diskBytes c.shared.store.envelopes)) (by decide)
  obtain ⟨hquiet, hne⟩ := of_decide_eq_true hc
  exact hne (hall c hrun hquiet).1

/-- The same two calls, one after the other. -/
theorem no_drift_sample : ∃ c : QueueConfig SampleUuid,
    c.pool.length = 2 ∧ c.shared.store.totalBytes = diskBytes c.shared.store.envelopes ∧
      ∀ m, NameOk m → c.shared.store.indexOf m =
        (countOf m c.shared.store.envelopes, bytesOf m c.shared.store.envelopes) := by
  obtain ⟨c, hrun, hc⟩ := exists_run (M := queueMachine SampleUuid) (G := Settled)
    (c := freshQueue OrdMap.empty [])
    [startEnqueue .u1, calm 0, calm 0, calm 0, calm 0, calm 0, calm 0, startAck .u1, calm 1,
      calm 1, calm 1]
    (p := fun c => decide (Quiet c ∧ c.pool.length = 2)) (by decide)
  obtain ⟨hquiet, hlen⟩ := of_decide_eq_true hc
  exact ⟨c, hlen, no_drift (by intro k v h; cases h) hrun hquiet⟩

end AxenoRelay
