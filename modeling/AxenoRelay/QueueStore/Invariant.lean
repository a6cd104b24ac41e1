/-
  The invariant of a store between calls, one call at a time.

  `StoreOk`: keys made by `key_for`, sequence numbers below the counter, and an
  index and a byte total that are exact. `*_cases` says what a call returns: an
  error, with the queues as they were, or its result and the store after it
  (`enqueued`, `acked`, `purged`, `swept`); `storeOk_*` says each of those stores
  has the invariant again. Opening a database establishes it.
-/
import AxenoRelay.QueueStore.Order

namespace AxenoRelay.QueueStore

variable {U : Type} [UuidText U]

/-- The invariant of a store between calls. -/
structure StoreOk (U : Type) [UuidText U] (st : QueueStore) : Prop where
  keys : KeysOk U st.envelopes
  seqs : ∀ k v, st.envelopes.get k = some v → v.s < st.nextSeq
  total : st.totalBytes = diskBytes st.envelopes
  index : ∀ m, NameOk m → st.indexOf m = (countOf m st.envelopes, bytesOf m st.envelopes)

/-! ## Opening -/

theorem scanTotals_eq (l : List (String × StoredValue)) (acc : Nat × Nat × OrdMap String (Nat × Nat)) :
    (l.foldl scanEntry acc).1 = acc.1 + (l.map fun e => len e.2.c).sum ∧
      acc.2.1 ≤ (l.foldl scanEntry acc).2.1 ∧
      (∀ e ∈ l, e.2.s ≤ (l.foldl scanEntry acc).2.1) ∧
      (l.foldl scanEntry acc).2.2 = l.foldl countRow acc.2.2 := by
  induction l generalizing acc with
  | nil => simp
  | cons e l ih =>
    obtain ⟨h1, h2, h3, h4⟩ := ih (scanEntry acc e)
    have hmax : max acc.2.1 e.2.s ≤ (l.foldl scanEntry (scanEntry acc e)).2.1 := h2
    refine ⟨?_, ?_, ?_, h4⟩
    · rw [List.foldl_cons, h1, List.map_cons, List.sum_cons, ← Nat.add_assoc]
      rfl
    · exact (le_max_left _ _).trans hmax
    · intro a ha
      rcases List.mem_cons.mp ha with rfl | ha
      · exact (le_max_right _ _).trans hmax
      · exact h3 a ha

/-- The scan on open makes the RAM side exact. -/
theorem storeOk_ofTable {t : Envelopes} (ht : KeysOk U t) : StoreOk U (QueueStore.ofTable t) := by
  obtain ⟨h1, _, h3, h4⟩ := scanTotals_eq t.entries (0, 0, OrdMap.empty)
  refine ⟨ht, ?_, ?_, ?_⟩
  · intro k v hk
    have hle := h3 (k, v) (OrdMap.get_eq_some_iff.mp hk)
    exact Nat.lt_succ_of_le hle
  · show (t.entries.foldl scanEntry (0, 0, OrdMap.empty)).1 = diskBytes t
    rw [h1, Nat.zero_add]
    rfl
  · intro m _
    show countIn (t.entries.foldl scanEntry (0, 0, OrdMap.empty)).2.2 m = _
    rw [h4]
    exact countIn_table t m

theorem new_txn_run (t : Envelopes) :
    QueueStore.new t [] = .ok (QueueStore.ofTable t, t, []) := by
  have hscan := Txn.each_touch_run DbError.db t.entries t
  simp only [Txn.touch] at hscan
  unfold QueueStore.new
  simp only [Txn.bind_run, Txn.touch, Txn.read, Txn.call, List.tail_nil, id, hscan]
  rfl

theorem new_cases (fs : Faults) (t : Envelopes) :
    (∃ e, QueueStore.new.commit fs t = (.error e, t)) ∨
      QueueStore.new.commit fs t = (.ok (QueueStore.ofTable t), t) := by
  refine Txn.commit_cases ?_ (new_txn_run t) fs
  unfold QueueStore.new
  exact Txn.sound_bind (Txn.sound_touch _) fun _ => Txn.sound_bind (Txn.sound_touch _) fun _ =>
    Txn.sound_bind (Txn.sound_touch _) fun _ => Txn.sound_bind (Txn.sound_touch _) fun _ =>
      Txn.sound_bind (Txn.sound_touch _) fun _ => Txn.sound_bind (Txn.sound_read _ _) fun _ =>
        Txn.sound_bind (Txn.sound_each (fun _ => Txn.sound_touch _) _) fun _ => Txn.sound_pure _

/-! ## `enqueue` -/

/-- The rows an enqueue of `incomingLen` bytes evicts. -/
def victimRows (U : Type) [UuidText U] (m : String) (incomingLen : Nat) (t : Envelopes) :
    List (U × StoredValue) :=
  (queueRows U m t).take (Fifo.evicted (Fits incomingLen) (queueRows U m t))

/-- The store after an enqueue that succeeds. -/
def enqueued (now : Nat) (m : String) (env : StoredEnvelope U) (st : QueueStore) : QueueStore :=
  let victims := victimRows U m (len env.ciphertext) st.envelopes
  let t := enqueueTable m env.id (storedValue now st.nextSeq env) (victims.map Prod.fst) st.envelopes
  (({ st.takeSeq.2 with envelopes := t }.addTotal (len env.ciphertext)).subTotal
    (rowBytes victims)).indexEnqueue m victims.length (rowBytes victims) (len env.ciphertext)

/-- The index entry of a mailbox is not behind the disk. -/
def IndexCovers (st : QueueStore) (m : String) : Prop :=
  countOf m st.envelopes ≤ (st.indexOf m).1 ∧ bytesOf m st.envelopes ≤ (st.indexOf m).2

theorem StoreOk.indexCovers {st : QueueStore} (h : StoreOk U st) {m : String} (hm : NameOk m) :
    IndexCovers st m := by
  unfold IndexCovers
  rw [h.index m hm]
  exact ⟨le_rfl, le_rfl⟩

/-- The index shortcut agrees with the mailbox: when it skips the read, nothing
    would have been evicted. -/
theorem victimRows_of_not_needsEviction {st : QueueStore} (hk : KeysOk U st.envelopes)
    {m : String} (hm : NameOk m) (hi : IndexCovers st m) {incomingLen : Nat}
    (hn : needsEviction (st.indexOf m) incomingLen = false) :
    victimRows U m incomingLen st.envelopes = [] := by
  have hfit : Fits incomingLen (queueRows U m st.envelopes) := by
    obtain ⟨hcount, hbytes⟩ := hi
    unfold needsEviction at hn
    rw [Bool.or_eq_false_iff, decide_eq_false_iff_not, decide_eq_false_iff_not] at hn
    unfold Fits
    rw [length_queueRows hk hm, rowBytes_queueRows hk hm]
    omega
  have h0 : Fifo.evicted (Fits incomingLen) (queueRows U m st.envelopes) = 0 :=
    Nat.le_zero.mp (Fifo.evicted_le_of_fits (by rw [List.drop_zero]; exact hfit))
  rw [victimRows, h0, List.take_zero]

theorem selectVictims_cases {st : QueueStore} (hk : KeysOk U st.envelopes) {m : String}
    (hm : NameOk m) (hi : IndexCovers st m) (rf : Faults) (incomingLen : Nat) :
    (∃ e, selectVictims U rf m incomingLen st = .error e) ∨
      selectVictims U rf m incomingLen st =
        .ok ((victimRows U m incomingLen st.envelopes).map Prod.fst,
          rowBytes (victimRows U m incomingLen st.envelopes)) := by
  unfold selectVictims
  split_ifs with hn
  · rcases readMailbox_cases (U := U) m rf st.envelopes with ⟨e, he⟩ | he
    · left
      exact ⟨e, by rw [he]⟩
    · right
      rw [he]
      exact congrArg Except.ok (chooseVictims_eq incomingLen _)
  · right
    rw [victimRows_of_not_needsEviction hk hm hi (by simpa using hn)]
    rfl

theorem StoreOk.takeSeq {st : QueueStore} (h : StoreOk U st) : StoreOk U st.takeSeq.2 :=
  ⟨h.keys, fun k v hk => (h.seqs k v hk).trans (Nat.lt_succ_self _), h.total, h.index⟩

theorem enqueue_cases {st : QueueStore} (hk : KeysOk U st.envelopes) {m : String} (hm : NameOk m)
    (hi : IndexCovers st m) (now : Nat) (rf wf : Faults) (env : StoredEnvelope U) :
    (∃ e, enqueue now rf wf m env st = (.error e, st.takeSeq.2)) ∨
      enqueue now rf wf m env st =
        (.ok (victimRows U m (len env.ciphertext) st.envelopes).length, enqueued now m env st) := by
  unfold enqueue
  dsimp only
  have hk' : KeysOk U st.takeSeq.2.envelopes := hk
  rcases selectVictims_cases hk' hm hi rf (len env.ciphertext) with
    ⟨e, he⟩ | he
  · left
    exact ⟨e, by rw [he]⟩
  · rw [he]
    dsimp only
    rcases enqueueTxn_cases m env.id (storedValue now st.takeSeq.1 env)
      ((victimRows U m (len env.ciphertext) st.takeSeq.2.envelopes).map Prod.fst) wf
      st.takeSeq.2.envelopes with ⟨e, hw⟩ | hw
    · left
      exact ⟨e, by rw [hw]⟩
    · right
      rw [hw, List.length_map]
      rfl

theorem mem_victimRows {t : Envelopes} (ht : KeysOk U t) {m : String} (hm : NameOk m)
    {incomingLen : Nat} {e : U × StoredValue} (he : e ∈ victimRows U m incomingLen t) :
    t.get (keyFor m e.1) = some e.2 :=
  (mem_queueRows ht hm).mp (List.mem_of_mem_take he)

theorem victimRows_ids_nodup {t : Envelopes} (ht : KeysOk U t) {m : String} (hm : NameOk m)
    (incomingLen : Nat) : ((victimRows U m incomingLen t).map Prod.fst).Nodup := by
  rw [victimRows, List.map_take]
  exact (List.take_sublist _ _).nodup (queueRows_ids_nodup ht hm)

theorem enqueued_envelopes (now : Nat) (m : String) (env : StoredEnvelope U) (st : QueueStore) :
    (enqueued now m env st).envelopes = enqueueTable m env.id (storedValue now st.nextSeq env)
      ((victimRows U m (len env.ciphertext) st.envelopes).map Prod.fst) st.envelopes := rfl

theorem enqueued_totalBytes (now : Nat) (m : String) (env : StoredEnvelope U) (st : QueueStore) :
    (enqueued now m env st).totalBytes = st.totalBytes + len env.ciphertext -
      rowBytes (victimRows U m (len env.ciphertext) st.envelopes) := rfl

theorem enqueued_nextSeq (now : Nat) (m : String) (env : StoredEnvelope U) (st : QueueStore) :
    (enqueued now m env st).nextSeq = st.nextSeq + 1 := rfl

theorem indexOf_enqueued (now : Nat) (m n : String) (env : StoredEnvelope U) (st : QueueStore) :
    (enqueued now m env st).indexOf n =
      if n = m then
        ((st.indexOf m).1 - (victimRows U m (len env.ciphertext) st.envelopes).length + 1,
          (st.indexOf m).2 - rowBytes (victimRows U m (len env.ciphertext) st.envelopes) +
            len env.ciphertext)
      else st.indexOf n := indexOf_indexEnqueue _ m n _ _ _

/-- The rows of a mailbox among rows that are counted twice. -/
def extraOf (m : String) (extra : List (String × StoredValue)) : List (String × StoredValue) :=
  extra.filter fun r => decide (r.1 = m)

/-- The invariant, but for replaced rows that the total and the index still count. -/
structure StoreOver (U : Type) [UuidText U] (extra : List (String × StoredValue))
    (st : QueueStore) : Prop where
  keys : KeysOk U st.envelopes
  seqs : ∀ k v, st.envelopes.get k = some v → v.s < st.nextSeq
  total : st.totalBytes = diskBytes st.envelopes + rowBytes extra
  index : ∀ m, NameOk m → st.indexOf m =
    (countOf m st.envelopes + (extraOf m extra).length,
      bytesOf m st.envelopes + rowBytes (extraOf m extra))

theorem storeOver_nil {st : QueueStore} : StoreOver U [] st ↔ StoreOk U st :=
  ⟨fun h => ⟨h.keys, h.seqs, h.total, h.index⟩, fun h => ⟨h.keys, h.seqs, h.total, h.index⟩⟩

theorem StoreOver.indexCovers {extra : List (String × StoredValue)} {st : QueueStore}
    (h : StoreOver U extra st) {m : String} (hm : NameOk m) : IndexCovers st m := by
  unfold IndexCovers
  rw [h.index m hm]
  exact ⟨Nat.le_add_right _ _, Nat.le_add_right _ _⟩

/-- The row that an enqueue replaces, with its mailbox. -/
def replacedBy (m : String) (env : StoredEnvelope U) (st : QueueStore) :
    List (String × StoredValue) :=
  (replacedRow m env.id ((victimRows U m (len env.ciphertext) st.envelopes).map Prod.fst)
    st.envelopes).toList.map fun v => (m, v)

theorem sum_replacedBy (w : StoredValue → Nat) (m : String) (env : StoredEnvelope U)
    (st : QueueStore) : ((replacedBy m env st).map fun r => w r.2).sum =
      (replacedRow m env.id ((victimRows U m (len env.ciphertext) st.envelopes).map Prod.fst)
        st.envelopes).elim 0 w := by
  unfold replacedBy
  cases replacedRow m env.id _ st.envelopes <;> rfl

/-- An enqueue goes on counting a row it replaces. -/
theorem storeOver_enqueued {extra : List (String × StoredValue)} {st : QueueStore}
    (h : StoreOver U extra st) {m : String} (hm : NameOk m) (now : Nat) (env : StoredEnvelope U) :
    StoreOver U (replacedBy m env st ++ extra) (enqueued now m env st) := by
  have hkeys : KeysOk U (enqueued now m env st).envelopes :=
    (h.keys.eraseAll _).insert hm _ _
  have hnodup := victimRows_ids_nodup h.keys hm (len env.ciphertext)
  have hmem : ∀ e ∈ victimRows U m (len env.ciphertext) st.envelopes,
      st.envelopes.get (keyFor m e.1) = some e.2 := fun e he => mem_victimRows h.keys hm he
  have hlen : len (storedValue now st.nextSeq env).c = len env.ciphertext := rfl
  refine ⟨hkeys, ?_, ?_, ?_⟩
  · intro k v hk
    rw [enqueued_envelopes, enqueueTable, OrdMap.get_insert, OrdMap.get_eraseAll] at hk
    rw [enqueued_nextSeq]
    split_ifs at hk with h1 h2
    · rw [← Option.some.inj hk]
      exact Nat.lt_succ_self st.nextSeq
    · exact (h.seqs k v hk).trans (Nat.lt_succ_self _)
  · have hbytes := diskBytes_enqueueTable hm env.id (storedValue now st.nextSeq env) hnodup hmem
    have hrow := sum_replacedBy (fun v => len v.c) m env st
    rw [← hrow] at hbytes
    rw [enqueued_totalBytes, enqueued_envelopes, h.total, rowBytes_append]
    unfold rowBytes at *
    omega
  · intro n hn
    have hover : extraOf n (replacedBy m env st ++ extra) =
        (if n = m then replacedBy m env st else []) ++ extraOf n extra := by
      unfold extraOf replacedBy
      rw [List.filter_append]
      congr 1
      cases replacedRow m env.id _ st.envelopes <;> by_cases hnm : n = m <;>
        simp [hnm, eq_comm]
    have hcount := mailboxSum_enqueueTable (fun _ => 1) hm n env.id
      (storedValue now st.nextSeq env) hnodup hmem
    have hbytes := mailboxSum_enqueueTable (fun v => len v.c) hm n env.id
      (storedValue now st.nextSeq env) hnodup hmem
    have hvictims : (victimRows U m (len env.ciphertext) st.envelopes).length ≤
        countOf m st.envelopes := by
      rw [← length_queueRows h.keys hm, victimRows, List.length_take]
      exact Nat.min_le_right _ _
    have hfreed : rowBytes (victimRows U m (len env.ciphertext) st.envelopes) ≤
        bytesOf m st.envelopes := by
      rw [← rowBytes_queueRows h.keys hm, victimRows]
      exact (List.Sublist.map _ (List.take_sublist _ _)).sum_le_sum fun _ _ => Nat.zero_le _
    have hones : ∀ {α : Type} (l : List α), (l.map fun _ => 1).sum = l.length := by
      intro α l
      rw [List.map_const', List.sum_replicate, smul_eq_mul, mul_one]
    rw [← sum_replacedBy] at hcount hbytes
    rw [hones, hones] at hcount
    rw [hover, indexOf_enqueued, enqueued_envelopes]
    have hidx := h.index n hn
    unfold countOf bytesOf rowBytes at *
    split_ifs with hnm
    · subst hnm
      rw [if_pos rfl, if_pos rfl] at hcount hbytes
      rw [hidx, List.length_append, List.map_append, List.sum_append, Prod.mk.injEq]
      dsimp only
      omega
    · rw [if_neg hnm, if_neg hnm] at hcount hbytes
      rw [hidx, List.nil_append, Prod.mk.injEq]
      omega

/-- An enqueue with a fresh id keeps the invariant. -/
theorem storeOk_enqueued {st : QueueStore} (h : StoreOk U st) {m : String} (hm : NameOk m)
    (now : Nat) (env : StoredEnvelope U) (hfresh : st.envelopes.get (keyFor m env.id) = none) :
    StoreOk U (enqueued now m env st) := by
  have hover := storeOver_enqueued (storeOver_nil.mpr h) hm now env
  rw [replacedBy, replacedRow_of_fresh _ hfresh] at hover
  exact storeOver_nil.mp hover

section

variable [DecidableEq U]

/-- The queues after the write transaction of an enqueue: an old row under its id goes. -/
theorem queueRows_enqueueTable {t : Envelopes} (ht : KeysOk U t) {m n : String} (hm : NameOk m)
    (hn : NameOk n) {id : U} {v : StoredValue} (hseq : ∀ k w, t.get k = some w → w.s < v.s)
    (incomingLen : Nat) :
    queueRows U n (enqueueTable m id v ((victimRows U m incomingLen t).map Prod.fst) t) =
      if n = m then
        ((queueRows U m t).drop (Fifo.evicted (Fits incomingLen) (queueRows U m t))).filter
          (fun e => decide (e.1 ≠ id)) ++ [(id, v)]
      else queueRows U n t := by
  have hsame : enqueueTable m id v ((victimRows U m incomingLen t).map Prod.fst) t =
      ((t.eraseAll (((victimRows U m incomingLen t).map Prod.fst).map (keyFor m))).eraseAll
        ([id].map (keyFor m))).insert (keyFor m id) v := by
    refine OrdMap.ext_get fun k => ?_
    rw [enqueueTable, OrdMap.get_insert, OrdMap.get_insert, OrdMap.get_eraseAll _ ([id].map _)]
    by_cases hk : k = keyFor m id
    · rw [if_pos hk, if_pos hk]
    · rw [if_neg hk, if_neg hk, if_neg (by simpa using hk)]
  have hkeys := ht.eraseAll (((victimRows U m incomingLen t).map Prod.fst).map (keyFor m))
  have hfresh : ((t.eraseAll (((victimRows U m incomingLen t).map Prod.fst).map (keyFor m))).eraseAll
      ([id].map (keyFor m))).get (keyFor m id) = none := by
    rw [OrdMap.get_eraseAll, if_pos (by simp)]
  have hseq' : ∀ k w, ((t.eraseAll (((victimRows U m incomingLen t).map Prod.fst).map
      (keyFor m))).eraseAll ([id].map (keyFor m))).get k = some w → w.s < v.s := by
    intro k w hk
    rw [OrdMap.get_eraseAll, OrdMap.get_eraseAll] at hk
    split_ifs at hk
    exact hseq k w hk
  have hdrop := Fifo.filter_eq_drop Prod.fst (queueRows_ids_nodup ht hm)
    (Fifo.evicted (Fits incomingLen) (queueRows U m t))
  rw [hsame, queueRows_insert (hkeys.eraseAll _) hm hn hfresh hseq',
    queueRows_eraseAll hkeys hm hm, queueRows_eraseAll hkeys hm hn, if_pos rfl,
    queueRows_eraseAll ht hm hm, queueRows_eraseAll ht hm hn, if_pos rfl, victimRows, hdrop]
  split_ifs
  · congr 1
    refine List.filter_congr fun e _ => decide_eq_decide.mpr ?_
    rw [List.mem_singleton]
  · rfl

/-- Without an old row nothing else goes. -/
theorem queueRows_enqueueTable_fresh {t : Envelopes} (ht : KeysOk U t) {m n : String}
    (hm : NameOk m) (hn : NameOk n) {id : U} {v : StoredValue}
    (hfresh : t.get (keyFor m id) = none) (hseq : ∀ k w, t.get k = some w → w.s < v.s)
    (incomingLen : Nat) :
    queueRows U n (enqueueTable m id v ((victimRows U m incomingLen t).map Prod.fst) t) =
      if n = m then
        (queueRows U m t).drop (Fifo.evicted (Fits incomingLen) (queueRows U m t)) ++ [(id, v)]
      else queueRows U n t := by
  rw [queueRows_enqueueTable ht hm hn hseq, List.filter_eq_self.mpr]
  intro e he
  rw [decide_eq_true_eq]
  rintro rfl
  have hget := (mem_queueRows ht hm).mp (List.mem_of_mem_drop he)
  rw [hfresh] at hget
  cases hget

end

/-! ## `ack`, `purge_mailbox` and `sweep_expired` -/

/-- The store after an ack that succeeds. -/
def acked (m : String) (ids : List U) (st : QueueStore) : QueueStore :=
  let r := ackFold m (0, 0) ids st.envelopes
  let st := { st with envelopes := st.envelopes.eraseAll (ids.map (keyFor m)) }.subTotal r.2
  if 0 < r.1 then st.indexSub m r.1 r.2 else st

theorem ack_cases (fs : Faults) (m : String) (ids : List U) (st : QueueStore) :
    (∃ e, ack fs m ids st = (.error e, st)) ∨
      ack fs m ids st = (.ok (ackFold m (0, 0) ids st.envelopes).1, acked m ids st) := by
  unfold ack
  split_ifs with hids
  · right
    rw [List.isEmpty_iff.mp hids]
    rfl
  · rcases ackTxn_cases m ids fs st.envelopes with ⟨e, he⟩ | he
    · left
      exact ⟨e, by rw [he]⟩
    · right
      rw [he]
      rfl

theorem acked_frame (m : String) (ids : List U) (st : QueueStore) :
    (acked m ids st).envelopes = st.envelopes.eraseAll (ids.map (keyFor m)) ∧
      (acked m ids st).totalBytes = st.totalBytes - (ackFold m (0, 0) ids st.envelopes).2 ∧
      (acked m ids st).nextSeq = st.nextSeq := by
  unfold acked
  dsimp only
  split_ifs
  · exact indexSub_frame _ m _ _
  · exact ⟨rfl, rfl, rfl⟩

/-- Ids that remove no row free no bytes. -/
theorem ackFold_zero {m : String} {ids : List U} {t : Envelopes} {acc : Nat × Nat}
    (h : (ackFold m acc ids t).1 = acc.1) : (ackFold m acc ids t).2 = acc.2 := by
  have hle : ∀ (ids : List U) (acc : Nat × Nat) (t : Envelopes),
      acc.1 ≤ (ackFold m acc ids t).1 := by
    intro ids
    induction ids with
    | nil => exact fun _ _ => le_rfl
    | cons id ids ih =>
      intro acc t
      refine le_trans ?_ (ih (ackDelta m t acc id) _)
      unfold ackDelta
      split <;> omega
  induction ids generalizing acc t with
  | nil => rfl
  | cons id ids ih =>
    have h1 := hle ids (ackDelta m t acc id) (t.erase (keyFor m id))
    have h2 : acc.1 ≤ (ackDelta m t acc id).1 := by
      unfold ackDelta
      split <;> omega
    change (ackFold m (ackDelta m t acc id) ids _).1 = acc.1 at h
    have h3 : (ackDelta m t acc id).1 = acc.1 := by omega
    have h4 : (ackDelta m t acc id).2 = acc.2 := by
      unfold ackDelta at h3 ⊢
      cases hget : t.get (keyFor m id) with
      | none => rfl
      | some v => simp [hget] at h3
    rw [← h4]
    exact ih (h.trans h3.symm)

theorem indexOf_acked (m n : String) (ids : List U) (st : QueueStore) :
    (acked m ids st).indexOf n =
      if n = m then ((st.indexOf m).1 - (ackFold m (0, 0) ids st.envelopes).1,
        (st.indexOf m).2 - (ackFold m (0, 0) ids st.envelopes).2) else st.indexOf n := by
  unfold acked
  dsimp only
  split_ifs with hpos hn hn
  · rw [indexOf_indexSub, if_pos hn]
    rfl
  · rw [indexOf_indexSub, if_neg hn]
    rfl
  · have h0 : (ackFold m (0, 0) ids st.envelopes).1 = 0 := by omega
    rw [h0, ackFold_zero h0, hn]
    rfl
  · rfl

theorem storeOk_acked {st : QueueStore} (h : StoreOk U st) {m : String} (hm : NameOk m)
    (ids : List U) : StoreOk U (acked m ids st) := by
  obtain ⟨henv, htot, hseq⟩ := acked_frame m ids st
  refine ⟨?_, ?_, ?_, ?_⟩
  · rw [henv]
    exact h.keys.eraseAll _
  · intro k v hk
    rw [henv, OrdMap.get_eraseAll] at hk
    rw [hseq]
    split_ifs at hk
    exact h.seqs k v hk
  · have hb := ackFold_bytes m ids (0, 0) st.envelopes
    rw [henv, htot, h.total]
    omega
  · intro n hn
    obtain ⟨hc, hb⟩ := ackFold_balance hm ids (0, 0) st.envelopes n
    rw [indexOf_acked, henv, h.index n hn, h.index m hm]
    by_cases hnm : n = m
    · subst hnm
      simp only [if_true] at hc hb ⊢
      rw [Prod.mk.injEq]
      omega
    · simp only [if_neg hnm] at hc hb ⊢
      rw [Prod.mk.injEq]
      omega

/-- The store after a purge that succeeds. -/
def purged (m : String) (st : QueueStore) : QueueStore :=
  ({ st with envelopes := purgeTable m st.envelopes }.subTotal
    (bytesOf m st.envelopes)).indexRemove m

theorem purgeMailbox_cases {st : QueueStore} (h : KeysOk U st.envelopes) {m : String}
    (hm : NameOk m) (fs : Faults) :
    (∃ e, purgeMailbox fs m st = (.error e, st)) ∨
      purgeMailbox fs m st = (.ok (countOf m st.envelopes), purged m st) := by
  unfold purgeMailbox
  rcases purgeTxn_cases h hm fs with ⟨e, he⟩ | he
  · left
    exact ⟨e, by rw [he]⟩
  · right
    rw [he]
    rfl

theorem storeOk_purged {st : QueueStore} (h : StoreOk U st) (m : String) :
    StoreOk U (purged m st) := by
  refine ⟨h.keys.filter _, ?_, ?_, ?_⟩
  · intro k v hk
    change (OrdMap.filter _ _).get k = some v at hk
    rw [OrdMap.get_filter, Option.filter_eq_some_iff] at hk
    exact h.seqs k v hk.1
  · have hb := purge_bytes m st.envelopes
    show st.totalBytes - bytesOf m st.envelopes = diskBytes (purgeTable m st.envelopes)
    rw [h.total]
    omega
  · intro n hn
    have hc : countOf n (purgeTable m st.envelopes) +
        (if n = m then countOf m st.envelopes else 0) = countOf n st.envelopes :=
      purge_balance m n st.envelopes fun _ => 1
    have hb : bytesOf n (purgeTable m st.envelopes) +
        (if n = m then bytesOf m st.envelopes else 0) = bytesOf n st.envelopes :=
      purge_balance m n st.envelopes fun v => len v.c
    show (indexRemove _ m).indexOf n = (countOf n (purgeTable m st.envelopes),
      bytesOf n (purgeTable m st.envelopes))
    rw [indexOf_indexRemove]
    by_cases hnm : n = m
    · subst hnm
      simp only [if_true] at hc hb ⊢
      rw [Prod.mk.injEq]
      omega
    · simp only [if_neg hnm] at hc hb ⊢
      rw [Nat.add_zero] at hc hb
      rw [hc, hb]
      exact h.index n hn

/-- The store after a sweep that succeeds. -/
def swept (now : Nat) (st : QueueStore) : QueueStore :=
  let r := sweepResult now st.envelopes
  r.2.2.entries.foldl (fun st e => st.indexSub e.1 e.2.1 e.2.2)
    ({ st with envelopes := sweepTable now st.envelopes }.subTotal r.2.1)

theorem sweepExpired_cases (now : Nat) (fs : Faults) (st : QueueStore) :
    (∃ e, sweepExpired now fs st = (.error e, st)) ∨
      sweepExpired now fs st = (.ok (sweepResult now st.envelopes).1, swept now st) := by
  unfold sweepExpired
  rcases sweepTxn_cases now fs st.envelopes with ⟨e, he⟩ | he
  · left
    exact ⟨e, by rw [he]⟩
  · right
    rw [he]
    rfl

theorem swept_frame (now : Nat) (st : QueueStore) :
    (swept now st).envelopes = sweepTable now st.envelopes ∧
      (swept now st).totalBytes = st.totalBytes - diskBytes (sweptRows now st.envelopes) ∧
      (swept now st).nextSeq = st.nextSeq := by
  unfold swept
  dsimp only
  obtain ⟨h1, h2, h3⟩ := foldl_indexSub_frame (sweepResult now st.envelopes).2.2.entries
    ({ st with envelopes := sweepTable now st.envelopes }.subTotal (sweepResult now st.envelopes).2.1)
  exact ⟨h1, h2, h3⟩

theorem indexOf_swept (now : Nat) (st : QueueStore) (n : String) :
    (swept now st).indexOf n = st.indexOf n -
      (countOf n (sweptRows now st.envelopes), bytesOf n (sweptRows now st.envelopes)) := by
  unfold swept
  dsimp only
  rw [indexOf_foldl_indexSub _ (OrdMap.keys_nodup _), ← countIn_table (sweptRows now st.envelopes) n]
  rfl

theorem storeOk_swept {st : QueueStore} (h : StoreOk U st) (now : Nat) :
    StoreOk U (swept now st) := by
  obtain ⟨henv, htot, hseq⟩ := swept_frame now st
  refine ⟨?_, ?_, ?_, ?_⟩
  · rw [henv]
    exact h.keys.filter _
  · intro k v hk
    rw [henv, sweepTable, OrdMap.get_filter, Option.filter_eq_some_iff] at hk
    rw [hseq]
    exact h.seqs k v hk.1
  · have hb := sweep_bytes now st.envelopes
    rw [henv, htot, h.total]
    omega
  · intro n hn
    have hc := sweep_balance now n st.envelopes fun _ => 1
    have hb := sweep_balance now n st.envelopes fun v => len v.c
    rw [indexOf_swept, henv, h.index n hn, Prod.mk_sub_mk, Prod.mk.injEq]
    unfold countOf bytesOf
    omega

end AxenoRelay.QueueStore
