/-
  What the four write transactions and the scan do.

  `*_run` is a transaction with no failing call; `*_cases` adds the failures, and
  has only two cases: nothing changed, or the run without failures. What a
  transaction takes from a mailbox is stated as a balance of `mailboxSum`, so that
  a proof about counters needs no list of removed rows.
-/
import AxenoRelay.QueueStore.Rows

namespace AxenoRelay.QueueStore

open SepKey

variable {U : Type} [UuidText U]

/-! ## Weights under table updates -/

theorem inMailbox_ite {m : String} (n : String) (hm : NameOk m) (id : U) (x : Nat) :
    (if inMailbox n (keyFor m id) = true then x else 0) = if n = m then x else 0 :=
  ite_key hm.no_colon n (UuidText.display id) x

theorem diskBytes_insert {t : Envelopes} {k : String} (v : StoredValue) (hfresh : t.get k = none) :
    diskBytes (t.insert k v) = diskBytes t + len v.c := by
  have h := OrdMap.sum_insert t (fun _ v => len v.c) k v
  rw [hfresh] at h
  exact h

theorem mailboxSum_erase (w : StoredValue → Nat) {m n : String} (hm : NameOk m) (t : Envelopes)
    (id : U) :
    mailboxSum w n (t.erase (keyFor m id)) +
      (if n = m then (t.get (keyFor m id)).elim 0 w else 0) = mailboxSum w n t :=
  ownedSum_erase w hm.no_colon n (UuidText.display id) t

/-- All rows of the range of `m`, by weight. -/
theorem mailboxSum_inMailbox (w : StoredValue → Nat) (m n : String) (t : Envelopes) :
    mailboxSum w n (t.filter fun k _ => inMailbox m k) = if n = m then mailboxSum w m t else 0 :=
  ownedSum_ownedBy w m n t

theorem diskBytes_erase (t : Envelopes) (k : String) :
    diskBytes (t.erase k) + (t.get k).elim 0 (fun v => len v.c) = diskBytes t :=
  OrdMap.sum_erase t (fun _ v => len v.c) k

theorem diskBytes_filter (t : Envelopes) (p : String → StoredValue → Bool) :
    diskBytes (t.filter fun k v => !p k v) + diskBytes (t.filter p) = diskBytes t := by
  rw [Nat.add_comm]
  exact OrdMap.sum_filter_add t _ p

/-! ## `enqueue` -/

/-- The table after `enqueue`'s transaction. -/
def enqueueTable (m : String) (id : U) (v : StoredValue) (evictIds : List U) (t : Envelopes) :
    Envelopes :=
  (t.eraseAll (evictIds.map (keyFor m))).insert (keyFor m id) v

theorem enqueueTxn_run (m : String) (id : U) (v : StoredValue) (evictIds : List U)
    (t : Envelopes) :
    enqueueTxn m id v evictIds t [] = .ok ((), enqueueTable m id v evictIds t, []) := by
  have hfold : evictIds.foldl (fun t v => t.erase (keyFor m v)) t =
      t.eraseAll (evictIds.map (keyFor m)) := by
    rw [OrdMap.eraseAll, List.foldl_map]
  have hloop := Txn.each_run (fun v (t : Envelopes) => t.erase (keyFor m v)) DbError.db evictIds t
  rw [hfold] at hloop
  unfold enqueueTxn
  simp only [Txn.bind_run, Txn.touch, Txn.call, List.tail_nil, hloop]
  rfl

theorem enqueueTxn_sound (m : String) (id : U) (v : StoredValue) (evictIds : List U) :
    (enqueueTxn m id v evictIds).Sound :=
  Txn.sound_bind (Txn.sound_touch _) fun _ => Txn.sound_bind (Txn.sound_touch _) fun _ =>
    Txn.sound_bind (Txn.sound_each (fun _ => Txn.sound_modify _ _) _) fun _ =>
      Txn.sound_bind (Txn.sound_modify _ _) fun _ => Txn.sound_touch _

theorem enqueueTxn_cases (m : String) (id : U) (v : StoredValue) (evictIds : List U)
    (fs : Faults) (t : Envelopes) :
    (∃ e, (enqueueTxn m id v evictIds).commit fs t = (.error e, t)) ∨
      (enqueueTxn m id v evictIds).commit fs t = (.ok (), enqueueTable m id v evictIds t) :=
  Txn.commit_cases (enqueueTxn_sound m id v evictIds) (enqueueTxn_run m id v evictIds t) fs

/-! ## `ack` -/

/-- What one id of `ack` adds to the rows removed and the bytes freed. -/
def ackDelta (m : String) (t : Envelopes) (acc : Nat × Nat) (id : U) : Nat × Nat :=
  (if (t.get (keyFor m id)).isSome then acc.1 + 1 else acc.1,
    acc.2 + (t.get (keyFor m id)).elim 0 fun v => len v.c)

/-- Rows removed and bytes freed by `ack`, beyond `acc`. -/
def ackFold (m : String) : Nat × Nat → List U → Envelopes → Nat × Nat
  | acc, [], _ => acc
  | acc, id :: ids, t => ackFold m (ackDelta m t acc id) ids (t.erase (keyFor m id))

theorem ackOne_run (m : String) (acc : Nat × Nat) (id : U) (t : Envelopes) :
    ackOne m acc id t [] = .ok (ackDelta m t acc id, t.erase (keyFor m id), []) := rfl

theorem ackFold_run (m : String) (ids : List U) (acc : Nat × Nat) (t : Envelopes) :
    Txn.fold (ackOne m) acc ids t [] =
      .ok (ackFold m acc ids t, t.eraseAll (ids.map (keyFor m)), []) := by
  induction ids generalizing acc t with
  | nil => rfl
  | cons id ids ih =>
    show (ackOne m acc id >>= fun b => Txn.fold (ackOne m) b ids) t [] = _
    rw [Txn.bind_run, ackOne_run]
    exact ih _ _

theorem ackTxn_run (m : String) (ids : List U) (t : Envelopes) :
    ackTxn m ids t [] = .ok (ackFold m (0, 0) ids t, t.eraseAll (ids.map (keyFor m)), []) := by
  unfold ackTxn
  simp only [Txn.bind_run, Txn.touch, Txn.call, List.tail_nil, ackFold_run]
  rfl

theorem ackTxn_sound (m : String) (ids : List U) : (ackTxn m ids).Sound :=
  Txn.sound_bind (Txn.sound_touch _) fun _ => Txn.sound_bind (Txn.sound_touch _) fun _ =>
    Txn.sound_bind (Txn.sound_fold (fun _ _ => Txn.sound_bind (Txn.sound_read _ _) fun _ =>
      Txn.sound_bind (Txn.sound_call _ _) fun _ => Txn.sound_pure _) _ _) fun _ =>
        Txn.sound_bind (Txn.sound_touch _) fun _ => Txn.sound_pure _

theorem ackTxn_cases (m : String) (ids : List U) (fs : Faults) (t : Envelopes) :
    (∃ e, (ackTxn m ids).commit fs t = (.error e, t)) ∨
      (ackTxn m ids).commit fs t =
        (.ok (ackFold m (0, 0) ids t), t.eraseAll (ids.map (keyFor m))) :=
  Txn.commit_cases (ackTxn_sound m ids) (ackTxn_run m ids t) fs

/-- What `ack` reports is what leaves mailbox `m`, and nothing leaves another. -/
theorem ackFold_balance {m : String} (hm : NameOk m) (ids : List U) (acc : Nat × Nat)
    (t : Envelopes) (n : String) :
    countOf n (t.eraseAll (ids.map (keyFor m))) +
        (if n = m then (ackFold m acc ids t).1 else acc.1) = countOf n t + acc.1 ∧
      bytesOf n (t.eraseAll (ids.map (keyFor m))) +
        (if n = m then (ackFold m acc ids t).2 else acc.2) = bytesOf n t + acc.2 := by
  induction ids generalizing acc t with
  | nil => simp [ackFold, OrdMap.eraseAll]
  | cons id ids ih =>
    obtain ⟨h1, h2⟩ := ih (ackDelta m t acc id) (t.erase (keyFor m id))
    have hc := mailboxSum_erase (fun _ => 1) (n := n) hm t id
    have hb := mailboxSum_erase (fun v => len v.c) (n := n) hm t id
    have hdelta : (ackDelta m t acc id).1 =
        acc.1 + (t.get (keyFor m id)).elim 0 fun _ => 1 := by
      unfold ackDelta
      cases t.get (keyFor m id) <;> rfl
    have hdelta2 : (ackDelta m t acc id).2 =
        acc.2 + (t.get (keyFor m id)).elim 0 fun v => len v.c := rfl
    simp only [OrdMap.eraseAll, List.map_cons, List.foldl_cons, ackFold, countOf, bytesOf]
      at h1 h2 hc hb ⊢
    by_cases hnm : n = m
    · simp only [if_pos hnm] at h1 h2 hc hb ⊢
      omega
    · simp only [if_neg hnm] at h1 h2 hc hb ⊢
      omega

theorem ackFold_bytes (m : String) (ids : List U) (acc : Nat × Nat) (t : Envelopes) :
    diskBytes (t.eraseAll (ids.map (keyFor m))) + (ackFold m acc ids t).2 =
      diskBytes t + acc.2 := by
  induction ids generalizing acc t with
  | nil => rfl
  | cons id ids ih =>
    have h := ih (ackDelta m t acc id) (t.erase (keyFor m id))
    have hb := diskBytes_erase t (keyFor m id)
    have hdelta : (ackDelta m t acc id).2 =
        acc.2 + (t.get (keyFor m id)).elim 0 fun v => len v.c := rfl
    simp only [OrdMap.eraseAll, List.map_cons, List.foldl_cons, ackFold] at h ⊢
    omega

/-! ## `purge_mailbox` -/

theorem range_weight {t : Envelopes} (ht : KeysOk U t) {m : String} (hm : NameOk m)
    (w : StoredValue → Nat) :
    ((t.range (mailboxBounds m).1 (mailboxBounds m).2).map fun e => w e.2).sum =
      mailboxSum w m t := sum_range colon_succ ht.owned hm.free w

/-- The table after `purge_mailbox`'s transaction. -/
def purgeTable (m : String) (t : Envelopes) : Envelopes := t.filter fun k _ => !inMailbox m k

/-- Erasing rows, one call each. -/
theorem eraseEach_run (rows : List (String × StoredValue)) (t : Envelopes) :
    Txn.each (fun e => Txn.modify DbError.db fun t : Envelopes => t.erase e.1) rows t [] =
      .ok ((), t.eraseAll (rows.map Prod.fst), []) := by
  have h := Txn.each_run (fun e (t : Envelopes) => t.erase e.1) DbError.db rows t
  rw [OrdMap.eraseAll, List.foldl_map]
  exact h

/-- Erasing the entries that satisfy `p`, one call each. -/
theorem eraseRows_run (p : String → StoredValue → Bool) (t : Envelopes) :
    Txn.each (fun e => Txn.modify DbError.db fun t : Envelopes => t.erase e.1)
        (t.entries.filter fun e => p e.1 e.2) t [] =
      .ok ((), t.filter fun k v => !p k v, []) := by
  rw [eraseEach_run, OrdMap.eraseAll_filter]

/-- A mailbox's rows. -/
def rowsOf (m : String) (t : Envelopes) : List (String × StoredValue) :=
  t.range (mailboxBounds m).1 (mailboxBounds m).2

/-- `purge_mailbox` erases the rows between the bounds, whatever their keys are. -/
theorem purgedRows_run (m : String) (t : Envelopes) :
    purgeTxn m t [] = .ok (((rowsOf m t).length, ((rowsOf m t).map fun e => len e.2.c).sum),
      t.eraseAll ((rowsOf m t).map Prod.fst), []) := by
  have hscan := Txn.each_touch_run DbError.db (rowsOf m t) t
  have hloop := eraseEach_run (rowsOf m t) t
  simp only [Txn.touch, Txn.modify, rowsOf, mailboxBounds] at hscan hloop ⊢
  unfold purgeTxn mailboxBounds
  simp only [Txn.bind_run, Txn.modify, Txn.touch, Txn.read, Txn.call, List.tail_nil, id, hscan,
    hloop, Txn.pure_run]

theorem purgeTxn_run {t : Envelopes} (ht : KeysOk U t) {m : String} (hm : NameOk m) :
    purgeTxn m t [] = .ok ((countOf m t, bytesOf m t), purgeTable m t, []) := by
  have hrows : rowsOf m t = t.entries.filter fun e => inMailbox m e.1 := range_eq_filter ht hm
  have htable := OrdMap.eraseAll_filter t fun k _ => inMailbox m k
  have hcount : (rowsOf m t).length = countOf m t := by
    have h := range_weight ht hm fun _ => 1
    rw [List.map_const', List.sum_replicate, smul_eq_mul, mul_one] at h
    exact h
  have hbytes : ((rowsOf m t).map fun e => len e.2.c).sum = bytesOf m t :=
    range_weight ht hm fun v => len v.c
  rw [purgedRows_run, hcount, hbytes, hrows, htable]
  rfl

theorem purgeTxn_sound (m : String) : (purgeTxn m).Sound :=
  Txn.sound_bind (Txn.sound_touch _) fun _ => Txn.sound_bind (Txn.sound_touch _) fun _ =>
    Txn.sound_bind (Txn.sound_read _ _) fun _ =>
      Txn.sound_bind (Txn.sound_each (fun _ => Txn.sound_touch _) _) fun _ =>
        Txn.sound_bind (Txn.sound_each (fun _ => Txn.sound_modify _ _) _) fun _ =>
          Txn.sound_bind (Txn.sound_touch _) fun _ => Txn.sound_pure _

theorem purgeTxn_cases {t : Envelopes} (ht : KeysOk U t) {m : String} (hm : NameOk m)
    (fs : Faults) :
    (∃ e, (purgeTxn m).commit fs t = (.error e, t)) ∨
      (purgeTxn m).commit fs t = (.ok (countOf m t, bytesOf m t), purgeTable m t) :=
  Txn.commit_cases (purgeTxn_sound m) (purgeTxn_run ht hm) fs

/-- A purge that commits leaves no row of the mailbox; one that fails leaves them all. -/
theorem rowsOf_purge (m : String) (fs : Faults) (t : Envelopes) :
    (∃ e, (purgeTxn m).commit fs t = (.error e, t)) ∨
      ∃ r, ((purgeTxn m).commit fs t).1 = .ok r ∧ rowsOf m ((purgeTxn m).commit fs t).2 = [] := by
  rcases Txn.commit_cases (purgeTxn_sound m) (purgedRows_run m t) fs with he | he
  · exact Or.inl he
  · right
    rw [he]
    refine ⟨_, rfl, ?_⟩
    dsimp only
    rw [rowsOf, OrdMap.range_eraseAll, List.filter_eq_nil_iff]
    intro e hmem
    simpa using ⟨e.2, hmem⟩

theorem purge_balance (m n : String) (t : Envelopes) (w : StoredValue → Nat) :
    mailboxSum w n (purgeTable m t) + (if n = m then mailboxSum w m t else 0) =
      mailboxSum w n t := by
  rw [← mailboxSum_inMailbox w m n t]
  exact ownedSum_filter w n t fun k _ => inMailbox m k

theorem purge_bytes (m : String) (t : Envelopes) :
    diskBytes (purgeTable m t) + bytesOf m t = diskBytes t := by
  have h := diskBytes_filter t fun k _ => inMailbox m k
  have hb : diskBytes (t.filter fun k _ => inMailbox m k) = bytesOf m t := by
    have h1 := mailboxSum_inMailbox (fun v => len v.c) m m t
    rw [if_pos rfl] at h1
    rw [bytesOf, ← h1]
    refine OrdMap.sum_congr (g := fun k (v : StoredValue) =>
      if inMailbox m k then len v.c else 0) ?_
    intro k v hk
    rw [OrdMap.get_filter, Option.filter_eq_some_iff] at hk
    exact (if_pos hk.2).symm
  rw [← hb]
  exact h

/-! ## Counting rows -/

/-- A mailbox's entry of a count map, `(0, 0)` if it has none. -/
def countIn (acc : OrdMap String (Nat × Nat)) (m : String) : Nat × Nat := (acc.get m).getD (0, 0)

/-- What one row counts for mailbox `m`. -/
def rowCount (m : String) (e : String × StoredValue) : Nat × Nat :=
  if inMailbox m e.1 then (1, len e.2.c) else (0, 0)

theorem countIn_countRow (acc : OrdMap String (Nat × Nat)) (e : String × StoredValue)
    (m : String) : countIn (countRow acc e) m = countIn acc m + rowCount m e := by
  unfold countRow rowCount inMailbox countIn
  cases hp : parseMailbox e.1 with
  | none => simp
  | some n =>
    by_cases hn : n = m
    · simp [hn, Prod.add_def]
    · simp [hn, Ne.symm hn]

theorem countIn_foldl (l : List (String × StoredValue)) (acc : OrdMap String (Nat × Nat))
    (m : String) :
    countIn (l.foldl countRow acc) m = countIn acc m + (l.map (rowCount m)).sum := by
  induction l generalizing acc with
  | nil => simp
  | cons e l ih =>
    rw [List.foldl_cons, ih, countIn_countRow, List.map_cons, List.sum_cons, add_assoc]

theorem rowCount_sum (m : String) (l : List (String × StoredValue)) :
    (l.map (rowCount m)).sum =
      ((l.map fun e => if inMailbox m e.1 then 1 else 0).sum,
        (l.map fun e => if inMailbox m e.1 then len e.2.c else 0).sum) := by
  induction l with
  | nil => rfl
  | cons e l ih =>
    rw [List.map_cons, List.sum_cons, ih, rowCount]
    split_ifs with h <;> simp [h]

/-- Counting a table's rows gives every mailbox its totals. -/
theorem countIn_table (t : Envelopes) (m : String) :
    countIn (t.entries.foldl countRow OrdMap.empty) m = (countOf m t, bytesOf m t) := by
  rw [countIn_foldl, rowCount_sum]
  simp only [countIn, OrdMap.get_empty, Option.getD_none, Prod.mk_add_mk, Nat.zero_add]
  rfl

/-! ## `sweep_expired` -/

def isExpired (now : Nat) (v : StoredValue) : Bool := decide (v.q < cutoff now)

theorem not_isExpired (now : Nat) (v : StoredValue) :
    (!isExpired now v) = decide (cutoff now ≤ v.q) := by
  unfold isExpired
  rw [← decide_not]
  exact decide_eq_decide.mpr Nat.not_lt

/-- The rows `sweep_expired` removes, and the table after it. -/
def sweptRows (now : Nat) (t : Envelopes) : Envelopes := t.filter fun _ v => isExpired now v

def sweepTable (now : Nat) (t : Envelopes) : Envelopes := t.filter fun _ v => !isExpired now v

/-- What `sweep_expired` counted. -/
def sweepResult (now : Nat) (t : Envelopes) : Nat × Nat × OrdMap String (Nat × Nat) :=
  ((sweptRows now t).size, diskBytes (sweptRows now t),
    (sweptRows now t).entries.foldl countRow OrdMap.empty)

theorem sweepTxn_run (now : Nat) (t : Envelopes) :
    sweepTxn now t [] = .ok (sweepResult now t, sweepTable now t, []) := by
  have hscan := Txn.each_touch_run DbError.db t.entries t
  have hloop := eraseRows_run (fun _ v => isExpired now v) t
  simp only [Txn.touch] at hscan
  simp only [Txn.modify] at hloop
  unfold sweepTxn
  simp only [Txn.bind_run, Txn.modify, Txn.touch, Txn.read, Txn.call, List.tail_nil, id, hscan,
    Txn.pure_run]
  unfold expiredRows
  simp only [isExpired] at hloop
  rw [hloop]
  rfl

theorem sweepTxn_sound (now : Nat) : (sweepTxn now).Sound :=
  Txn.sound_bind (Txn.sound_touch _) fun _ => Txn.sound_bind (Txn.sound_touch _) fun _ =>
    Txn.sound_bind (Txn.sound_read _ _) fun _ =>
      Txn.sound_bind (Txn.sound_each (fun _ => Txn.sound_touch _) _) fun _ =>
        Txn.sound_bind (Txn.sound_each (fun _ => Txn.sound_modify _ _) _) fun _ =>
          Txn.sound_bind (Txn.sound_touch _) fun _ => Txn.sound_pure _

theorem sweepTxn_cases (now : Nat) (fs : Faults) (t : Envelopes) :
    (∃ e, (sweepTxn now).commit fs t = (.error e, t)) ∨
      (sweepTxn now).commit fs t = (.ok (sweepResult now t), sweepTable now t) :=
  Txn.commit_cases (sweepTxn_sound now) (sweepTxn_run now t) fs

theorem sweep_balance (now : Nat) (n : String) (t : Envelopes) (w : StoredValue → Nat) :
    mailboxSum w n (sweepTable now t) + mailboxSum w n (sweptRows now t) = mailboxSum w n t :=
  ownedSum_filter w n t fun _ v => isExpired now v

theorem sweep_bytes (now : Nat) (t : Envelopes) :
    diskBytes (sweepTable now t) + diskBytes (sweptRows now t) = diskBytes t :=
  diskBytes_filter t fun _ v => isExpired now v

/-! ## Reading -/

theorem readMailbox_run (m : String) (t : Envelopes) :
    readMailbox U m t [] = .ok (sortBySeq (mailboxRows U m t), t, []) := by
  have hscan := Txn.each_touch_run DbError.db (t.range (m ++ ":") (m ++ ";")) t
  simp only [Txn.touch] at hscan
  unfold readMailbox mailboxBounds
  simp only [Txn.bind_run, Txn.touch, Txn.read, Txn.call, List.tail_nil, id, hscan]
  rfl

theorem readMailbox_sound (m : String) : (readMailbox U m).Sound :=
  Txn.sound_bind (Txn.sound_touch _) fun _ => Txn.sound_bind (Txn.sound_touch _) fun _ =>
    Txn.sound_bind (Txn.sound_read _ _) fun _ =>
      Txn.sound_bind (Txn.sound_each (fun _ => Txn.sound_touch _) _) fun _ => Txn.sound_pure _

theorem readMailbox_cases (m : String) (fs : Faults) (t : Envelopes) :
    (∃ e, (readMailbox U m).commit fs t = (.error e, t)) ∨
      (readMailbox U m).commit fs t = (.ok (sortBySeq (mailboxRows U m t)), t) :=
  Txn.commit_cases (readMailbox_sound m) (readMailbox_run m t) fs

theorem flush_cases (m : String) (fs : Faults) (t : Envelopes) :
    (∃ e, (flush U m).commit fs t = (.error e, t)) ∨
      (flush U m).commit fs t =
        (.ok ((sortBySeq (mailboxRows U m t)).map (toEnvelope m)), t) := by
  refine Txn.commit_cases (Txn.sound_bind (readMailbox_sound m) fun _ => Txn.sound_pure _) ?_ fs
  rw [Txn.bind_run, readMailbox_run]
  rfl

/-- `is_empty` answers yes only if the range is empty, and says so if nothing fails. -/
theorem isEmpty_ok {m : String} {fs : Faults} {t : Envelopes} {b : Bool}
    (h : ((isEmpty m).commit fs t).1 = .ok b) :
    ∃ readable, b = (readable && (t.range (m ++ ":") (m ++ ";")).isEmpty) ∧
      (fs = [] → readable = true) := by
  unfold Txn.commit at h
  split at h
  · rename_i a s' fs' hok
    obtain rfl : a = b := Except.ok.inj h
    obtain ⟨_, s1, fs1, h1, hok⟩ := Txn.bind_eq_ok.mp hok
    obtain ⟨_, s2, fs2, h2, hok⟩ := Txn.bind_eq_ok.mp hok
    obtain ⟨t3, s3, fs3, h3, hok⟩ := Txn.bind_eq_ok.mp hok
    obtain ⟨readable, s4, fs4, h4, hok⟩ := Txn.bind_eq_ok.mp hok
    obtain ⟨_, hs1, hf1⟩ := Txn.call_ok h1
    obtain ⟨_, hs2, hf2⟩ := Txn.call_ok h2
    obtain ⟨ht3, _, hf3⟩ := Txn.call_ok h3
    refine ⟨readable, ?_, ?_⟩
    · rw [Txn.pure_run] at hok
      have hval := (Prod.mk.injEq _ _ _ _ ▸ Except.ok.inj hok).1
      rw [← hval, ht3, hs2, hs1]
      rfl
    · intro hfs
      rw [hf3, hf2, hf1, hfs] at h4
      exact ((Prod.mk.injEq _ _ _ _ ▸ Except.ok.inj h4).1).symm
  · cases h

/-! ## The index -/

theorem indexOf_indexEnqueue (st : QueueStore) (m n : String) (k b i : Nat) :
    (st.indexEnqueue m k b i).indexOf n =
      if n = m then ((st.indexOf m).1 - k + 1, (st.indexOf m).2 - b + i) else st.indexOf n := by
  unfold indexEnqueue indexOf
  dsimp only
  rw [OrdMap.get_insert]
  split_ifs <;> rfl

theorem indexOf_indexSub (st : QueueStore) (m n : String) (c b : Nat) :
    (st.indexSub m c b).indexOf n =
      if n = m then ((st.indexOf m).1 - c, (st.indexOf m).2 - b) else st.indexOf n := by
  unfold indexSub indexOf
  cases h : st.index.get m with
  | none =>
    dsimp only
    split_ifs with hn
    · rw [hn, h]
      simp
    · rfl
  | some e =>
    dsimp only
    rw [OrdMap.get_insert]
    split_ifs <;> rfl

theorem indexOf_indexRemove (st : QueueStore) (m n : String) :
    (st.indexRemove m).indexOf n = if n = m then (0, 0) else st.indexOf n := by
  unfold indexRemove indexOf
  dsimp only
  rw [OrdMap.get_erase]
  split_ifs <;> rfl

theorem indexSub_frame (st : QueueStore) (m : String) (c b : Nat) :
    (st.indexSub m c b).envelopes = st.envelopes ∧
      (st.indexSub m c b).totalBytes = st.totalBytes ∧
      (st.indexSub m c b).nextSeq = st.nextSeq := by
  unfold indexSub
  split <;> exact ⟨rfl, rfl, rfl⟩

/-- The index updates of `sweep_expired` leave the rest of the store alone. -/
theorem foldl_indexSub_frame (l : List (String × Nat × Nat)) (st : QueueStore) :
    (l.foldl (fun st e => st.indexSub e.1 e.2.1 e.2.2) st).envelopes = st.envelopes ∧
      (l.foldl (fun st e => st.indexSub e.1 e.2.1 e.2.2) st).totalBytes = st.totalBytes ∧
      (l.foldl (fun st e => st.indexSub e.1 e.2.1 e.2.2) st).nextSeq = st.nextSeq := by
  induction l generalizing st with
  | nil => exact ⟨rfl, rfl, rfl⟩
  | cons e l ih =>
    have h := ih (st.indexSub e.1 e.2.1 e.2.2)
    have hf := indexSub_frame st e.1 e.2.1 e.2.2
    exact ⟨h.1.trans hf.1, h.2.1.trans hf.2.1, h.2.2.trans hf.2.2⟩

/-- Each mailbox loses what the count map has for it. -/
theorem indexOf_foldl_indexSub (l : List (String × Nat × Nat)) (hl : (l.map Prod.fst).Nodup)
    (st : QueueStore) (n : String) :
    (l.foldl (fun st e => st.indexSub e.1 e.2.1 e.2.2) st).indexOf n =
      st.indexOf n - (OrdMap.Raw.find n l).getD (0, 0) := by
  induction l generalizing st with
  | nil => rfl
  | cons e l ih =>
    obtain ⟨m, c, b⟩ := e
    obtain ⟨hm, hl⟩ := List.nodup_cons.mp hl
    rw [List.foldl_cons, ih hl, indexOf_indexSub]
    simp only [OrdMap.Raw.find]
    split_ifs with hn
    · have hnone : OrdMap.Raw.find n l = none := by
        refine OrdMap.Raw.find_eq_none fun p hp e => hm ?_
        exact List.mem_map.mpr ⟨p, hp, e.trans hn⟩
      rw [hnone, hn]
      rfl
    · rfl

/-! ## One row after each transaction -/

theorem mem_map_keyFor {m n : String} (hm : NameOk m) (hn : NameOk n) (ids : List U) (x : U) :
    keyFor n x ∈ ids.map (keyFor m) ↔ n = m ∧ x ∈ ids := by
  rw [List.mem_map]
  constructor
  · rintro ⟨y, hy, he⟩
    obtain ⟨rfl, rfl⟩ := keyFor_inj hm hn he
    exact ⟨rfl, hy⟩
  · rintro ⟨rfl, hx⟩
    exact ⟨x, hx, rfl⟩

section

variable [DecidableEq U]

theorem get_ackTable {m n : String} (hm : NameOk m) (hn : NameOk n) (ids : List U) (x : U)
    (t : Envelopes) :
    (t.eraseAll (ids.map (keyFor m))).get (keyFor n x) =
      if n = m ∧ x ∈ ids then none else t.get (keyFor n x) := by
  rw [OrdMap.get_eraseAll]
  exact if_congr (mem_map_keyFor hm hn ids x) rfl rfl

theorem get_enqueueTable {m n : String} (hm : NameOk m) (hn : NameOk n) (id : U) (v : StoredValue)
    (ids : List U) (x : U) (t : Envelopes) :
    (enqueueTable m id v ids t).get (keyFor n x) =
      if n = m ∧ x = id then some v else if n = m ∧ x ∈ ids then none
      else t.get (keyFor n x) := by
  have hkey : keyFor n x = keyFor m id ↔ n = m ∧ x = id := by
    constructor
    · exact keyFor_inj hn hm
    · rintro ⟨rfl, rfl⟩
      rfl
  rw [enqueueTable, OrdMap.get_insert, get_ackTable hm hn]
  exact if_congr hkey rfl rfl

end

theorem get_purgeTable (m : String) {n : String} (hn : NameOk n) (x : U) (t : Envelopes) :
    (purgeTable m t).get (keyFor n x) = if n = m then none else t.get (keyFor n x) := by
  rw [purgeTable, OrdMap.get_filter, inMailbox_keyFor hn]
  by_cases h : n = m
  · rw [if_pos h]
    simp [h]
  · rw [if_neg h]
    cases t.get (keyFor n x) <;> simp [h]

theorem get_sweepTable (now : Nat) (k : String) (t : Envelopes) :
    (sweepTable now t).get k = (t.get k).filter fun v => !isExpired now v := by
  rw [sweepTable, OrdMap.get_filter]

end AxenoRelay.QueueStore
