/-
  What a call that fails leaves behind.

  A chunk that `store_chunk` rejects leaves the store as it was, whichever of its steps
  failed (`rejected_leaves_no_trace`). The calls that remove rows either change nothing
  or remove all they are responsible for, with the counters (`RowsRemoved`,
  `TransferRemoved`). `delete_transfer` alone drops the errors of its range: it keeps to
  this exactly if it fails or reads every chunk (`removal_whole_iff`).
-/
import AxenoRelay.FileStore.Accounting
import AxenoRelay.FileStore.Complete
import AxenoRelay.QueueStore.Invariant

namespace AxenoRelay

namespace FileStore

/-! ## A rejected chunk -/

/-- **A rejected chunk leaves no trace.** -/
theorem rejected_leaves_no_trace {claimed written : Nat} {fs : Faults} {u : ChunkUpload}
    {st : FileStore} {r : FileReject} (h : (storeChunk claimed written fs u st).1 = .error r) :
    (storeChunk claimed written fs u st).2 = st := by
  rcases storeChunk_cases claimed written fs u st with ⟨r', heq⟩ | ⟨_, _, _, st', -, -, -, -, -, -, heq⟩
  · rw [heq]
  · rw [heq] at h
    cases h

/-- A creation whose commit fails. -/
theorem rejected_leaves_no_trace_sample :
    (storeChunk 5 6 [false, false, false, false, false, false, true]
      ⟨sampleTransfer, 0, 2, 4, [1, 2]⟩ sampleOpened).2 = sampleOpened :=
  rejected_leaves_no_trace (r := .full) (by decide +kernel)

/-! ## Deleting a transfer -/

/-- The counters are those of the tables. -/
structure Balanced (st : FileStore) : Prop where
  reserved : st.reservedBytes = diskStored st.tables
  count : st.transferCount = st.tables.fileMeta.size

/-- The transfer is gone, and its slot and bytes are released; the others are as they were. -/
structure TransferRemoved (id : TransferId) (st st' : FileStore) : Prop where
  gone : Gone id st'.tables
  records : ∀ j ≠ (id : String), st'.tables.fileMeta.get j = st.tables.fileMeta.get j
  chunks : ∀ (j : TransferId), j ≠ id → ∀ i,
    st'.tables.chunks.get (chunkKey j i) = st.tables.chunks.get (chunkKey j i)
  cache : st'.cache = st.cache.erase id
  bytes : st'.reservedBytes + chunkBytes id st.tables = st.reservedBytes
  slots : st'.transferCount + onDisk id st.tables = st.transferCount
  anew : ∀ u : ChunkUpload, u.transferId = id → prevLen u st'.tables = 0

/-- A delete that fails changes nothing, and one that succeeds removes all. -/
def RemovesTransfer (id : TransferId) (st : FileStore)
    (r : Except DbError Bool × FileStore) : Prop :=
  match r.1 with
  | .error _ => r.2 = st
  | .ok _ => TransferRemoved id st r.2

/-- The database calls of a delete: one for each chunk it read, and seven others. -/
def deleteCalls (lost : Faults) (id : String) (t : FileTables) : Nat :=
  7 + (readable lost (chunkRows id t)).length

theorem deleteTxn_calls (lost : Faults) (id : String) (t : FileTables) :
    Txn.CallsAt t (deleteCalls lost id t) (deleteTxn lost id) := by
  have hone : ∀ {α : Type} (f : FileTables → α × FileTables) (s : FileTables),
      Txn.CallsAt s 1 (Txn.call DbError.db f) := fun f s => (Txn.calls_call _ f).at s
  have hrows : ∀ s, Txn.CallsAt s (readable lost (chunkRows id t)).length
      (Txn.each (fun k => Txn.modify DbError.db fun t : FileTables =>
        { t with chunks := t.chunks.erase k }) ((readable lost (chunkRows id t)).map Prod.fst)) := by
    intro s
    have hcalls := Txn.calls_each (fun k => Txn.calls_call DbError.db fun t : FileTables =>
      ((), { t with chunks := t.chunks.erase k })) ((readable lost (chunkRows id t)).map Prod.fst)
    rw [List.length_map] at hcalls
    exact hcalls.at s
  have hcount : deleteCalls lost id t =
      1 + (1 + (1 + (1 + (1 + (1 + ((readable lost (chunkRows id t)).length + (1 + 0))))))) := by
    unfold deleteCalls
    omega
  rw [hcount]
  unfold deleteTxn
  refine Txn.callsAt_bind (hone _ _) (Txn.sound_touch _) rfl ?_
  refine Txn.callsAt_bind (hone _ _) (Txn.sound_touch _) rfl ?_
  refine Txn.callsAt_bind (hone _ _) (Txn.sound_read _ _) rfl ?_
  refine Txn.callsAt_bind (hone _ _) (Txn.sound_modify _ _) rfl ?_
  refine Txn.callsAt_bind (hone _ _) (Txn.sound_touch _) rfl ?_
  refine Txn.callsAt_bind (hone _ _) (Txn.sound_read _ _) rfl ?_
  refine Txn.callsAt_bind (hrows _) (Txn.sound_each (fun _ => Txn.sound_modify _ _) _)
    (eraseChunks_run _ _) ?_
  exact Txn.callsAt_bind (hone _ _) (Txn.sound_touch _) rfl ((Txn.calls_pure _).at _)

/-- A delete fails just if one of its calls does. -/
theorem deleteTransfer_counted (fs lost : Faults) (id : String) (st : FileStore) :
    (true ∈ fs.take (deleteCalls lost id st.tables) ∧
      ∃ e, deleteTransfer fs lost id st = (.error e, st)) ∨
    (true ∉ fs.take (deleteCalls lost id st.tables) ∧
      deleteTransfer fs lost id st =
        match st.tables.fileMeta.get id with
        | none => (.ok false, { st with tables := deletedTables lost id st.tables })
        | some m => (.ok true, (({ st with tables := deletedTables lost id st.tables }.uncache
            id).releaseSlot).releaseBytes m.storedBytes)) := by
  unfold deleteTransfer
  rcases (deleteTxn_calls lost id st.tables).commit_cases (deleteTxn_sound lost id)
    (deletedTables_run lost id st.tables) fs with ⟨hf, e, he⟩ | ⟨hf, hr⟩
  · exact Or.inl ⟨hf, e, by rw [he]⟩
  · refine Or.inr ⟨hf, ?_⟩
    rw [hr]
    cases st.tables.fileMeta.get id <;> rfl

/-- A delete that reads every chunk removes the transfer. -/
theorem transferRemoved_delete {st st' : FileStore} (hs : Settled st)
    {id : TransferId} (htables : st'.tables = deleteTables id st.tables)
    (hcache : st'.cache = st.cache.erase id)
    (hbytes : st'.reservedBytes + chunkBytes id st.tables = st.reservedBytes)
    (hslots : st'.transferCount + onDisk id st.tables = st.transferCount) :
    TransferRemoved id st st' := by
  have hgone : Gone id st'.tables := by
    rw [htables, ← deletedTables_nil hs.tables id.2, gone_deletedTables, readable_nil]
  have hchunks : ∀ (j : TransferId) i, st'.tables.chunks.get (chunkKey j i) =
      if (j : String) = id then none else st.tables.chunks.get (chunkKey j i) := by
    intro j i
    rw [htables]
    exact get_deleteTables j.2 id i st.tables
  refine ⟨hgone, fun j hj => ?_, fun j hj i => ?_, hcache, hbytes, hslots, fun u hu => ?_⟩
  · rw [htables]
    exact (OrdMap.get_erase _ _ _).trans (if_neg hj)
  · rw [hchunks, if_neg fun e => hj (Subtype.ext e)]
  · rw [prevLen_eq, hu, hchunks, if_pos rfl]
    rfl

theorem deleteTransfer_whole_iff {st : FileStore} (hs : Settled st) (hb : Balanced st)
    (fs lost : Faults) (id : TransferId) :
    RemovesTransfer id st (deleteTransfer fs lost id st) ↔
      true ∈ fs.take (deleteCalls lost id st.tables) ∨
        readable lost (chunkRows id st.tables) = chunkRows id st.tables := by
  rcases deleteTransfer_counted fs lost id st with ⟨hf, e, he⟩ | ⟨hf, hr⟩
  · rw [he]
    exact iff_of_true rfl (Or.inl hf)
  · rw [or_iff_right hf, hr]
    have hgone := gone_deletedTables lost id st.tables
    constructor
    · intro h
      cases hm : st.tables.fileMeta.get (id : String) with
      | none =>
        rw [hm] at h
        exact hgone.mp h.gone
      | some m =>
        rw [hm] at h
        exact hgone.mp h.gone
    · intro hread
      have htables : deletedTables lost id st.tables = deleteTables id st.tables := by
        rw [← deletedTables_nil hs.tables id.2, deletedTables, deletedTables, hread, readable_nil]
      cases hm : st.tables.fileMeta.get (id : String) with
      | none =>
        have hoff : ¬OnDisk id st.tables := by simp [OnDisk, hm]
        refine transferRemoved_delete hs htables ?_ ?_ ?_
        · exact (OrdMap.erase_of_get_none (hs.no_record.mpr hm)).symm
        · rw [hs.tables.chunkBytes_zero hoff]
          rfl
        · rw [onDisk, if_neg hoff]
          rfl
      | some m =>
        have hon : OnDisk id st.tables := by simp [OnDisk, hm]
        have hstored := hs.tables.stored id m hm
        have hdisk := diskStored_delete hs.tables (id : String)
        have hsize := size_delete (id : String) st.tables
        have hreserved := hb.reserved
        have hcount := hb.count
        rw [onDisk, if_pos hon] at hsize
        refine transferRemoved_delete hs htables rfl ?_ ?_
        · change st.reservedBytes - m.storedBytes + _ = _
          omega
        · rw [onDisk, if_pos hon]
          change fetchSubOne st.transferCount + 1 = _
          rw [fetchSubOne, if_neg (by omega)]
          omega

end FileStore

/-! ## Removing envelopes -/

namespace QueueStore

variable {U : Type} [UuidText U]

/-- The rows that `P` says are gone, with what the counters had for them. -/
structure RowsRemoved (P : String → StoredValue → Prop) (st st' : QueueStore) : Prop where
  gone : ∀ k v, st.envelopes.get k = some v → P k v → st'.envelopes.get k = none
  kept : ∀ k, (∀ v, st.envelopes.get k = some v → ¬P k v) →
    st'.envelopes.get k = st.envelopes.get k
  bytes : st'.totalBytes + diskBytes st.envelopes = st.totalBytes + diskBytes st'.envelopes
  index : ∀ m, NameOk m →
    (st'.indexOf m).1 + countOf m st.envelopes = (st.indexOf m).1 + countOf m st'.envelopes ∧
      (st'.indexOf m).2 + bytesOf m st.envelopes = (st.indexOf m).2 + bytesOf m st'.envelopes

/-- A call that fails changes nothing, and one that succeeds removes the rows of `P`. -/
def RemovesRows (P : String → StoredValue → Prop) (st : QueueStore)
    (r : Except DbError Nat × QueueStore) : Prop :=
  match r.1 with
  | .error _ => r.2 = st
  | .ok _ => RowsRemoved P st r.2

/-- Exact counters before and after differ by what was removed. -/
theorem rowsRemoved_of_storeOk {P : String → StoredValue → Prop} {st st' : QueueStore}
    (h : StoreOk U st) (h' : StoreOk U st')
    (hgone : ∀ k v, st.envelopes.get k = some v → P k v → st'.envelopes.get k = none)
    (hkept : ∀ k, (∀ v, st.envelopes.get k = some v → ¬P k v) →
      st'.envelopes.get k = st.envelopes.get k) : RowsRemoved P st st' := by
  refine ⟨hgone, hkept, ?_, fun m hm => ?_⟩
  · rw [h.total, h'.total, Nat.add_comm]
  · rw [h.index m hm, h'.index m hm]
    exact ⟨Nat.add_comm _ _, Nat.add_comm _ _⟩

/-- The rows an ack is responsible for. -/
def Acked (m : String) (ids : List U) (k : String) (_ : StoredValue) : Prop :=
  k ∈ ids.map (keyFor m)

theorem ack_whole {st : QueueStore} (h : StoreOk U st) {m : String} (hm : NameOk m)
    (fs : Faults) (ids : List U) : RemovesRows (Acked m ids) st (ack fs m ids st) := by
  rcases ack_cases fs m ids st with ⟨e, he⟩ | he
  · rw [he]
    exact rfl
  · rw [he]
    have hget : ∀ k, (acked m ids st).envelopes.get k =
        if k ∈ ids.map (keyFor m) then none else st.envelopes.get k := by
      intro k
      rw [(acked_frame m ids st).1, OrdMap.get_eraseAll]
    refine rowsRemoved_of_storeOk h (storeOk_acked h hm ids) ?_ ?_
    · intro k v _ hk
      rw [hget]
      exact if_pos hk
    · intro k hk
      rw [hget]
      split_ifs with hmem
      · cases hv : st.envelopes.get k with
        | none => rfl
        | some v => exact absurd hmem (hk v hv)
      · rfl

/-- The rows of a mailbox. -/
def InMailbox (m : String) (k : String) (_ : StoredValue) : Prop := parseMailbox k = some m

theorem get_filter_kept {t : Envelopes} {p : String → StoredValue → Bool} {k : String}
    (h : ∀ v, t.get k = some v → p k v = true) : (t.filter p).get k = t.get k := by
  rw [OrdMap.get_filter]
  cases hv : t.get k with
  | none => rfl
  | some v => exact if_pos (h v hv)

theorem get_filter_gone {t : Envelopes} {p : String → StoredValue → Bool} {k : String}
    {v : StoredValue} (hv : t.get k = some v) (h : p k v = false) : (t.filter p).get k = none := by
  rw [OrdMap.get_filter, hv]
  exact if_neg (by simp [h])

theorem purge_whole {st : QueueStore} (h : StoreOk U st) {m : String} (hm : NameOk m)
    (fs : Faults) : RemovesRows (InMailbox m) st (purgeMailbox fs m st) := by
  have hin : ∀ k v, inMailbox m k = true ↔ InMailbox m k v := fun k _ => decide_eq_true_iff
  rcases purgeMailbox_cases h.keys hm fs with ⟨e, he⟩ | he
  · rw [he]
    exact rfl
  · rw [he]
    refine rowsRemoved_of_storeOk h (storeOk_purged h m) ?_ ?_
    · intro k v hv hk
      exact get_filter_gone hv (by rw [(hin k v).mpr hk]; rfl)
    · intro k hk
      refine get_filter_kept fun v hv => ?_
      rw [Bool.not_eq_true', Bool.eq_false_iff]
      exact fun hp => hk v hv ((hin k v).mp hp)

/-- The rows queued before the cutoff. -/
def Stale (now : Nat) (_ : String) (v : StoredValue) : Prop := v.q < cutoff now

theorem sweep_whole {st : QueueStore} (h : StoreOk U st) (now : Nat) (fs : Faults) :
    RemovesRows (Stale now) st (sweepExpired now fs st) := by
  rcases sweepExpired_cases now fs st with ⟨e, he⟩ | he
  · rw [he]
    exact rfl
  · rw [he]
    have henv := (swept_frame now st).1
    refine rowsRemoved_of_storeOk h (storeOk_swept h now) ?_ ?_
    · intro k v hv hk
      rw [henv]
      refine get_filter_gone hv ?_
      rw [not_isExpired]
      exact decide_eq_false (Nat.not_le.mpr hk)
    · intro k hk
      rw [henv]
      refine get_filter_kept fun v hv => ?_
      rw [not_isExpired]
      exact decide_eq_true (Nat.le_of_not_lt (hk v hv))

end QueueStore

/-! ## All or nothing -/

section

variable {U : Type} [UuidText U]

/-- The calls that remove rows. -/
inductive Removal (U : Type) where
  | delete (lost : Faults) (id : FileStore.TransferId)
  | ack (m : {m : String // QueueStore.NameOk m}) (ids : List U)
  | purge (m : {m : String // QueueStore.NameOk m})
  | sweep (now : Nat)

/-- Does the call, with the failures `fs`, change nothing or remove all it has to? -/
def AllOrNothing (fs : Faults) (f : FileStore) (q : QueueStore) : Removal U → Prop
  | .delete lost id => FileStore.RemovesTransfer id f (FileStore.deleteTransfer fs lost id f)
  | .ack m ids => QueueStore.RemovesRows (QueueStore.Acked m.1 ids) q (QueueStore.ack fs m ids q)
  | .purge m => QueueStore.RemovesRows (QueueStore.InMailbox m.1) q (QueueStore.purgeMailbox fs m q)
  | .sweep now => QueueStore.RemovesRows (QueueStore.Stale now) q (QueueStore.sweepExpired now fs q)

/-- No delete commits without having read every chunk row. -/
def ReadsAll (fs : Faults) (f : FileStore) : Removal U → Prop
  | .delete lost id => true ∈ fs.take (FileStore.deleteCalls lost id f.tables) ∨
      FileStore.readable lost (FileStore.chunkRows id f.tables) = FileStore.chunkRows id f.tables
  | _ => True

/-- **Removal is all or nothing**, just if no delete skips a chunk row and commits. -/
theorem removal_whole_iff {f : FileStore} (hs : FileStore.Settled f) (hb : FileStore.Balanced f)
    {q : QueueStore} (hq : QueueStore.StoreOk U q) (fs : Faults) (c : Removal U) :
    AllOrNothing fs f q c ↔ ReadsAll fs f c := by
  cases c with
  | delete lost id => exact FileStore.deleteTransfer_whole_iff hs hb fs lost id
  | ack m ids => exact iff_of_true (QueueStore.ack_whole hq m.2 fs ids) trivial
  | purge m => exact iff_of_true (QueueStore.purge_whole hq m.2 fs) trivial
  | sweep now => exact iff_of_true (QueueStore.sweep_whole hq now fs) trivial

end

/-- The store with the first of two chunks. -/
def FileStore.halfStored : FileStore :=
  (FileStore.storeChunk 5 6 [] ⟨FileStore.sampleTransfer, 0, 2, 4, [1, 2]⟩ FileStore.sampleOpened).2

theorem FileStore.halfStored_ok : Settled halfStored ∧ Balanced halfStored :=
  ⟨(storeChunk_spec (kept_empty sampleConfig).settled 5 6 []
      (u := ⟨sampleTransfer, 0, 2, 4, [1, 2]⟩) sampleTransfer.2).1,
    ⟨by decide +kernel, by decide +kernel⟩⟩

theorem QueueStore.emptied_ok : StoreOk SampleUuid (QueueStore.ofTable OrdMap.empty) :=
  storeOk_ofTable keysOk_empty

/-- The transfer is deleted with its chunk. -/
theorem removal_whole_sample : AllOrNothing [] FileStore.halfStored
    (QueueStore.ofTable OrdMap.empty) (.delete [] FileStore.sampleTransfer : Removal SampleUuid) :=
  (removal_whole_iff FileStore.halfStored_ok.1 FileStore.halfStored_ok.2 QueueStore.emptied_ok [] _).mpr
    (Or.inr (FileStore.readable_nil _))

/-- The one chunk cannot be read: the record is deleted, and the chunk stays for the next
    transfer with this id to subtract. -/
theorem chunk_left_behind : ¬∀ (f : FileStore) (q : QueueStore) (fs : Faults)
    (c : Removal SampleUuid), FileStore.Settled f → FileStore.Balanced f →
    QueueStore.StoreOk SampleUuid q → AllOrNothing fs f q c := by
  intro hall
  have hwhole := hall FileStore.halfStored _ [] (.delete [true] FileStore.sampleTransfer)
    FileStore.halfStored_ok.1 FileStore.halfStored_ok.2 QueueStore.emptied_ok
  have hanew := (show FileStore.TransferRemoved _ _ _ from hwhole).anew
    ⟨FileStore.sampleTransfer, 0, 2, 4, [1]⟩ rfl
  exact absurd hanew (by decide +kernel)

end AxenoRelay
