/-
  What the transactions of the file store do to its tables.

  `TablesOk`: transfer ids are accepted ones, every chunk belongs to a transfer on
  disk, and a record's `stored_bytes` is the sum of its chunks. `writeTxn_cases` and
  `deleteTxn_cases` give each transaction two outcomes, nothing changed or `wrote` /
  `deleteTables`; both outcomes keep `TablesOk`.
-/
import Mathlib
import AxenoRelay.Lib.OwnedMap
import AxenoRelay.FileStore.Basic

namespace AxenoRelay.FileStore

open SepKey

/-! ## Keys -/

theorem no_colon {id : String} (h : validBundleId id = true) : ':' ∉ id.toList :=
  (free_of_validBundleId h).not_mem

theorem chunkKey_inj {a b : String} (ha : validBundleId a = true) (hb : validBundleId b = true)
    {i j : Nat} (h : chunkKey a i = chunkKey b j) : a = b ∧ i = j := by
  have hkey := key_inj (no_colon ha) (no_colon hb) h
  exact ⟨hkey.1, Nat.repr_injective hkey.2⟩

/-- The bytes of a transfer's chunks on disk. -/
def chunkBytes (id : String) (t : FileTables) : Nat := ownedSum ':' List.length id t.chunks

def OnDisk (id : String) (t : FileTables) : Prop := (t.fileMeta.get id).isSome = true

instance (id : String) (t : FileTables) : Decidable (OnDisk id t) :=
  inferInstanceAs (Decidable (_ = true))

/-- The chunks of a transfer on disk. -/
def chunkRows (id : String) (t : FileTables) : List (String × Chunk) :=
  t.chunks.range (chunkBounds id).1 (chunkBounds id).2

/-- Nothing of the transfer is on disk. -/
def Gone (id : String) (t : FileTables) : Prop :=
  t.fileMeta.get id = none ∧ chunkRows id t = []

structure TablesOk (t : FileTables) : Prop where
  ids : ∀ id m, t.fileMeta.get id = some m → validBundleId id = true
  chunks : ∀ k v, t.chunks.get k = some v →
    ∃ id i, validBundleId id = true ∧ k = chunkKey id i ∧ OnDisk id t
  stored : ∀ id m, t.fileMeta.get id = some m → m.storedBytes = chunkBytes id t

theorem TablesOk.owned {t : FileTables} (h : TablesOk t) : Owned ':' ';' t.chunks := by
  intro k v hk
  obtain ⟨id, i, hid, rfl, _⟩ := h.chunks k v hk
  exact ⟨id, toString i, free_of_validBundleId hid, rfl⟩

/-- A transfer that is not on disk has no chunks. -/
theorem TablesOk.no_chunks {t : FileTables} (h : TablesOk t) {id : String}
    (hid : validBundleId id = true) (hno : ¬OnDisk id t) (i : Nat) :
    t.chunks.get (chunkKey id i) = none := by
  cases hget : t.chunks.get (chunkKey id i) with
  | none => rfl
  | some v =>
    obtain ⟨id', j, hid', hk, hdisk⟩ := h.chunks _ v hget
    rw [(chunkKey_inj hid hid' hk).1] at hno
    exact absurd hdisk hno

theorem TablesOk.chunkBytes_zero {t : FileTables} (h : TablesOk t) {id : String}
    (hno : ¬OnDisk id t) : chunkBytes id t = 0 := by
  unfold chunkBytes ownedSum
  refine OrdMap.sum_eq_zero fun k v hk => ?_
  obtain ⟨id', j, hid', rfl, hdisk⟩ := h.chunks k v hk
  have hne : id ≠ id' := fun e => hno (e ▸ hdisk)
  exact (ite_key (no_colon hid') id (toString j) v.length).trans (if_neg hne)

theorem prevLen_eq (u : ChunkUpload) (t : FileTables) :
    prevLen u t = (t.chunks.get (chunkKey u.transferId u.chunkIndex)).elim 0 List.length := by
  unfold prevLen
  cases t.chunks.get (chunkKey u.transferId u.chunkIndex) <;> rfl

/-- The stored chunk at this index is part of the transfer's bytes. -/
theorem prevLen_le {u : ChunkUpload} (hu : validBundleId u.transferId = true) (t : FileTables) :
    prevLen u t ≤ chunkBytes u.transferId t := by
  have h := ownedSum_erase List.length (no_colon hu) u.transferId (toString u.chunkIndex) t.chunks
  rw [if_pos rfl] at h
  rw [prevLen_eq]
  exact Nat.le.intro (Nat.add_comm _ _ ▸ h)

/-! ## `write_chunk` -/

/-- The tables after a write that started from metadata `m`. -/
def writeTables (m : FileMeta) (u : ChunkUpload) (t : FileTables) : FileTables :=
  { fileMeta := t.fileMeta.insert u.transferId (grownMeta m (prevLen u t) u)
    chunks := t.chunks.insert (chunkKey u.transferId u.chunkIndex) u.data }

def wrote (m : FileMeta) (u : ChunkUpload) (st : FileStore) : FileStore :=
  { st with
    tables := writeTables m u st.tables
    reservedBytes := st.reservedBytes + (u.data.length - prevLen u st.tables) }

def written (m : FileMeta) (u : ChunkUpload) (t : FileTables) : Written :=
  { receivedChunks := (grownMeta m (prevLen u t) u).receivedChunks
    storedBytes := (grownMeta m (prevLen u t) u).storedBytes
    createdAtMs := (grownMeta m (prevLen u t) u).createdAtMs
    release := prevLen u t - u.data.length }

/-- The metadata a write starts from. -/
def IsBase (now : Nat) (creating : Bool) (u : ChunkUpload) (t : FileTables) (m : FileMeta) : Prop :=
  if creating then m = freshMeta now u else t.fileMeta.get u.transferId = some m

/-- What a write that is accepted has checked. -/
structure Accepts (st : FileStore) (m : FileMeta) (u : ChunkUpload) : Prop where
  declared : newStored m (prevLen u st.tables) u ≤ m.totalBytes
  perFile : newStored m (prevLen u st.tables) u ≤ st.config.maxFileBytes
  budget : prevLen u st.tables < u.data.length →
    st.reservedBytes + (u.data.length - prevLen u st.tables) ≤ st.config.maxTotalFileBytes

theorem baseMeta_ok {now : Nat} {creating : Bool} {u : ChunkUpload} {t t' : FileTables}
    {fs fs' : Faults} {m : FileMeta} (h : baseMeta now creating u t fs = .ok (m, t', fs')) :
    t' = t ∧ IsBase now creating u t m := by
  unfold baseMeta IsBase at *
  cases creating with
  | true =>
    cases h
    exact ⟨rfl, rfl⟩
  | false =>
    obtain ⟨o, s1, fs1, h1, h2⟩ := Txn.bind_eq_ok.mp h
    obtain ⟨ho, hs, _⟩ := Txn.call_ok h1
    cases o with
    | none => cases h2
    | some m' =>
      cases h2
      exact ⟨hs, ho.symm⟩

theorem prepareWrite_ok {cfg : FileConfig} {now : Nat} {creating : Bool} {u : ChunkUpload}
    {t t' : FileTables} {fs fs' : Faults} {m : FileMeta} {prev : Nat}
    (h : prepareWrite cfg now creating u t fs = .ok ((m, prev), t', fs')) :
    t' = t ∧ prev = prevLen u t ∧ IsBase now creating u t m ∧
      newStored m prev u ≤ m.totalBytes ∧ newStored m prev u ≤ cfg.maxFileBytes := by
  obtain ⟨_, s1, fs1, h1, hr1⟩ := Txn.bind_eq_ok.mp h
  obtain ⟨_, s2, fs2, h2, hr2⟩ := Txn.bind_eq_ok.mp hr1
  obtain ⟨_, s3, fs3, h3, hr3⟩ := Txn.bind_eq_ok.mp hr2
  obtain ⟨m', s4, fs4, h4, hr4⟩ := Txn.bind_eq_ok.mp hr3
  obtain ⟨prev', s5, fs5, h5, hr5⟩ := Txn.bind_eq_ok.mp hr4
  obtain ⟨_, rfl, _⟩ := Txn.call_ok h1
  obtain ⟨_, rfl, _⟩ := Txn.call_ok h2
  obtain ⟨_, rfl, _⟩ := Txn.call_ok h3
  obtain ⟨rfl, hbase⟩ := baseMeta_ok h4
  obtain ⟨hprev, rfl, _⟩ := Txn.call_ok h5
  by_cases hbad : m'.totalBytes < newStored m' prev' u ∨ cfg.maxFileBytes < newStored m' prev' u
  · rw [if_pos hbad] at hr5
    cases hr5
  · rw [if_neg hbad] at hr5
    cases hr5
    refine ⟨rfl, hprev, hbase, ?_, ?_⟩ <;> omega

theorem insertChunk_ok {m : FileMeta} {u : ChunkUpload} {t : FileTables} {fs : Faults}
    {r : FileTables} (h : (insertChunk m u).commit fs t = (.ok (), r)) :
    r = { fileMeta := t.fileMeta.insert u.transferId m
          chunks := t.chunks.insert (chunkKey u.transferId u.chunkIndex) u.data } := by
  have hsound : (insertChunk m u).Sound :=
    Txn.sound_bind (Txn.sound_modify _ _) fun _ => Txn.sound_bind (Txn.sound_modify _ _) fun _ =>
      Txn.sound_touch _
  rcases Txn.commit_cases hsound (s := t) (a := ()) rfl fs with ⟨e, he⟩ | he
  · rw [he] at h
    cases h
  · rw [he] at h
    exact (Prod.mk.inj h).2.symm

theorem writeTxn_cases (now : Nat) (fs : Faults) (creating : Bool) (u : ChunkUpload)
    (st : FileStore) :
    (∃ e, writeTxn now fs creating u st = (.error e, st)) ∨
      ∃ m, IsBase now creating u st.tables m ∧ Accepts st m u ∧
        writeTxn now fs creating u st = (.ok (written m u st.tables), wrote m u st) := by
  unfold writeTxn
  cases hprep : prepareWrite st.config now creating u st.tables fs with
  | error e => exact Or.inl ⟨e, rfl⟩
  | ok r =>
    obtain ⟨⟨m, prev⟩, t, fs'⟩ := r
    obtain ⟨rfl, rfl, hbase, hdecl, hfile⟩ := prepareWrite_ok hprep
    dsimp only
    by_cases hlt : prevLen u st.tables < u.data.length
    · simp only [if_pos hlt]
      unfold tryReserveBytes
      by_cases hfull : st.config.maxTotalFileBytes <
          st.reservedBytes + (u.data.length - prevLen u st.tables)
      · left
        exact ⟨.full, by simp only [if_pos hfull]⟩
      · simp only [if_neg hfull]
        cases hins : (insertChunk (grownMeta m (prevLen u st.tables) u) u).commit fs' st.tables with
        | mk r t' =>
          cases r with
          | error e =>
            left
            refine ⟨e, ?_⟩
            simp only [releaseBytes, Nat.add_sub_cancel]
          | ok x =>
            right
            refine ⟨m, hbase, ⟨hdecl, hfile, fun _ => Nat.not_lt.mp hfull⟩, ?_⟩
            rw [insertChunk_ok hins]
            rfl
    · simp only [if_neg hlt]
      cases hins : (insertChunk (grownMeta m (prevLen u st.tables) u) u).commit fs' st.tables with
      | mk r t' =>
        cases r with
        | error e =>
          left
          exact ⟨e, rfl⟩
        | ok x =>
          right
          refine ⟨m, hbase, ⟨hdecl, hfile, fun h => absurd h hlt⟩, ?_⟩
          have h0 : u.data.length - prevLen u st.tables = 0 := by omega
          rw [insertChunk_ok hins, wrote, h0]
          rfl

/-- A write grows the transfer's bytes by what `stored_bytes` grows. -/
theorem chunkBytes_writeTables (m : FileMeta) {u : ChunkUpload}
    (hu : validBundleId u.transferId = true) (t : FileTables) (id : String) :
    chunkBytes id (writeTables m u t) + (if id = u.transferId then prevLen u t else 0) =
      chunkBytes id t + if id = u.transferId then u.data.length else 0 := by
  have h := ownedSum_insert List.length (no_colon hu) id (toString u.chunkIndex) t.chunks u.data
  rw [prevLen_eq]
  exact h

theorem onDisk_writeTables (m : FileMeta) (u : ChunkUpload) (t : FileTables) (id : String) :
    OnDisk id (writeTables m u t) ↔ id = u.transferId ∨ OnDisk id t := by
  unfold OnDisk writeTables
  dsimp only
  rw [OrdMap.get_insert]
  split_ifs with h
  · simp [h]
  · simp [h]

/-- The base of a write holds the bytes of the transfer's chunks. -/
theorem base_stored {t : FileTables} (ht : TablesOk t) {now : Nat} {creating : Bool}
    {u : ChunkUpload} {m : FileMeta} (hb : IsBase now creating u t m)
    (hnew : creating = true → ¬OnDisk u.transferId t) :
    m.storedBytes = chunkBytes u.transferId t := by
  unfold IsBase at hb
  cases creating with
  | true =>
    rw [if_pos rfl] at hb
    rw [hb, ht.chunkBytes_zero (hnew rfl)]
    rfl
  | false => exact ht.stored _ _ hb

/-- The subtraction in `write_chunk` does not wrap. -/
theorem newStored_eq {t : FileTables} {u : ChunkUpload} (hu : validBundleId u.transferId = true)
    {m : FileMeta} (hm : m.storedBytes = chunkBytes u.transferId t) :
    newStored m (prevLen u t) u = m.storedBytes - prevLen u t + u.data.length := by
  have hle := prevLen_le hu t
  rw [newStored, wrapSub, if_pos (by omega)]

theorem tablesOk_write {t : FileTables} (ht : TablesOk t) {u : ChunkUpload}
    (hu : validBundleId u.transferId = true) {m : FileMeta}
    (hm : m.storedBytes = chunkBytes u.transferId t) : TablesOk (writeTables m u t) := by
  refine ⟨?_, ?_, ?_⟩
  · intro id m' hget
    change (t.fileMeta.insert _ _).get id = some m' at hget
    rw [OrdMap.get_insert] at hget
    split_ifs at hget with h
    · rw [h]
      exact hu
    · exact ht.ids id m' hget
  · intro k v hget
    change (t.chunks.insert _ _).get k = some v at hget
    rw [OrdMap.get_insert] at hget
    split_ifs at hget with h
    · exact ⟨u.transferId, u.chunkIndex, hu, h, (onDisk_writeTables m u t _).mpr (Or.inl rfl)⟩
    · obtain ⟨id, i, hid, hk, hdisk⟩ := ht.chunks k v hget
      exact ⟨id, i, hid, hk, (onDisk_writeTables m u t id).mpr (Or.inr hdisk)⟩
  · intro id m' hget
    have hbytes := chunkBytes_writeTables m hu t id
    have hnew := newStored_eq hu hm
    have hle := prevLen_le hu t
    change (t.fileMeta.insert _ _).get id = some m' at hget
    rw [OrdMap.get_insert] at hget
    split_ifs at hget with h
    · have hstored : m'.storedBytes = newStored m (prevLen u t) u := by
        rw [← Option.some.inj hget]
        rfl
      rw [if_pos h, if_pos h] at hbytes
      rw [h] at hbytes ⊢
      omega
    · rw [if_neg h, if_neg h] at hbytes
      rw [ht.stored id m' hget]
      omega

/-! ## `delete_transfer` -/

/-- The tables after a delete that read every chunk of the transfer. -/
def deleteTables (id : String) (t : FileTables) : FileTables :=
  { fileMeta := t.fileMeta.erase id, chunks := t.chunks.filter fun k _ => !ownedBy ':' id k }

theorem readable_nil {α : Type} (l : List α) : readable [] l = l := by
  cases l <;> rfl

theorem eraseChunks_run (l : List String) (t : FileTables) :
    Txn.each (fun k => Txn.modify DbError.db fun t : FileTables =>
        { t with chunks := t.chunks.erase k }) l t [] =
      .ok ((), { t with chunks := t.chunks.eraseAll l }, []) := by
  rw [Txn.each_run (fun k (t : FileTables) => { t with chunks := t.chunks.erase k })]
  congr 2
  induction l generalizing t with
  | nil => rfl
  | cons k l ih => exact ih _

/-- The tables after a delete that skipped the rows in `lost`. -/
def deletedTables (lost : Faults) (id : String) (t : FileTables) : FileTables :=
  { fileMeta := t.fileMeta.erase id
    chunks := t.chunks.eraseAll ((readable lost (chunkRows id t)).map Prod.fst) }

theorem deletedTables_run (lost : Faults) (id : String) (t : FileTables) :
    deleteTxn lost id t [] =
      .ok ((t.fileMeta.get id).map FileMeta.storedBytes, deletedTables lost id t, []) := by
  have hloop := eraseChunks_run
    ((readable lost (t.chunks.range (id ++ ":") (id ++ ";"))).map Prod.fst)
    { t with fileMeta := t.fileMeta.erase id }
  simp only [Txn.modify] at hloop
  unfold deleteTxn chunkBounds
  simp only [Txn.bind_run, Txn.modify, Txn.touch, Txn.read, Txn.call, List.tail_nil, hloop]
  rfl

theorem deletedTables_nil {t : FileTables} (ht : TablesOk t) {id : String}
    (hid : validBundleId id = true) : deletedTables [] id t = deleteTables id t := by
  have hrows : chunkRows id t = t.chunks.entries.filter fun e => ownedBy ':' id e.1 :=
    range_eq_filter colon_succ ht.owned (free_of_validBundleId hid)
  have hchunks := OrdMap.eraseAll_filter t.chunks fun k _ => ownedBy ':' id k
  rw [deletedTables, hrows, readable_nil, hchunks]
  rfl

theorem readable_sublist {α : Type} (lost : Faults) (l : List α) :
    (readable lost l).Sublist l := by
  induction l generalizing lost with
  | nil => cases lost with
    | nil => exact List.Sublist.refl _
    | cons b lost => cases b <;> exact List.Sublist.refl _
  | cons a l ih => cases lost with
    | nil => exact List.Sublist.refl _
    | cons b lost => cases b with
      | false => exact (ih lost).cons_cons a
      | true => exact (ih lost).cons a

/-- A delete that commits leaves nothing exactly if it read every chunk of the transfer. -/
theorem gone_deletedTables (lost : Faults) (id : String) (t : FileTables) :
    Gone id (deletedTables lost id t) ↔ readable lost (chunkRows id t) = chunkRows id t := by
  have hrecord : (deletedTables lost id t).fileMeta.get id = none := by
    change (t.fileMeta.erase id).get id = none
    rw [OrdMap.get_erase, if_pos rfl]
  have hrows : chunkRows id (deletedTables lost id t) = (chunkRows id t).filter
      fun e => decide (e.1 ∉ (readable lost (chunkRows id t)).map Prod.fst) :=
    OrdMap.range_eraseAll _ _ _ _
  have hkeys : ((chunkRows id t).map Prod.fst).Nodup :=
    (OrdMap.keys_nodup t.chunks).sublist (List.filter_sublist.map Prod.fst)
  have hsub := readable_sublist lost (chunkRows id t)
  unfold Gone
  rw [hrows, List.filter_eq_nil_iff, and_iff_right hrecord]
  constructor
  · intro h
    have hmem : (chunkRows id t).map Prod.fst ⊆ (readable lost (chunkRows id t)).map Prod.fst := by
      intro k hk
      obtain ⟨e, he, rfl⟩ := List.mem_map.mp hk
      simpa using h e he
    have hle := (List.subperm_of_subset hkeys hmem).length_le
    rw [List.length_map, List.length_map] at hle
    exact hsub.eq_of_length_le hle
  · intro h e he
    rw [h]
    simpa using ⟨e.2, he⟩

theorem deleteTxn_run {t : FileTables} (ht : TablesOk t) {id : String}
    (hid : validBundleId id = true) :
    deleteTxn [] id t [] =
      .ok ((t.fileMeta.get id).map FileMeta.storedBytes, deleteTables id t, []) := by
  rw [deletedTables_run, deletedTables_nil ht hid]

theorem deleteTxn_sound (lost : Faults) (id : String) : (deleteTxn lost id).Sound :=
  Txn.sound_bind (Txn.sound_touch _) fun _ => Txn.sound_bind (Txn.sound_touch _) fun _ =>
    Txn.sound_bind (Txn.sound_read _ _) fun _ => Txn.sound_bind (Txn.sound_modify _ _) fun _ =>
      Txn.sound_bind (Txn.sound_touch _) fun _ => Txn.sound_bind (Txn.sound_read _ _) fun _ =>
        Txn.sound_bind (Txn.sound_each (fun _ => Txn.sound_modify _ _) _) fun _ =>
          Txn.sound_bind (Txn.sound_touch _) fun _ => Txn.sound_pure _

/-- What `delete_transfer`'s transaction does to any tables. -/
theorem deletedTables_cases (lost fs : Faults) (id : String) (t : FileTables) :
    (∃ e, (deleteTxn lost id).commit fs t = (.error e, t)) ∨
      (deleteTxn lost id).commit fs t =
        (.ok ((t.fileMeta.get id).map FileMeta.storedBytes), deletedTables lost id t) :=
  Txn.commit_cases (deleteTxn_sound lost id) (deletedTables_run lost id t) fs

theorem deleteTxn_cases {t : FileTables} (ht : TablesOk t) {id : String}
    (hid : validBundleId id = true) (fs : Faults) :
    (∃ e, (deleteTxn [] id).commit fs t = (.error e, t)) ∨
      (deleteTxn [] id).commit fs t =
        (.ok ((t.fileMeta.get id).map FileMeta.storedBytes), deleteTables id t) :=
  Txn.commit_cases (deleteTxn_sound [] id) (deleteTxn_run ht hid) fs

/-- A delete keeps just the chunks of the other transfers. -/
theorem get_deleteTables {j : String} (hj : validBundleId j = true) (id : String) (i : Nat)
    (t : FileTables) : (deleteTables id t).chunks.get (chunkKey j i) =
      if j = id then none else t.chunks.get (chunkKey j i) := by
  have howned : ownedBy ':' id (chunkKey j i) = decide (j = id) :=
    ownedBy_key (no_colon hj) id (toString i)
  change (t.chunks.filter _).get _ = _
  rw [OrdMap.get_filter, howned]
  split_ifs with h
  · simp [h]
  · cases hv : t.chunks.get (chunkKey j i) <;> simp [h]

theorem onDisk_deleteTables (id j : String) (t : FileTables) :
    OnDisk j (deleteTables id t) ↔ j ≠ id ∧ OnDisk j t := by
  unfold OnDisk deleteTables
  dsimp only
  rw [OrdMap.get_erase]
  split_ifs with h
  · simp [h]
  · simp [h]

theorem tablesOk_delete {t : FileTables} (ht : TablesOk t) (id : String) :
    TablesOk (deleteTables id t) := by
  refine ⟨?_, ?_, ?_⟩
  · intro j m hget
    change (t.fileMeta.erase id).get j = some m at hget
    rw [OrdMap.get_erase] at hget
    split_ifs at hget
    exact ht.ids j m hget
  · intro k v hget
    change (t.chunks.filter _).get k = some v at hget
    rw [OrdMap.get_filter, Option.filter_eq_some_iff] at hget
    obtain ⟨j, i, hj, hk, hdisk⟩ := ht.chunks k v hget.1
    refine ⟨j, i, hj, hk, (onDisk_deleteTables id j t).mpr ⟨?_, hdisk⟩⟩
    intro hji
    have howned := hget.2
    rw [hk, hji] at howned
    have htrue : ownedBy ':' id (chunkKey id i) = true := by
      refine (ownedBy_key (no_colon (hji ▸ hj)) id (toString i)).trans ?_
      simp
    rw [htrue] at howned
    cases howned
  · intro j m hget
    change (t.fileMeta.erase id).get j = some m at hget
    rw [OrdMap.get_erase] at hget
    split_ifs at hget with h
    have hsplit := ownedSum_filter (c := ':') List.length j t.chunks fun k _ => ownedBy ':' id k
    rw [ownedSum_ownedBy, if_neg h, Nat.add_zero] at hsplit
    rw [ht.stored j m hget]
    exact hsplit.symm

end AxenoRelay.FileStore
