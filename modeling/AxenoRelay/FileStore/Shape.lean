/-
  The shape of a transfer and of its chunks.

  `store_chunk` compares the shape of an upload with the cache, and `fetch_chunk`
  takes the shape from there; the chunk itself is written or read in a later
  transaction. If the record on disk then still has that shape (`ShapeHolds`), every
  chunk on disk was uploaded under its record's shape and every fetch returns the
  shape its data was uploaded under (`shapes_hold`). A transfer deleted and created
  again in between with another shape breaks it (`shape_broken`).
-/
import AxenoRelay.FileStore.Cache

namespace AxenoRelay

open Interleave FileStore FileTask SepKey

/-- `u` is the upload of chunk `v` at index `i` of `id`, under the shape of record `d`. -/
structure UploadedAs (id : String) (i : Nat) (v : Chunk) (d : FileMeta) (u : ChunkUpload) :
    Prop where
  transfer : u.transferId = id
  index : u.chunkIndex = i
  data : u.data = v
  chunks : u.totalChunks = d.totalChunks
  bytes : u.totalBytes = d.totalBytes
  lt : i < d.totalChunks

/-- Every chunk on disk was uploaded under the shape of its transfer's record. -/
def ShapeOk (w : FileWorld) : Prop :=
  ∀ id i v, validBundleId id = true → w.store.tables.chunks.get (chunkKey id i) = some v →
    ∃ d u, w.store.tables.fileMeta.get id = some d ∧ w.origin.get (chunkKey id i) = some u ∧
      UploadedAs id i v d u

/-- Every fetch returned the data of an upload, with its shape. -/
def FetchesOk (w : FileWorld) : Prop :=
  ∀ p ∈ w.fetches, ∃ u, p.2 = some u ∧ p.1.data = u.data ∧ p.1.totalChunks = u.totalChunks ∧
    p.1.totalBytes = u.totalBytes

/-- The record on disk, if there is one, has the shape that the call saw in the cache. -/
def ShapeHolds (t : FileTables) : FileTask → Prop
  | storeWrite u false => ∀ d ∈ t.fileMeta.get u.transferId,
      d.totalChunks = u.totalChunks ∧ d.totalBytes = u.totalBytes
  | fetchRead id _ m => ∀ d ∈ t.fileMeta.get id,
      d.totalChunks = m.totalChunks ∧ d.totalBytes = m.totalBytes
  | _ => True

instance (t : FileTables) (u : FileTask) : Decidable (ShapeHolds t u) := by
  unfold ShapeHolds
  split <;> infer_instance

/-- A move that reads every row it deletes, and writes and reads under the shape it saw. -/
def Shaped (c : FileConfigs) (m : Move FileMove) : Prop :=
  Readable c m ∧ match m with
    | .act i _ => ∀ t ∈ c.pool[i]?, ShapeHolds c.shared.store.tables t
    | _ => True

instance (c : FileConfigs) : ∀ m, Decidable (Shaped c m)
  | .act _ _ => @instDecidableAnd _ _ _ (decidableForallSome _ _)
  | .spawn _ | .env _ => @instDecidableAnd _ _ _ (isTrue trivial)

/-- An upload past the shape check is within its own shape. -/
def InRange : FileTask → Prop
  | storeSlot u | storeWrite u _ => u.chunkIndex < u.totalChunks
  | _ => True

theorem Stepped.inRange {e : StoreEvent} {t t' : FileTask} {st st' : FileStore}
    (h : Stepped e t st t' st') (hr : InRange t) : InRange t' := by
  cases h with
  | join u m st hu => exact hu
  | claim u st hu => exact hu
  | slot u st => exact hr
  | writeFailed u creating r => cases creating <;> trivial
  | write u creating m =>
    unfold afterWrite
    split_ifs <;> trivial
  | delFailed i k r => cases k <;> trivial
  | delNone i k => cases k <;> trivial
  | delBytes i b k => cases k <;> trivial
  | _ => trivial

structure ShapeInv (c : FileConfigs) : Prop where
  range : ∀ t ∈ c.pool, InRange t
  shapes : ShapeOk c.shared
  fetches : FetchesOk c.shared

theorem originAfter_write (u : ChunkUpload) (creating : Bool) (w : Written)
    (o : OrdMap String ChunkUpload) :
    originAfter (storeWrite u creating) (afterWrite u w) o =
      o.insert (chunkKey u.transferId u.chunkIndex) u := by
  unfold afterWrite
  split_ifs <;> rfl

theorem originAfter_failure (u : ChunkUpload) (creating : Bool) (r : FileReject)
    (o : OrdMap String ChunkUpload) :
    originAfter (storeWrite u creating) (afterFailure u creating r) o = o := by
  cases creating <;> rfl

/-- The record after an accepted write has the shape of the upload. -/
theorem grown_shape {now : Nat} {creating : Bool} {u : ChunkUpload} {t : FileTables}
    {m : FileMeta} (hb : IsBase now creating u t m)
    (hshape : ShapeHolds t (storeWrite u creating)) :
    m.totalChunks = u.totalChunks ∧ m.totalBytes = u.totalBytes := by
  unfold IsBase at hb
  cases creating with
  | true =>
    rw [if_pos rfl] at hb
    rw [hb]
    exact ⟨rfl, rfl⟩
  | false => exact hshape m hb

theorem shapeOk_write {w : FileWorld} (hw : ShapeOk w) (ht : TablesOk w.store.tables)
    {now : Nat} {creating : Bool} {u : ChunkUpload} {m : FileMeta}
    (hu : validBundleId u.transferId = true)
    (hb : IsBase now creating u w.store.tables m) (hrange : u.chunkIndex < u.totalChunks)
    (hnew : creating = true → ¬OnDisk u.transferId w.store.tables)
    (hshape : ShapeHolds w.store.tables (storeWrite u creating))
    {f : List (FetchedChunk × Option ChunkUpload)} :
    ShapeOk ⟨wrote m u w.store, w.origin.insert (chunkKey u.transferId u.chunkIndex) u, f⟩ := by
  obtain ⟨hchunks, hbytes⟩ := grown_shape hb hshape
  intro id i v hid hv
  change (w.store.tables.chunks.insert _ _).get _ = some v at hv
  rw [OrdMap.get_insert] at hv
  by_cases hkey : chunkKey id i = chunkKey u.transferId u.chunkIndex
  · rw [if_pos hkey] at hv
    obtain ⟨rfl, rfl⟩ := chunkKey_inj hid hu hkey
    refine ⟨grownMeta m (prevLen u w.store.tables) u, u, ?_, ?_, ?_⟩
    · exact (OrdMap.get_insert _ _ _ _).trans (if_pos rfl)
    · exact (OrdMap.get_insert _ _ _ _).trans (if_pos rfl)
    · refine ⟨rfl, rfl, Option.some.inj hv, hchunks.symm, hbytes.symm, ?_⟩
      change u.chunkIndex < m.totalChunks
      omega
  · rw [if_neg hkey] at hv
    obtain ⟨d, x, hd, hx, hup⟩ := hw id i v hid hv
    have horigin := (OrdMap.get_insert w.origin (chunkKey u.transferId u.chunkIndex)
      (chunkKey id i) u).trans (if_neg hkey)
    by_cases heq : id = u.transferId
    · cases creating with
      | true =>
        have hnone := ht.no_chunks hid (heq ▸ hnew rfl) i
        rw [hnone] at hv
        cases hv
      | false =>
        have hdm : d = m := by
          have hm : w.store.tables.fileMeta.get u.transferId = some m := hb
          rw [heq, hm] at hd
          exact (Option.some.inj hd).symm
        subst hdm
        refine ⟨grownMeta d (prevLen u w.store.tables) u, x, ?_, horigin.trans hx, ?_⟩
        · exact (OrdMap.get_insert _ _ _ _).trans (if_pos heq)
        · exact ⟨hup.transfer, hup.index, hup.data, hup.chunks, hup.bytes, hup.lt⟩
    · refine ⟨d, x, ?_, horigin.trans hx, hup⟩
      exact ((OrdMap.get_insert _ _ _ _).trans (if_neg heq)).trans hd

theorem shapeOk_delete {w : FileWorld} (hw : ShapeOk w) (j : String)
    {f : List (FetchedChunk × Option ChunkUpload)} :
    ShapeOk ⟨{ w.store with tables := deleteTables j w.store.tables }, w.origin, f⟩ := by
  intro id i v hid hv
  change (w.store.tables.chunks.filter _).get _ = some v at hv
  rw [OrdMap.get_filter, Option.filter_eq_some_iff] at hv
  obtain ⟨d, u, hd, hu, hup⟩ := hw id i v hid hv.1
  have hne : id ≠ j := by
    intro heq
    have howned : ownedBy ':' j (chunkKey id i) = true := by
      refine (ownedBy_key (no_colon hid) j (toString i)).trans ?_
      simp [heq]
    have hkept := hv.2
    rw [howned] at hkept
    cases hkept
  refine ⟨d, u, ?_, hu, hup⟩
  exact ((OrdMap.get_erase _ _ _).trans (if_neg hne)).trans hd

theorem shapeInv_act {c : FileConfigs} {i : Nat} {t t' : FileTask} {st' : FileStore}
    {e : StoreEvent} (hc : FileOk c) (hi : ShapeInv c) (ht : c.pool[i]? = some t)
    (hs : t.Stepped e c.shared.store t' st') (hshape : ShapeHolds c.shared.store.tables t) :
    ShapeInv ⟨⟨st', originAfter t t' c.shared.origin, fetchesAfter t t' c.shared⟩,
      c.pool.set i t'⟩ := by
  have hmem := List.mem_of_getElem? ht
  have hids := hc.ids t hmem
  have hrange := hi.range t hmem
  refine ⟨?_, ?_, ?_⟩
  · intro v hv
    rcases mem_set_cases hv with rfl | hv
    · exact Stepped.inRange hs hrange
    · exact hi.range v hv
  · have hshapes := hi.shapes
    obtain ⟨⟨st, o, f⟩, pool⟩ := c
    cases hs with
    | write u creating m _ hb =>
      have hu := hids u.transferId List.mem_cons_self
      have hnew : creating = true → ¬OnDisk u.transferId st.tables :=
        fun hcr => hc.creation (hcr ▸ hmem)
      have hok := shapeOk_write hshapes hc.tables hu hb hrange hnew hshape
        (f := fetchesAfter (storeWrite u creating) (afterWrite u (written m u st.tables))
          ⟨st, o, f⟩)
      rw [← originAfter_write u creating (written m u st.tables) o] at hok
      exact hok
    | writeFailed u creating r =>
      change ShapeOk ⟨st, originAfter _ _ o, _⟩
      rw [originAfter_failure]
      exact hshapes
    | delNone j k => exact shapeOk_delete hshapes j
    | del j k m => exact shapeOk_delete hshapes j
    | _ => exact hshapes
  · have hshapes := hi.shapes
    have hfetches := hi.fetches
    obtain ⟨⟨st, o, f⟩, pool⟩ := c
    cases hs with
    | read id n m v _ hv =>
      have hid := hids id List.mem_cons_self
      obtain ⟨d, u, hd, hu, hup⟩ := hshapes id n v hid hv
      obtain ⟨hchunks, hbytes⟩ := hshape d hd
      intro p hp
      rcases List.mem_cons.mp hp with rfl | hp
      · exact ⟨u, hu, hup.data.symm, hchunks.symm.trans hup.chunks.symm,
          hbytes.symm.trans hup.bytes.symm⟩
      · exact hfetches p hp
    | _ => exact hfetches

theorem shapeInv_spawn {c : FileConfigs} (hi : ShapeInv c) {t : FileTask} (ha : t.Admitted) :
    ShapeInv ⟨c.shared, c.pool ++ [t]⟩ := by
  refine ⟨?_, hi.shapes, hi.fetches⟩
  intro v hv
  rcases List.mem_append.mp hv with hv | hv
  · exact hi.range v hv
  · rw [List.mem_singleton.mp hv]
    have hstart := ha.1
    cases t <;> trivial

/-- **Shapes hold.** If every chunk is written and read under the shape its call saw in the
    cache, then in every state reached each chunk on disk was uploaded under the shape of
    its transfer's record, and each fetch returned the shape its data was uploaded under. -/
theorem shapes_hold {cfg : FileConfig} {t : FileTables} {origin : OrdMap String ChunkUpload}
    (ht : TablesOk t) (hb : diskStored t ≤ cfg.maxTotalFileBytes)
    (hs : t.fileMeta.size ≤ cfg.maxTransfers)
    (h0 : ShapeOk (freshFiles cfg t origin).shared) {c : FileConfigs}
    (r : Run fileMachine Shaped (freshFiles cfg t origin) c) :
    ShapeOk c.shared ∧ FetchesOk c.shared := by
  have hinv : FileOk c ∧ ShapeInv c := by
    refine r.invariant (P := fun c => FileOk c ∧ ShapeInv c)
      ⟨fileOk_fresh ht hb hs, ?_, h0, ?_⟩ ?_
    · intro u hu
      cases hu
    · intro p hp
      cases hp
    · intro c m c' ⟨hc, hi⟩ ⟨hread, hshape⟩ hn
      refine ⟨fileOk_next hc hread hn, ?_⟩
      rcases fileMachine_next hc hread hn with
        ⟨t, rfl, ha, rfl⟩ | ⟨i, e, t, t', st', rfl, ht, hs, rfl⟩
      · exact shapeInv_spawn hi ha
      · exact shapeInv_act hc hi ht hs (hshape t ht)
  exact ⟨hinv.2.shapes, hinv.2.fetches⟩

def startFetch (i : Nat) : Move FileMove := .spawn (.start (.fetchShape sampleId i))

/-- A fetch and a second upload of one transfer, the fetch reading first. -/
theorem shapes_hold_sample : ∃ c : FileConfigs,
    c.shared.store.tables.chunks.size = 2 ∧ c.shared.fetches.length = 1 ∧
      ShapeOk c.shared ∧ FetchesOk c.shared := by
  obtain ⟨c, hrun, hc⟩ := exists_run (M := fileMachine) (G := Shaped)
    (c := freshFiles sampleFiles ⟨OrdMap.empty, OrdMap.empty⟩ OrdMap.empty)
    [startUpload 0 2 [1, 2], fileStep 0 [], fileStep 0 [], fileStep 0 [], fileStep 0 [],
      startUpload 1 2 [3], startFetch 0, fileStep 1 [], fileStep 2 [], fileStep 2 [],
      fileStep 1 [], fileStep 1 []]
    (p := fun c => decide (c.shared.store.tables.chunks.size = 2 ∧
      c.shared.fetches.length = 1)) (by decide +kernel)
  obtain ⟨hsize, hlen⟩ := of_decide_eq_true hc
  have h0 : ShapeOk (freshFiles sampleFiles ⟨OrdMap.empty, OrdMap.empty⟩ OrdMap.empty).shared := by
    intro id i v _ h
    cases h
  exact ⟨c, hsize, hlen, shapes_hold tablesOk_empty (by decide) (by decide) h0 hrun⟩

/-! ## A shape that changes under a call -/

/-- The second chunk of two is checked against the cache; the transfer is then deleted and
    created again with one chunk; the write puts the chunk into the new transfer. -/
theorem shape_broken : ¬∀ c : FileConfigs,
    Run fileMachine NoFileFault
      (freshFiles sampleFiles ⟨OrdMap.empty, OrdMap.empty⟩ OrdMap.empty) c →
    ShapeOk c.shared ∧ FetchesOk c.shared := by
  intro hall
  obtain ⟨c, hrun, hc⟩ := exists_run (M := fileMachine) (G := NoFileFault)
    (c := freshFiles sampleFiles ⟨OrdMap.empty, OrdMap.empty⟩ OrdMap.empty)
    [startUpload 0 2 [1, 2], fileStep 0 [], fileStep 0 [], fileStep 0 [], fileStep 0 [],
      startUpload 1 2 [3], fileStep 1 [], startDelete, fileStep 2 [], fileStep 2 [],
      fileStep 2 [], fileStep 2 [], startUpload 0 1 [4], fileStep 3 [], fileStep 3 [],
      fileStep 3 [], fileStep 3 [], fileStep 1 []]
    (p := fun c => decide (c.shared.store.tables.chunks.get (chunkKey sampleId 1) = some [3] ∧
      (c.shared.store.tables.fileMeta.get sampleId).map FileMeta.totalChunks = some 1))
    (by decide +kernel)
  obtain ⟨hchunk, hmeta⟩ := of_decide_eq_true hc
  obtain ⟨d, u, hd, _, hup⟩ := (hall c hrun).1 sampleId 1 [3] (by decide) hchunk
  rw [hd] at hmeta
  have htotal : d.totalChunks = 1 := Option.some.inj hmeta
  have hlt := hup.lt
  omega

end AxenoRelay
