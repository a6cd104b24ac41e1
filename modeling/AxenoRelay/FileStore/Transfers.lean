/-
  The file store is a map of transfers.

  The calls of `file_store.rs` one at a time, put together from the pieces of
  `FileStore.Basic`, and the map they work on: for every transfer id the declared
  shape and the chunk at each index. `after` says what a call and its reply do to
  the map; tables, keys, the cache and the counters do not occur there. `view`
  reads the map off the store, and a call takes the store from one view to the
  next (`calls_refine_transfers`).

  A creation reads the clock twice, for the cache entry and for the record, and a
  reopened store keeps the second reading; so a transfer has both.
-/
import AxenoRelay.FileStore.Txns

namespace AxenoRelay.FileStore

open SepKey

/-! ## The calls, one at a time -/

/-- `store_chunk`; `claimed` and `written` are the two readings of the clock. -/
def storeChunk (claimed written : Nat) (fs : Faults) (u : ChunkUpload) (st : FileStore) :
    Except FileReject StoredChunk × FileStore :=
  match checkShape st.config u with
  | .error r => (.error r, st)
  | .ok () =>
    match claim claimed u st with
    | (.error r, st) => (.error r, st)
    | (.ok creating, st) =>
      match if creating then st.reserveSlot else .ok st with
      | .error r => (.error r, st.uncache u.transferId)
      | .ok st =>
        match writeTxn written fs creating u st with
        | (.error r, st) =>
          (.error r, if creating then st.releaseSlot.uncache u.transferId else st)
        | (.ok w, st) =>
          (.ok ⟨w.receivedChunks, u.totalChunks⟩,
            mirror u w (if 0 < w.release then st.releaseBytes w.release else st))

def fetchChunk (fs : Faults) (transferId : String) (chunkIndex : Nat) (st : FileStore) :
    Except FileReject FetchedChunk :=
  match fetchShape transferId chunkIndex st with
  | .error r => .error r
  | .ok m => ((fetchTxn transferId chunkIndex m).commit fs st.tables).1

def deleteTransfer (fs lost : Faults) (transferId : String) (st : FileStore) :
    Except DbError Bool × FileStore :=
  match (deleteTxn lost transferId).commit fs st.tables with
  | (.error r, _) => (.error r, st)
  | (.ok none, t) => (.ok false, { st with tables := t })
  | (.ok (some stored), t) =>
    (.ok true, (({ st with tables := t }.uncache transferId).releaseSlot).releaseBytes stored)

/-- The deleting loop of `sweep_expired`. -/
def deleteAll (removed : Nat) : List String → FileStore → Except DbError Nat × FileStore
  | [], st => (.ok removed, st)
  | id :: ids, st =>
    match deleteTransfer [] [] id st with
    | (.error r, st) => (.error r, st)
    | (.ok existed, st) => deleteAll (if existed then removed + 1 else removed) ids st

/-! ## The abstract transfers -/

abbrev TransferId := { id : String // validBundleId id = true }

/-- A transfer: the shape it was created with, when that was, and its chunks so far. -/
structure Transfer where
  totalChunks : Nat
  totalBytes : Nat
  claimedAt : Nat
  recordedAt : Nat
  received : Nat
  chunk : Nat → Option Chunk

namespace Transfer

def fresh (claimed written totalChunks totalBytes : Nat) : Transfer :=
  { totalChunks := totalChunks
    totalBytes := totalBytes
    claimedAt := claimed
    recordedAt := written
    received := 0
    chunk := fun _ => none }

/-- The transfer with chunk `i` set to `data`. -/
def put (i : Nat) (data : Chunk) (t : Transfer) : Transfer :=
  { t with
    received := if (t.chunk i).isNone then t.received + 1 else t.received
    chunk := Function.update t.chunk i (some data) }

/-- Is the transfer older than a sweep at clock `now` allows? Incomplete ones get less time. -/
def Expired (cfg : FileConfig) (now : Nat) (t : Transfer) : Prop :=
  t.claimedAt < now -
    if t.totalChunks ≤ t.received then cfg.fileTtlMs else min incompleteFileTtlMs cfg.fileTtlMs

instance (cfg : FileConfig) (now : Nat) (t : Transfer) : Decidable (t.Expired cfg now) :=
  inferInstanceAs (Decidable (_ < _))

end Transfer

abbrev Transfers := TransferId → Option Transfer

inductive Call where
  | store (claimed written : Nat) (id : TransferId) (i totalChunks totalBytes : Nat) (data : Chunk)
  | fetch (id : TransferId) (i : Nat)
  | delete (id : TransferId)
  | sweep (now : Nat) (order : List String)
  | reopen

namespace Call

/-- The transfer a call is about. -/
def id : Call → Option TransferId
  | store _ _ id _ _ _ _ | fetch id _ | delete id => some id
  | sweep _ _ | reopen => none

end Call

/-- What the calls return. -/
inductive Reply where
  | stored (r : Except FileReject StoredChunk)
  | fetched (r : Except FileReject FetchedChunk)
  | deleted (r : Except DbError Bool)
  | swept (r : Except DbError Nat)
  | opened (r : Except DbError Unit)

section Abstract

/-- The transfers after a call with this reply. A transfer begins with an accepted
    chunk 0 and ends with a delete, or with a sweep once it has expired. -/
def after (cfg : FileConfig) (Q : Transfers) : Call → Reply → Transfers
  | .store claimed written id i n b data, .stored (.ok _) =>
    match Q id with
    | some t => Function.update Q id (some (t.put i data))
    | none =>
      if i = 0 then Function.update Q id (some ((Transfer.fresh claimed written n b).put i data))
      else Q
  | .delete id, _ => Function.update Q id none
  | .sweep now _, _ => fun id => (Q id).filter fun t => ¬t.Expired cfg now
  | .reopen, _ => fun id => (Q id).map fun t => { t with claimedAt := t.recordedAt }
  | _, _ => Q

/-- Is this what a call says about the transfers it finds? -/
def Answers (cfg : FileConfig) (Q : Transfers) : Call → Reply → Prop
  | .store _ _ id i n b data, .stored r => ∀ s, r = .ok s →
    (∀ t, Q id = some t → t.totalChunks = n ∧ t.totalBytes = b) ∧ (Q id = none → i = 0) ∧
      s.totalChunks = n ∧
      s.receivedChunks = (((Q id).getD (Transfer.fresh 0 0 n b)).put i data).received
  | .fetch id i, .fetched r => ∀ d n b, r = .ok ⟨d, n, b⟩ ↔
    ∃ t, Q id = some t ∧ t.totalChunks = n ∧ t.totalBytes = b ∧ t.chunk i = some d
  | .delete id, .deleted r => r = .ok (Q id).isSome
  | .sweep now _, .swept r => ∃ ids : List TransferId, r = .ok ids.length ∧ ids.Nodup ∧
    ∀ id, id ∈ ids ↔ ∃ t, Q id = some t ∧ t.Expired cfg now
  | .reopen, .opened r => r = .ok ()
  | _, _ => False

/-- The transfers after a sequence of calls and their replies. -/
def transfersAfter (cfg : FileConfig) (h : List (Call × Reply)) : Transfers :=
  h.foldl (fun Q e => after cfg Q e.1 e.2) fun _ => none

end Abstract

/-! ## The store behind them -/

/-- One call on the store, with every database call succeeding. -/
def call : Call → FileStore → Reply × FileStore
  | .store claimed written id i n b data, st =>
    let r := storeChunk claimed written [] ⟨id, i, n, b, data⟩ st
    (.stored r.1, r.2)
  | .fetch id i, st => (.fetched (fetchChunk [] id i st), st)
  | .delete id, st =>
    let r := deleteTransfer [] [] id st
    (.deleted r.1, r.2)
  | .sweep _ order, st =>
    let r := deleteAll 0 order st
    (.swept r.1, r.2)
  | .reopen, st =>
    match ((FileStore.new st.config).commit [] st.tables).1 with
    | .error r => (.opened (.error r), st)
    | .ok st' => (.opened (.ok ()), st')

/-- A sweep goes through the expired entries of the cache, in any order. -/
def Legal : Call → FileStore → Prop
  | .sweep now order, st => order.Perm (expiredIds now st)
  | _, _ => True

/-- The stores reached from an empty database, with the calls made and their replies. -/
inductive Reach (cfg : FileConfig) : List (Call × Reply) → FileStore → Prop
  | opened {st : FileStore}
      (h : ((FileStore.new cfg).commit [] ⟨OrdMap.empty, OrdMap.empty⟩).1 = .ok st) : Reach cfg [] st
  | called {h : List (Call × Reply)} {st : FileStore} {c : Call} (r : Reach cfg h st)
      (hl : Legal c st) : Reach cfg (h ++ [(c, (call c st).1)]) (call c st).2

/-- The transfer that a cache entry, its record and the chunks stand for. -/
def transferOf (id : String) (chunks : OrdMap String Chunk) (entry record : FileMeta) : Transfer :=
  { totalChunks := record.totalChunks
    totalBytes := record.totalBytes
    claimedAt := entry.createdAtMs
    recordedAt := record.createdAtMs
    received := record.receivedChunks
    chunk := fun i => chunks.get (chunkKey id i) }

/-- The transfers a store stands for. -/
def view (st : FileStore) : Transfers := fun id =>
  match st.cache.get id, st.tables.fileMeta.get id with
  | some entry, some record => some (transferOf id st.tables.chunks entry record)
  | _, _ => none

/-- What a cache entry has to share with its record. -/
def shape (m : FileMeta) : Nat × Nat × Nat := (m.totalChunks, m.totalBytes, m.receivedChunks)

/-- Between two calls the cache agrees with the records, and every chunk is one of its
    transfer's. -/
structure Settled (st : FileStore) : Prop where
  tables : TablesOk st.tables
  cached : ∀ id : String, (st.cache.get id).map shape = (st.tables.fileMeta.get id).map shape
  rows : ∀ (id : TransferId) (i : Nat) (v : Chunk), st.tables.chunks.get (chunkKey id i) = some v →
    v ≠ [] ∧ ∃ m, st.tables.fileMeta.get id = some m ∧ i < m.totalChunks

/-! ## The view after a change -/

theorem Settled.record_of_entry {st : FileStore} (h : Settled st) {id : String} {m : FileMeta}
    (hm : st.cache.get id = some m) : ∃ m', st.tables.fileMeta.get id = some m' ∧ shape m' = shape m := by
  have hid := h.cached id
  rw [hm, Option.map_some] at hid
  exact Option.map_eq_some_iff.mp hid.symm

theorem Settled.no_record {st : FileStore} (h : Settled st) {id : String} :
    st.cache.get id = none ↔ st.tables.fileMeta.get id = none := by
  have hid := h.cached id
  rw [← Option.map_eq_none_iff (f := shape), hid, Option.map_eq_none_iff]

theorem Settled.no_rows {st : FileStore} (h : Settled st) {id : TransferId}
    (hn : st.tables.fileMeta.get id = none) (i : Nat) :
    st.tables.chunks.get (chunkKey id i) = none := by
  cases hv : st.tables.chunks.get (chunkKey id i) with
  | none => rfl
  | some v =>
    obtain ⟨_, m, hm, _⟩ := h.rows id i v hv
    rw [hn] at hm
    cases hm

theorem view_none {st : FileStore} {id : TransferId} (h : st.tables.fileMeta.get id = none) :
    view st id = none := by
  unfold view
  rw [h]
  cases st.cache.get (id : String) <;> rfl

theorem view_some {st : FileStore} {id : TransferId} {entry record : FileMeta}
    (he : st.cache.get id = some entry) (hr : st.tables.fileMeta.get id = some record) :
    view st id = some (transferOf id st.tables.chunks entry record) := by
  unfold view
  rw [he, hr]

/-- The view at an id depends on its entry, its record and its chunks only. -/
theorem view_congr {st st' : FileStore} {id : TransferId}
    (hc : st'.cache.get id = st.cache.get id)
    (hm : st'.tables.fileMeta.get id = st.tables.fileMeta.get id)
    (hk : ∀ i, st'.tables.chunks.get (chunkKey id i) = st.tables.chunks.get (chunkKey id i)) :
    view st' id = view st id := by
  have hchunks : ∀ entry record, transferOf id st'.tables.chunks entry record =
      transferOf id st.tables.chunks entry record := by
    intro entry record
    simp only [transferOf, hk]
  unfold view
  simp only [hc, hm, hchunks]

/-- The counters do not matter. -/
theorem Settled.congr {st st' : FileStore} (h : Settled st) (hc : st'.cache = st.cache)
    (ht : st'.tables = st.tables) : Settled st' ∧ view st' = view st := by
  refine ⟨⟨ht ▸ h.tables, fun id => ?_, fun id i v hv => ?_⟩, funext fun id => ?_⟩
  · rw [hc, ht]
    exact h.cached id
  · rw [ht] at hv ⊢
    exact h.rows id i v hv
  · exact view_congr (by rw [hc]) (by rw [ht]) fun i => by rw [ht]

/-! ## `store_chunk` -/

theorem get_mirror {u : ChunkUpload} {w : Written} {st : FileStore} {entry : FileMeta}
    (h : st.cache.get u.transferId = some entry) (hle : entry.receivedChunks ≤ w.receivedChunks)
    (id : String) :
    (mirror u w st).cache.get id = if id = u.transferId then
      some { entry with storedBytes := w.storedBytes, receivedChunks := w.receivedChunks }
      else st.cache.get id := by
  simp only [mirror, h, Option.getD_some, if_pos hle, OrdMap.get_insert]

/-- No stored chunk is empty, so the previous length is 0 just for a new index. -/
theorem Settled.prevLen_eq_zero {st : FileStore} (h : Settled st) (u : ChunkUpload)
    (hu : validBundleId u.transferId = true) :
    prevLen u st.tables = 0 ↔ st.tables.chunks.get (chunkKey u.transferId u.chunkIndex) = none := by
  rw [prevLen_eq]
  cases hv : st.tables.chunks.get (chunkKey u.transferId u.chunkIndex) with
  | none => simp
  | some v =>
    have hne := (h.rows ⟨u.transferId, hu⟩ u.chunkIndex v hv).1
    simp [hne]

theorem chunkKey_eq_iff {a b : TransferId} {i j : Nat} :
    chunkKey a i = chunkKey b j ↔ a = b ∧ i = j := by
  constructor
  · intro h
    obtain ⟨hab, hij⟩ := chunkKey_inj a.2 b.2 h
    exact ⟨Subtype.ext hab, hij⟩
  · rintro ⟨rfl, rfl⟩
    rfl

/-- A write that started from `m`, mirrored into the cache that holds `entry`. -/
theorem mirrored_spec {st st' : FileStore} (h : Settled st) {u : ChunkUpload}
    (hu : validBundleId u.transferId = true) {entry m : FileMeta}
    (hentry : st'.cache.get u.transferId = some entry)
    (hcache : ∀ id, id ≠ u.transferId → st'.cache.get id = st.cache.get id)
    (htables : st'.tables = writeTables m u st.tables)
    (hshape : shape entry = shape m)
    (hstored : m.storedBytes = chunkBytes u.transferId st.tables)
    (hold : ∀ old, st.tables.fileMeta.get u.transferId = some old →
      old.totalChunks = m.totalChunks)
    (hi : u.chunkIndex < m.totalChunks) (hdata : u.data ≠ []) :
    Settled (mirror u (written m u st.tables) st') ∧
      view (mirror u (written m u st.tables) st') = Function.update (view st) ⟨u.transferId, hu⟩
        (some ((transferOf u.transferId st.tables.chunks entry m).put u.chunkIndex u.data)) := by
  obtain ⟨hn, hb, hr⟩ : entry.totalChunks = m.totalChunks ∧ entry.totalBytes = m.totalBytes ∧
      entry.receivedChunks = m.receivedChunks := by
    simpa [shape] using hshape
  have hgrown : (grownMeta m (prevLen u st.tables) u).totalChunks = m.totalChunks := rfl
  have hle : entry.receivedChunks ≤ (written m u st.tables).receivedChunks := by
    simp only [written, grownMeta]
    split_ifs <;> omega
  have hget := get_mirror hentry hle
  have htab : (mirror u (written m u st.tables) st').tables = writeTables m u st.tables := htables
  have hrecord : ∀ id, (writeTables m u st.tables).fileMeta.get id = if id = u.transferId then
      some (grownMeta m (prevLen u st.tables) u) else st.tables.fileMeta.get id :=
    fun id => OrdMap.get_insert _ _ _ _
  have hchunk : ∀ k, (writeTables m u st.tables).chunks.get k =
      if k = chunkKey u.transferId u.chunkIndex then some u.data else st.tables.chunks.get k :=
    fun k => OrdMap.get_insert _ _ _ _
  have hkey : ∀ (id : TransferId) (i : Nat), chunkKey id i = chunkKey u.transferId u.chunkIndex ↔
      id = ⟨u.transferId, hu⟩ ∧ i = u.chunkIndex :=
    fun id i => chunkKey_eq_iff (b := ⟨u.transferId, hu⟩)
  refine ⟨⟨?_, fun id => ?_, fun id i v hv => ?_⟩, funext fun id => ?_⟩
  · rw [htab]
    exact tablesOk_write h.tables hu hstored
  · rw [htab, hget, hrecord]
    split_ifs with hid
    · simp only [Option.map_some, shape, hn, hb, written]
      rfl
    · rw [hcache id hid]
      exact h.cached id
  · rw [htab, hchunk] at hv
    rw [htab, hrecord]
    split_ifs at hv with hk
    · obtain ⟨rfl, rfl⟩ := (hkey id i).mp hk
      obtain rfl := Option.some.inj hv
      exact ⟨hdata, _, if_pos rfl, hi⟩
    · obtain ⟨hne, old, hget, hlt⟩ := h.rows id i v hv
      refine ⟨hne, ?_⟩
      by_cases hid : (id : String) = u.transferId
      · rw [if_pos hid]
        refine ⟨_, rfl, ?_⟩
        rw [hid] at hget
        rw [hgrown, ← hold old hget]
        exact hlt
      · rw [if_neg hid]
        exact ⟨old, hget, hlt⟩
  · rw [Function.update_apply]
    by_cases hid : id = ⟨u.transferId, hu⟩
    · subst hid
      have hnone := h.prevLen_eq_zero u hu
      rw [if_pos rfl, view_some ((hget _).trans (if_pos rfl))
        ((congrArg (fun t : FileTables => t.fileMeta.get u.transferId) htab).trans
          ((hrecord _).trans (if_pos rfl))), htab]
      refine congrArg some ?_
      simp only [transferOf, Transfer.put, grownMeta, hnone, Option.isNone_iff_eq_none]
      congr 1
      funext i
      rw [hchunk, Function.update_apply]
      exact if_congr ((hkey _ i).trans (and_iff_right rfl)) rfl rfl
    · have hne : (id : String) ≠ u.transferId := fun e => hid (Subtype.ext e)
      rw [if_neg hid]
      refine view_congr ?_ ?_ fun i => ?_
      · rw [hget, if_neg hne, hcache _ hne]
      · rw [htab, hrecord, if_neg hne]
      · rw [htab, hchunk, if_neg fun e => hid ((hkey id i).mp e).1]

theorem checkShape_ok {cfg : FileConfig} {u : ChunkUpload} (h : checkShape cfg u = .ok ()) :
    u.data ≠ [] ∧ u.chunkIndex < u.totalChunks := by
  unfold checkShape at h
  split_ifs at h with h1
  push Not at h1
  exact ⟨fun e => h1.1 (List.isEmpty_iff.mpr e), h1.2.2.2⟩

/-- What a store call does, seen from outside. -/
def StoreSpec (claimed written : Nat) (u : ChunkUpload) (id : TransferId) (st : FileStore)
    (r : Except FileReject StoredChunk × FileStore) : Prop :=
  Settled r.2 ∧
    match r.1 with
    | .error _ => view r.2 = view st
    | .ok s =>
      s.totalChunks = u.totalChunks ∧
      match view st id with
      | some t =>
        t.totalChunks = u.totalChunks ∧ t.totalBytes = u.totalBytes ∧
        s.receivedChunks = (t.put u.chunkIndex u.data).received ∧
        view r.2 = Function.update (view st) id (some (t.put u.chunkIndex u.data))
      | none =>
        u.chunkIndex = 0 ∧ s.receivedChunks = 1 ∧
        view r.2 = Function.update (view st) id
          (some ((Transfer.fresh claimed written u.totalChunks u.totalBytes).put u.chunkIndex u.data))

/-- The store with the bytes released that a smaller chunk frees. -/
theorem released_frame (st : FileStore) (n : Nat) :
    (if 0 < n then st.releaseBytes n else st).cache = st.cache ∧
      (if 0 < n then st.releaseBytes n else st).tables = st.tables ∧
      (if 0 < n then st.releaseBytes n else st).config = st.config := by
  split_ifs <;> exact ⟨rfl, rfl, rfl⟩

theorem erase_insert_none {cache : OrdMap String FileMeta} {id : String}
    (hn : cache.get id = none) (m : FileMeta) : (cache.insert id m).erase id = cache := by
  refine OrdMap.ext_get fun k => ?_
  rw [OrdMap.get_erase, OrdMap.get_insert]
  split_ifs with hk
  · rw [hk, hn]
  · rfl

/-- What an accepted store call started from: its entry in the cache, and the record. -/
inductive Started (claimed written : Nat) (u : ChunkUpload) (st : FileStore) :
    FileMeta → FileMeta → OrdMap String FileMeta → Prop
  | joined (entry m : FileMeta) (hentry : st.cache.get u.transferId = some entry)
      (hm : st.tables.fileMeta.get u.transferId = some m)
      (hn : entry.totalChunks = u.totalChunks) (hb : entry.totalBytes = u.totalBytes) :
      Started claimed written u st entry m st.cache
  | created (hnone : st.cache.get u.transferId = none) (hi : u.chunkIndex = 0)
      (hroom : st.transferCount < st.config.maxTransfers) :
      Started claimed written u st (freshMeta claimed u) (freshMeta written u)
        (st.cache.insert u.transferId (freshMeta claimed u))

/-- A store call is rejected, and leaves the store as it was, or writes its chunk. -/
theorem storeChunk_cases (claimed written : Nat) (fs : Faults) (u : ChunkUpload)
    (st : FileStore) :
    (∃ r, storeChunk claimed written fs u st = (.error r, st)) ∨
    ∃ entry m cache st', checkShape st.config u = .ok () ∧
      Started claimed written u st entry m cache ∧ newStored m (prevLen u st.tables) u ≤ m.totalBytes ∧
      st'.cache = cache ∧ st'.tables = writeTables m u st.tables ∧ st'.config = st.config ∧
      storeChunk claimed written fs u st =
        (.ok ⟨(FileStore.written m u st.tables).receivedChunks, u.totalChunks⟩,
          mirror u (FileStore.written m u st.tables) st') := by
  unfold storeChunk
  cases hshape : checkShape st.config u with
  | error r => exact Or.inl ⟨r, rfl⟩
  | ok x =>
    cases hentry : st.cache.get u.transferId with
    | some entry =>
      simp only [claim, hentry]
      by_cases hne : entry.totalChunks ≠ u.totalChunks ∨ entry.totalBytes ≠ u.totalBytes
      · rw [if_pos hne]
        exact Or.inl ⟨_, rfl⟩
      · rw [if_neg hne]
        push Not at hne
        simp only [if_neg Bool.false_ne_true]
        rcases writeTxn_cases written fs false u st with ⟨r, hr⟩ | ⟨m, hbase, hacc, hr⟩
        · rw [hr]
          exact Or.inl ⟨_, rfl⟩
        · rw [hr]
          obtain ⟨hcache, htables, hconfig⟩ := released_frame (wrote m u st)
            (FileStore.written m u st.tables).release
          exact Or.inr ⟨entry, m, _, _, trivial, .joined entry m hentry hbase hne.1 hne.2,
            hacc.declared, hcache, htables, hconfig, rfl⟩
    | none =>
      simp only [claim, hentry]
      by_cases hzero : u.chunkIndex ≠ 0
      · rw [if_pos hzero]
        exact Or.inl ⟨_, rfl⟩
      · rw [if_neg hzero]
        simp only [if_pos, reserveSlot]
        have hback := erase_insert_none hentry (freshMeta claimed u)
        by_cases hfull : st.config.maxTransfers ≤ st.transferCount
        · rw [if_pos hfull]
          refine Or.inl ⟨.full, ?_⟩
          dsimp only [uncache]
          rw [hback]
        · rw [if_neg hfull]
          dsimp only
          generalize hclaimed : ({ st with
            cache := st.cache.insert u.transferId (freshMeta claimed u)
            transferCount := st.transferCount + 1 } : FileStore) = st1
          have hc1 : st1.cache = st.cache.insert u.transferId (freshMeta claimed u) := by
            rw [← hclaimed]
          have ht1 : st1.tables = st.tables := by rw [← hclaimed]
          have hg1 : st1.config = st.config := by rw [← hclaimed]
          rcases writeTxn_cases written fs true u st1 with ⟨r, hr⟩ | ⟨m, hbase, hacc, hr⟩
          · rw [hr]
            refine Or.inl ⟨r, ?_⟩
            rw [← hclaimed]
            dsimp only [releaseSlot, fetchSubOne, uncache]
            rw [hback, if_neg (Nat.succ_ne_zero _), Nat.add_sub_cancel]
          · rw [hr, ht1]
            obtain rfl : m = freshMeta written u := hbase
            obtain ⟨hcache, htables, hconfig⟩ := released_frame (wrote (freshMeta written u) u st1)
              (FileStore.written (freshMeta written u) u st.tables).release
            have hdeclared := hacc.declared
            rw [ht1] at hdeclared
            exact Or.inr ⟨_, _, _, _, trivial, .created hentry (by omega) (Nat.lt_of_not_le hfull),
              hdeclared, hcache.trans hc1, htables.trans (by rw [wrote, ht1]), hconfig.trans hg1, rfl⟩

theorem storeChunk_spec {st : FileStore} (h : Settled st) (claimed written : Nat) (fs : Faults)
    {u : ChunkUpload} (hu : validBundleId u.transferId = true) :
    StoreSpec claimed written u ⟨u.transferId, hu⟩ st (storeChunk claimed written fs u st) := by
  rcases storeChunk_cases claimed written fs u st with
    ⟨r, heq⟩ | ⟨entry, m, cache, st', hshape, hstart, -, hcache, htables, -, heq⟩
  · rw [heq]
    exact ⟨h, rfl⟩
  · rw [heq]
    obtain ⟨hdata, hi⟩ := checkShape_ok hshape
    cases hstart with
    | joined _ _ hentry hm hn hb =>
      obtain ⟨m', hm', hsame⟩ := h.record_of_entry hentry
      rw [hm] at hm'
      obtain rfl := Option.some.inj hm'
      have hsame' : m.totalChunks = entry.totalChunks ∧ m.totalBytes = entry.totalBytes ∧
          m.receivedChunks = entry.receivedChunks := by
        simpa [shape] using hsame
      obtain ⟨hset, hafter⟩ := mirrored_spec h hu (m := m)
        ((congrArg (fun c : OrdMap String FileMeta => c.get u.transferId) hcache).trans hentry)
        (fun id _ => congrArg (fun c : OrdMap String FileMeta => c.get id) hcache) htables
        hsame.symm (h.tables.stored _ _ hm)
        (fun old hold => by rw [hm] at hold; rw [Option.some.inj hold]) (by omega) hdata
      refine ⟨hset, rfl, ?_⟩
      have hview : view st ⟨u.transferId, hu⟩ =
          some (transferOf u.transferId st.tables.chunks entry m) := view_some hentry hm
      rw [hview]
      refine ⟨hsame'.1.trans hn, hsame'.2.1.trans hb, ?_, hafter⟩
      simp only [FileStore.written, grownMeta, transferOf, Transfer.put, h.prevLen_eq_zero u hu,
        Option.isNone_iff_eq_none]
    | created hn hzero hroom =>
      have hrecord : st.tables.fileMeta.get u.transferId = none := h.no_record.mp hn
      have hoff : ¬OnDisk u.transferId st.tables := by simp [OnDisk, hrecord]
      have hnone := @Settled.no_rows _ h ⟨u.transferId, hu⟩ hrecord
      have hnew := h.prevLen_eq_zero u hu
      obtain ⟨hset, hafter⟩ := mirrored_spec h hu (m := freshMeta written u)
        ((congrArg (fun c : OrdMap String FileMeta => c.get u.transferId) hcache).trans
          ((OrdMap.get_insert _ _ _ _).trans (if_pos rfl)))
        (fun id hid => (congrArg (fun c : OrdMap String FileMeta => c.get id) hcache).trans
          ((OrdMap.get_insert _ _ _ _).trans (if_neg hid)))
        htables rfl (h.tables.chunkBytes_zero hoff).symm
        (fun old hold => by rw [hrecord] at hold; cases hold) hi hdata
      have hfresh : transferOf u.transferId st.tables.chunks (freshMeta claimed u)
          (freshMeta written u) =
            Transfer.fresh claimed written u.totalChunks u.totalBytes := by
        simp only [transferOf, Transfer.fresh, freshMeta]
        congr 1
        exact funext hnone
      refine ⟨hset, rfl, ?_⟩
      rw [view_none hrecord]
      refine ⟨hzero, ?_, ?_⟩
      · simp only [FileStore.written, grownMeta, if_pos (hnew.mpr (hnone _)), freshMeta]
      · rw [← hfresh]
        exact hafter

/-! ## The other calls -/

/-- A fetch returns what the view says, whatever else the store holds. -/
theorem fetchChunk_eq {st : FileStore} (h : Settled st) (id : TransferId) (i : Nat) :
    fetchChunk [] id i st =
      match view st id with
      | none => .error .notFound
      | some t =>
        if t.totalChunks ≤ i then .error .badRequest
        else
          match t.chunk i with
          | some d => .ok ⟨d, t.totalChunks, t.totalBytes⟩
          | none => .error .notFound := by
  unfold fetchChunk fetchShape
  cases hentry : st.cache.get (id : String) with
  | none =>
    rw [view_none (h.no_record.mp hentry)]
  | some entry =>
    obtain ⟨m, hm, hshape⟩ := h.record_of_entry hentry
    obtain ⟨hn, hb, _⟩ : m.totalChunks = entry.totalChunks ∧ m.totalBytes = entry.totalBytes ∧
        m.receivedChunks = entry.receivedChunks := by
      simpa [shape] using hshape
    simp only [view_some hentry hm, transferOf, hn, hb]
    split_ifs with hi
    · rfl
    · simp only [fetchTxn, Txn.commit, Txn.bind_run, Txn.touch, Txn.read, Txn.call, List.tail_nil]
      cases st.tables.chunks.get (chunkKey (id : String) i) <;> rfl

theorem fetch_answers {st : FileStore} (h : Settled st) (cfg : FileConfig) (id : TransferId)
    (i : Nat) : Answers cfg (view st) (.fetch id i) (.fetched (fetchChunk [] id i st)) := by
  intro d n b
  rw [fetchChunk_eq h]
  cases hview : view st id with
  | none => simp
  | some t =>
    have hlt : ∀ v, t.chunk i = some v → i < t.totalChunks := by
      intro v hv
      unfold view at hview
      split at hview
      · cases hview
        obtain ⟨_, m, hm, hi⟩ := h.rows id i v hv
        simp_all [transferOf]
      · cases hview
    dsimp only
    split_ifs with hi
    · constructor
      · intro hr
        cases hr
      · rintro ⟨t', ht, _, _, hv⟩
        cases ht
        exact absurd (hlt d hv) (Nat.not_lt.mpr hi)
    · cases hv : t.chunk i with
      | none => simp [hv]
      | some v =>
        constructor
        · intro hr
          cases hr
          exact ⟨t, rfl, rfl, rfl, hv⟩
        · rintro ⟨t', ht, rfl, rfl, hv'⟩
          cases ht
          rw [hv] at hv'
          rw [Option.some.inj hv']

theorem deleteTransfer_spec {st : FileStore} (h : Settled st) (id : TransferId) :
    (deleteTransfer [] [] id st).1 = .ok (view st id).isSome ∧
      Settled (deleteTransfer [] [] id st).2 ∧
      view (deleteTransfer [] [] id st).2 = Function.update (view st) id none ∧
      Gone id (deleteTransfer [] [] id st).2.tables := by
  have hrun := Txn.commit_nil (deleteTxn_run h.tables id.2)
  -- the cache entry goes with the record, or there was neither
  have hspec : ∀ st' : FileStore, st'.tables = deleteTables id st.tables →
      st'.cache = st.cache.erase id → Settled st' ∧
        view st' = Function.update (view st) id none ∧ Gone id st'.tables := by
    intro st' ht hc
    have hrecord : ∀ j : String, st'.tables.fileMeta.get j =
        if j = id then none else st.tables.fileMeta.get j := by
      intro j
      rw [ht]
      exact OrdMap.get_erase _ _ _
    have hentry : ∀ j : String, st'.cache.get j = if j = id then none else st.cache.get j := by
      intro j
      rw [hc]
      exact OrdMap.get_erase _ _ _
    have hgone : Gone id st'.tables := by
      rw [ht, ← deletedTables_nil h.tables id.2, gone_deletedTables, readable_nil]
    refine ⟨⟨ht ▸ tablesOk_delete h.tables id, fun j => ?_, fun j i v hv => ?_⟩,
      funext fun j => ?_, hgone⟩
    · rw [hrecord, hentry]
      split_ifs
      · rfl
      · exact h.cached j
    · rw [ht, get_deleteTables j.2] at hv
      rw [hrecord]
      split_ifs at hv with hj
      rw [if_neg hj]
      exact h.rows j i v hv
    · rw [Function.update_apply]
      by_cases hj : j = id
      · rw [if_pos hj, hj]
        exact view_none hgone.1
      · have hne : (j : String) ≠ id := fun e => hj (Subtype.ext e)
        rw [if_neg hj]
        refine view_congr ?_ ?_ fun i => ?_
        · rw [hentry, if_neg hne]
        · rw [hrecord, if_neg hne]
        · rw [ht, get_deleteTables j.2, if_neg hne]
  unfold deleteTransfer
  rw [hrun]
  cases hm : st.tables.fileMeta.get (id : String) with
  | none =>
    rw [view_none hm]
    refine ⟨rfl, hspec _ rfl ?_⟩
    exact (OrdMap.erase_of_get_none (h.no_record.mpr hm)).symm
  | some m =>
    cases hentry : st.cache.get (id : String) with
    | none =>
      rw [h.no_record.mp hentry] at hm
      cases hm
    | some entry =>
      rw [view_some hentry hm]
      exact ⟨rfl, hspec _ rfl rfl⟩

theorem deleteAll_spec {ids : List TransferId} (hnd : ids.Nodup) (n : Nat) {st : FileStore}
    (h : Settled st) (hall : ∀ id ∈ ids, (view st id).isSome = true) :
    (deleteAll n (ids.map Subtype.val) st).1 = .ok (n + ids.length) ∧
      Settled (deleteAll n (ids.map Subtype.val) st).2 ∧
      view (deleteAll n (ids.map Subtype.val) st).2 =
        fun id => if id ∈ ids then none else view st id := by
  induction ids generalizing n st with
  | nil => exact ⟨rfl, h, by simp [deleteAll]⟩
  | cons id ids ih =>
    obtain ⟨hnot, hnd⟩ := List.nodup_cons.mp hnd
    obtain ⟨hret, hset, hview, _⟩ := deleteTransfer_spec h id
    rw [hall id List.mem_cons_self] at hret
    rw [List.map_cons, deleteAll]
    generalize deleteTransfer [] [] id.val st = r at hret hset hview ⊢
    obtain ⟨ret, st'⟩ := r
    obtain rfl : ret = .ok true := hret
    have hall' : ∀ j ∈ ids, (view st' j).isSome = true := by
      intro j hj
      have hne : j ≠ id := fun e => hnot (e ▸ hj)
      rw [hview, Function.update_of_ne hne]
      exact hall j (List.mem_cons_of_mem _ hj)
    obtain ⟨h1, h2, h3⟩ := ih hnd (n + 1) hset hall'
    refine ⟨?_, h2, ?_⟩
    · refine h1.trans (congrArg Except.ok ?_)
      rw [List.length_cons]
      omega
    · refine h3.trans (funext fun j => ?_)
      simp only [List.mem_cons, hview, Function.update_apply]
      by_cases hj : j = id
      · simp [hj]
      · simp [hj]

/-- The expired entries of the cache are the expired transfers. -/
theorem mem_expiredIds {st : FileStore} (h : Settled st) (now : Nat) (id : TransferId) :
    id.val ∈ expiredIds now st ↔ ∃ t, view st id = some t ∧ t.Expired st.config now := by
  have hmem : id.val ∈ expiredIds now st ↔
      ∃ m, st.cache.get id.val = some m ∧ expired st.config now m = true := by
    unfold expiredIds
    rw [List.mem_map]
    constructor
    · rintro ⟨e, he, hid⟩
      obtain ⟨hentry, hexp⟩ := List.mem_filter.mp he
      exact ⟨e.2, OrdMap.get_eq_some_iff.mpr (hid ▸ hentry), hexp⟩
    · rintro ⟨m, hm, hexp⟩
      exact ⟨(id.val, m), List.mem_filter.mpr ⟨OrdMap.get_eq_some_iff.mp hm, hexp⟩, rfl⟩
  have hexpired : ∀ entry m, shape m = shape entry → (expired st.config now entry = true ↔
      (transferOf id st.tables.chunks entry m).Expired st.config now) := by
    intro entry m hshape
    obtain ⟨hn, _, hr⟩ : m.totalChunks = entry.totalChunks ∧ m.totalBytes = entry.totalBytes ∧
        m.receivedChunks = entry.receivedChunks := by
      simpa [shape] using hshape
    simp only [expired, Transfer.Expired, transferOf, decide_eq_true_eq, hn, hr]
    split_ifs <;> rfl
  rw [hmem]
  constructor
  · rintro ⟨entry, hentry, hexp⟩
    obtain ⟨m, hm, hshape⟩ := h.record_of_entry hentry
    exact ⟨_, view_some hentry hm, (hexpired entry m hshape).mp hexp⟩
  · rintro ⟨t, ht, hexp⟩
    unfold view at ht
    split at ht
    case h_1 entry m hentry hm =>
      cases ht
      obtain ⟨m', hm', hshape⟩ := h.record_of_entry hentry
      rw [hm] at hm'
      obtain rfl := Option.some.inj hm'
      exact ⟨entry, hentry, (hexpired entry m hshape).mpr hexp⟩
    case h_2 => cases ht

theorem sweep_spec {st : FileStore} (h : Settled st) {now : Nat} {order : List String}
    (horder : order.Perm (expiredIds now st)) :
    Settled (deleteAll 0 order st).2 ∧
      Answers st.config (view st) (.sweep now order) (.swept (deleteAll 0 order st).1) ∧
      view (deleteAll 0 order st).2 =
        after st.config (view st) (.sweep now order) (.swept (deleteAll 0 order st).1) := by
  have hvalid : ∀ id ∈ order, validBundleId id = true := by
    intro id hid
    obtain ⟨e, he, rfl⟩ := List.mem_map.mp (horder.mem_iff.mp hid)
    obtain ⟨m, hm, _⟩ := h.record_of_entry (OrdMap.get_eq_some_iff.mpr (List.mem_filter.mp he).1)
    exact h.tables.ids _ _ hm
  have hnd : order.Nodup := by
    refine horder.nodup_iff.mpr ?_
    exact (OrdMap.keys_nodup st.cache).sublist (List.filter_sublist.map Prod.fst)
  obtain ⟨ids, rfl⟩ : ∃ ids : List TransferId, order = ids.map Subtype.val := by
    lift order to List TransferId using hvalid
    exact ⟨order, rfl⟩
  have hexp : ∀ id, id ∈ ids ↔ ∃ t, view st id = some t ∧ t.Expired st.config now := by
    intro id
    rw [← mem_expiredIds h, ← horder.mem_iff]
    constructor
    · exact fun hid => List.mem_map_of_mem hid
    · intro hid
      obtain ⟨j, hj, he⟩ := List.mem_map.mp hid
      exact Subtype.ext he ▸ hj
  obtain ⟨h1, h2, h3⟩ := deleteAll_spec (List.Nodup.of_map _ hnd) 0 h fun id hid => by
    obtain ⟨t, ht, _⟩ := (hexp id).mp hid
    rw [ht]
    rfl
  refine ⟨h2, ⟨ids, h1.trans (by rw [Nat.zero_add]), List.Nodup.of_map _ hnd, hexp⟩, ?_⟩
  refine h3.trans (funext fun id => ?_)
  simp only [after]
  cases ht : view st id with
  | none => simp
  | some t =>
    have hid := hexp id
    simp only [ht, Option.some.injEq, exists_eq_left'] at hid
    simp [hid, Option.filter]

theorem new_txn_run (cfg : FileConfig) (t : FileTables) :
    FileStore.new cfg t [] = .ok (ofTables cfg t, t, []) := by
  have hscan := Txn.each_touch_run (DbError.db) t.fileMeta.entries t
  simp only [Txn.touch] at hscan
  simp only [FileStore.new, Txn.bind_run, Txn.touch, Txn.read, Txn.call, List.tail_nil, id_eq]
  rw [hscan]
  rfl

theorem new_run (cfg : FileConfig) (t : FileTables) :
    (FileStore.new cfg).commit [] t = (.ok (ofTables cfg t), t) := Txn.commit_nil (new_txn_run cfg t)

theorem new_cases (cfg : FileConfig) (fs : Faults) (t : FileTables) :
    (∃ e, (FileStore.new cfg).commit fs t = (.error e, t)) ∨
      (FileStore.new cfg).commit fs t = (.ok (ofTables cfg t), t) := by
  refine Txn.commit_cases ?_ (new_txn_run cfg t) fs
  exact Txn.sound_bind (Txn.sound_touch _) fun _ => Txn.sound_bind (Txn.sound_touch _) fun _ =>
    Txn.sound_bind (Txn.sound_touch _) fun _ => Txn.sound_bind (Txn.sound_touch _) fun _ =>
      Txn.sound_bind (Txn.sound_touch _) fun _ => Txn.sound_bind (Txn.sound_touch _) fun _ =>
        Txn.sound_bind (Txn.sound_read _ _) fun _ =>
          Txn.sound_bind (Txn.sound_each (fun _ => Txn.sound_touch _) _) fun _ => Txn.sound_pure _

theorem reopen_spec {st : FileStore} (h : Settled st) (cfg : FileConfig) :
    Settled (ofTables cfg st.tables) ∧
      view (ofTables cfg st.tables) = after cfg (view st) .reopen (.opened (.ok ())) := by
  refine ⟨⟨h.tables, fun _ => rfl, h.rows⟩, funext fun id => ?_⟩
  have hview : view (ofTables cfg st.tables) id =
      (st.tables.fileMeta.get id).map fun m => transferOf id st.tables.chunks m m := by
    unfold view ofTables
    dsimp only
    cases st.tables.fileMeta.get (id : String) <;> rfl
  rw [hview]
  simp only [after]
  cases hm : st.tables.fileMeta.get (id : String) with
  | none =>
    rw [view_none hm]
    rfl
  | some m =>
    cases hentry : st.cache.get (id : String) with
    | none =>
      rw [h.no_record.mp hentry] at hm
      cases hm
    | some entry =>
      rw [view_some hentry hm]
      rfl

/-! ## Any sequence of calls -/

theorem storeChunk_config (claimed written : Nat) (fs : Faults) (u : ChunkUpload)
    (st : FileStore) : (storeChunk claimed written fs u st).2.config = st.config := by
  rcases storeChunk_cases claimed written fs u st with ⟨r, heq⟩ |
    ⟨entry, m, cache, st', -, -, -, -, -, hconfig, heq⟩
  · rw [heq]
  · rw [heq]
    exact hconfig

theorem deleteTransfer_config (id : String) (st : FileStore) :
    (deleteTransfer [] [] id st).2.config = st.config := by
  unfold deleteTransfer
  split <;> rfl

theorem deleteAll_config (n : Nat) (ids : List String) (st : FileStore) :
    (deleteAll n ids st).2.config = st.config := by
  induction ids generalizing n st with
  | nil => rfl
  | cons id ids ih =>
    have hdel := deleteTransfer_config id st
    unfold deleteAll
    generalize deleteTransfer [] [] id st = r at hdel ⊢
    obtain ⟨ret, st'⟩ := r
    cases ret with
    | error e => exact hdel
    | ok b => exact (ih _ st').trans hdel

/-- One call: the invariant, the reply, and the view after it. -/
theorem call_spec {st : FileStore} (h : Settled st) (c : Call) (hl : Legal c st) :
    Settled (call c st).2 ∧ (call c st).2.config = st.config ∧
      Answers st.config (view st) c (call c st).1 ∧
      view (call c st).2 = after st.config (view st) c (call c st).1 := by
  cases c with
  | store claimed written id i n b data =>
    obtain ⟨hset, hspec⟩ := storeChunk_spec h claimed written [] (u := ⟨id, i, n, b, data⟩) id.2
    have hconfig := storeChunk_config claimed written [] ⟨id, i, n, b, data⟩ st
    unfold call
    dsimp only
    generalize storeChunk claimed written [] ⟨id, i, n, b, data⟩ st = r at hset hspec hconfig ⊢
    obtain ⟨ret, st'⟩ := r
    refine ⟨hset, hconfig, ?_⟩
    cases ret with
    | error e => exact ⟨fun s hs => (nomatch hs), hspec⟩
    | ok s =>
      cases ht : view st id with
      | some t =>
        simp only [Subtype.coe_eta, ht] at hspec
        obtain ⟨hn, hn', hb', hrec, hview⟩ := hspec
        simp only [after, Answers, ht]
        refine ⟨?_, hview⟩
        intro s' hs'
        cases hs'
        exact ⟨fun t' ht' => by cases ht'; exact ⟨hn', hb'⟩, fun hno => (nomatch hno), hn, hrec⟩
      | none =>
        simp only [Subtype.coe_eta, ht] at hspec
        obtain ⟨hn, hi, hrec, hview⟩ := hspec
        simp only [after, Answers, ht, if_pos hi]
        refine ⟨?_, hview⟩
        intro s' hs'
        cases hs'
        exact ⟨fun t' ht' => (nomatch ht'), fun _ => hi, hn, hrec⟩
  | fetch id i => exact ⟨h, rfl, fetch_answers h _ id i, rfl⟩
  | delete id =>
    obtain ⟨hret, hset, hview, _⟩ := deleteTransfer_spec h id
    exact ⟨hset, deleteTransfer_config id st, hret, hview⟩
  | sweep now order =>
    obtain ⟨hset, hans, hview⟩ := sweep_spec h hl
    exact ⟨hset, deleteAll_config 0 order st, hans, hview⟩
  | reopen =>
    obtain ⟨hset, hview⟩ := reopen_spec h st.config
    simp only [call, new_run]
    exact ⟨hset, rfl, rfl, hview⟩

theorem reach_settled {cfg : FileConfig} {h : List (Call × Reply)} {st : FileStore}
    (hr : Reach cfg h st) : Settled st ∧ st.config = cfg ∧ view st = transfersAfter cfg h := by
  induction hr with
  | opened hopen =>
    rw [new_run] at hopen
    obtain rfl := Except.ok.inj hopen
    refine ⟨⟨⟨?_, ?_, ?_⟩, fun _ => rfl, ?_⟩, rfl, rfl⟩
    · intro id m hm
      cases hm
    · intro k v hv
      cases hv
    · intro id m hm
      cases hm
    · intro id i v hv
      cases hv
  | called _ hl ih =>
    obtain ⟨hset, rfl, hview⟩ := ih
    obtain ⟨hset', hconfig, _, hview'⟩ := call_spec hset _ hl
    refine ⟨hset', hconfig, ?_⟩
    rw [hview', hview, transfersAfter, transfersAfter, List.foldl_append]
    rfl

/-- A call about one transfer leaves the others in place. -/
theorem after_other {cfg : FileConfig} {Q : Transfers} {c : Call} {r : Reply} {id j : TransferId}
    (hc : c.id = some id) (hj : j ≠ id) : after cfg Q c r j = Q j := by
  unfold after
  split
  case h_1 =>
    cases hc
    cases Q id with
    | some t => exact Function.update_of_ne hj _ _
    | none =>
      split_ifs
      · exact Function.update_of_ne hj _ _
      · rfl
  case h_2 =>
    cases hc
    exact Function.update_of_ne hj _ _
  case h_3 => cases hc
  case h_4 => cases hc
  case h_5 => rfl

/-- **The file store is a map of transfers.** After any sequence of calls on an empty
    database, each call answers what the map of the accepted calls so far says: a
    fetch returns a chunk just if the transfer is in the map with that shape and that
    chunk, a delete whether the transfer was there. A delete leaves nothing of its
    transfer on disk, and a call about one transfer changes no fetch of another. -/
theorem calls_refine_transfers {cfg : FileConfig} {h : List (Call × Reply)} {st : FileStore}
    (hr : Reach cfg h st) (c : Call) (hl : Legal c st) :
    Answers cfg (transfersAfter cfg h) c (call c st).1 ∧
      (∀ id, c = .delete id → Gone id (call c st).2.tables) ∧
      ∀ id j i, c.id = some id → j ≠ id →
        fetchChunk [] j i (call c st).2 = fetchChunk [] j i st := by
  obtain ⟨hset, rfl, hview⟩ := reach_settled hr
  obtain ⟨hset', _, hans, hafter⟩ := call_spec hset c hl
  refine ⟨hview ▸ hans, ?_, ?_⟩
  · rintro id rfl
    exact (deleteTransfer_spec hset id).2.2.2
  · intro id j i hid hj
    rw [fetchChunk_eq hset', fetchChunk_eq hset, hafter, after_other hid hj]

/-- Limits, a transfer and a stored chunk, to run the calls on. -/
def sampleTransfer : TransferId := ⟨"transfer_0000001", by decide⟩

def sampleConfig : FileConfig :=
  { maxFileBytes := 8, maxTotalFileBytes := 16, fileTtlMs := 1000, maxTransfers := 2
    maxChunks := 4 }

def sampleCreate : Call := .store 5 6 sampleTransfer 0 1 4 [1, 2]

def sampleOpened : FileStore := ofTables sampleConfig ⟨OrdMap.empty, OrdMap.empty⟩

theorem sampleOpened_reach : Reach sampleConfig [] sampleOpened :=
  Reach.opened (by rw [new_run]; rfl)

/-- A delete after a creation. -/
theorem calls_refine_transfers_sample :
    Answers sampleConfig
        (transfersAfter sampleConfig [(sampleCreate, (call sampleCreate sampleOpened).1)])
        (.delete sampleTransfer)
        (call (.delete sampleTransfer) (call sampleCreate sampleOpened).2).1 ∧
      Gone sampleTransfer (call (.delete sampleTransfer) (call sampleCreate sampleOpened).2).2.tables :=
  have hreach := Reach.called (c := sampleCreate) sampleOpened_reach trivial
  have h := calls_refine_transfers hreach (.delete sampleTransfer) trivial
  ⟨h.1, h.2.1 sampleTransfer rfl⟩

example : (call (.fetch sampleTransfer 0) (call sampleCreate sampleOpened).2).1 =
    .fetched (.ok ⟨[1, 2], 1, 4⟩) := rfl

end AxenoRelay.FileStore
