/-
  A complete transfer has all its chunks.

  The counter of a record grows by one when the previous length at an index is 0, and its
  bytes by the difference of the lengths. One call at a time, with any of them rejected or
  failing, `Accounted` holds of every record: the counter is the number of indices with a
  chunk, all below the total, and the bytes are the sum of their lengths. A counter that has
  come to the total thus leaves no index out (`completion_is_real`).
-/
import AxenoRelay.FileStore.Transfers

namespace AxenoRelay.FileStore

/-! ## The calls, with failures -/

/-- The deleting loop of `sweep_expired`; each delete with the failures it meets. -/
def deleteEach (removed : Nat) : List (String × Faults) → FileStore → Except DbError Nat × FileStore
  | [], st => (.ok removed, st)
  | (id, fs) :: ids, st =>
    match deleteTransfer fs [] id st with
    | (.error r, st) => (.error r, st)
    | (.ok existed, st) => deleteEach (if existed then removed + 1 else removed) ids st

/-- The calls that change the store. -/
inductive Change where
  | store (claimed written : Nat) (fs : Faults) (id : TransferId) (i totalChunks totalBytes : Nat)
      (data : Chunk)
  | delete (fs : Faults) (id : TransferId)
  | sweep (now : Nat) (order : List (String × Faults))
  | reopen (cfg : FileConfig) (fs : Faults)

/-- One of them on the store. -/
def change : Change → FileStore → Reply × FileStore
  | .store claimed written fs id i n b data, st =>
    let r := storeChunk claimed written fs ⟨id, i, n, b, data⟩ st
    (.stored r.1, r.2)
  | .delete fs id, st =>
    let r := deleteTransfer fs [] id st
    (.deleted r.1, r.2)
  | .sweep _ order, st =>
    let r := deleteEach 0 order st
    (.swept r.1, r.2)
  | .reopen cfg fs, st =>
    match ((FileStore.new cfg).commit fs st.tables).1 with
    | .error r => (.opened (.error r), st)
    | .ok st' => (.opened (.ok ()), st')

/-- A sweep goes through the expired entries of the cache, in any order. -/
def Change.Legal : Change → FileStore → Prop
  | .sweep now order, st => (order.map Prod.fst).Perm (expiredIds now st)
  | _, _ => True

/-- The call deletes or sweeps the transfer. -/
def Ends (id : TransferId) (c : Change) (st : FileStore) : Prop :=
  (match c with
    | .delete _ j => j = id
    | .sweep _ order => (id : String) ∈ order.map Prod.fst
    | _ => False) ∧ ¬OnDisk id (change c st).2.tables

/-- The stores after any calls on `st₀`, of which none ends a transfer of `kept`. -/
inductive Changed (kept : TransferId → Prop) (st₀ : FileStore) : FileStore → Prop
  | refl : Changed kept st₀ st₀
  | step {st : FileStore} {c : Change} (r : Changed kept st₀ st) (hl : c.Legal st)
      (hk : ∀ id, kept id → ¬Ends id c st) : Changed kept st₀ (change c st).2

/-! ## The accounts -/

/-- The length of the chunk at an index, 0 if there is none. -/
def lengthAt (id : TransferId) (t : FileTables) (i : Nat) : Nat :=
  (t.chunks.get (chunkKey id i)).elim 0 List.length

/-- The indices below `n` with a chunk. -/
def storedIndices (id : TransferId) (n : Nat) (t : FileTables) : Finset Nat :=
  (Finset.range n).filter fun i => (t.chunks.get (chunkKey id i)).isSome = true

/-- What a record says of the chunks of its transfer. -/
structure Accounted (t : FileTables) (id : TransferId) (m : FileMeta) : Prop where
  below : ∀ i, (t.chunks.get (chunkKey id i)).isSome = true → i < m.totalChunks
  received : m.receivedChunks = (storedIndices id m.totalChunks t).card
  stored : m.storedBytes = ∑ i ∈ storedIndices id m.totalChunks t, lengthAt id t i
  declared : m.storedBytes ≤ m.totalBytes

/-- Every record is accounted for. -/
def Accounts (t : FileTables) : Prop :=
  ∀ (id : TransferId) (m : FileMeta), t.fileMeta.get id = some m → Accounted t id m

theorem Accounted.congr {t t' : FileTables} {id : TransferId} {m : FileMeta}
    (h : Accounted t id m) (hc : ∀ i, t'.chunks.get (chunkKey id i) = t.chunks.get (chunkKey id i)) :
    Accounted t' id m := by
  have hset : storedIndices id m.totalChunks t' = storedIndices id m.totalChunks t := by
    unfold storedIndices
    simp only [hc]
  have hlen : ∀ i, lengthAt id t' i = lengthAt id t i := by
    intro i
    unfold lengthAt
    rw [hc]
  refine ⟨fun i hi => h.below i (hc i ▸ hi), ?_, ?_, h.declared⟩
  · rw [hset]
    exact h.received
  · rw [hset, Finset.sum_congr rfl fun i _ => hlen i]
    exact h.stored

/-! ## A write -/

/-- A record that a write may start from: on disk, or a new one. -/
theorem accounted_fresh {st : FileStore} (hs : Settled st) {id : TransferId}
    (hn : st.tables.fileMeta.get id = none) (written : Nat) (u : ChunkUpload) :
    Accounted st.tables id (freshMeta written u) := by
  have hnone := hs.no_rows hn
  have hset : storedIndices id (freshMeta written u).totalChunks st.tables = ∅ := by
    refine Finset.filter_eq_empty_iff.mpr fun i _ => ?_
    rw [hnone i]
    exact Bool.false_ne_true
  refine ⟨fun i hi => ?_, ?_, ?_, Nat.zero_le _⟩
  · rw [hnone i] at hi
    cases hi
  · rw [hset]
    rfl
  · rw [hset]
    rfl

theorem accounted_write {t : FileTables} {id : TransferId} {u : ChunkUpload}
    (hid : u.transferId = id) {m : FileMeta} (h : Accounted t id m)
    (hrows : ∀ v, t.chunks.get (chunkKey id u.chunkIndex) = some v → v ≠ [])
    (hi : u.chunkIndex < m.totalChunks) (hdecl : newStored m (prevLen u t) u ≤ m.totalBytes) :
    Accounted (writeTables m u t) id (grownMeta m (prevLen u t) u) := by
  have hget : ∀ i, (writeTables m u t).chunks.get (chunkKey id i) =
      if i = u.chunkIndex then some u.data else t.chunks.get (chunkKey id i) := by
    intro i
    change (t.chunks.insert _ _).get _ = _
    rw [OrdMap.get_insert, hid]
    exact if_congr (chunkKey_eq_iff.trans (and_iff_right rfl)) rfl rfl
  have hprev : prevLen u t = lengthAt id t u.chunkIndex := by
    rw [prevLen_eq, hid]
    rfl
  have hnew : prevLen u t = 0 ↔ u.chunkIndex ∉ storedIndices id m.totalChunks t := by
    rw [hprev, storedIndices, Finset.mem_filter, Finset.mem_range, lengthAt]
    cases hv : t.chunks.get (chunkKey id u.chunkIndex) with
    | none => simp
    | some v => simp [hi, hrows v hv]
  -- the bytes of the other indices
  have hothers : m.storedBytes = prevLen u t +
      ∑ i ∈ (storedIndices id m.totalChunks t).erase u.chunkIndex, lengthAt id t i := by
    rw [h.stored]
    by_cases hmem : u.chunkIndex ∈ storedIndices id m.totalChunks t
    · rw [hprev, Finset.add_sum_erase _ _ hmem]
    · rw [hnew.mpr hmem, Nat.zero_add, Finset.erase_eq_of_notMem hmem]
  have hindices : storedIndices id m.totalChunks (writeTables m u t) =
      insert u.chunkIndex (storedIndices id m.totalChunks t) := by
    ext i
    simp only [storedIndices, Finset.mem_filter, Finset.mem_range, Finset.mem_insert, hget]
    by_cases hie : i = u.chunkIndex
    · simp [hie, hi]
    · simp [hie]
  have hstored : newStored m (prevLen u t) u = m.storedBytes - prevLen u t + u.data.length := by
    rw [newStored, wrapSub, if_pos (by omega)]
  refine ⟨?_, ?_, ?_, hdecl⟩
  · intro i hsome
    change i < m.totalChunks
    rw [hget] at hsome
    by_cases hie : i = u.chunkIndex
    · exact hie ▸ hi
    · rw [if_neg hie] at hsome
      exact h.below i hsome
  · change (if prevLen u t = 0 then m.receivedChunks + 1 else m.receivedChunks) =
      (storedIndices id m.totalChunks (writeTables m u t)).card
    rw [hindices, h.received]
    by_cases hmem : u.chunkIndex ∈ storedIndices id m.totalChunks t
    · rw [if_neg fun h0 => hnew.mp h0 hmem, Finset.insert_eq_of_mem hmem]
    · rw [if_pos (hnew.mpr hmem), Finset.card_insert_of_notMem hmem]
  · change newStored m (prevLen u t) u =
      ∑ i ∈ storedIndices id m.totalChunks (writeTables m u t), lengthAt id (writeTables m u t) i
    have hsame : ∑ i ∈ (storedIndices id m.totalChunks t).erase u.chunkIndex,
        lengthAt id (writeTables m u t) i =
        ∑ i ∈ (storedIndices id m.totalChunks t).erase u.chunkIndex, lengthAt id t i := by
      refine Finset.sum_congr rfl fun i hmem => ?_
      rw [lengthAt, lengthAt, hget, if_neg (Finset.ne_of_mem_erase hmem)]
    have hhere : lengthAt id (writeTables m u t) u.chunkIndex = u.data.length := by
      rw [lengthAt, hget, if_pos rfl]
      rfl
    have hsplit : insert u.chunkIndex (storedIndices id m.totalChunks t) =
        insert u.chunkIndex ((storedIndices id m.totalChunks t).erase u.chunkIndex) := by
      ext i
      simp only [Finset.mem_insert, Finset.mem_erase]
      tauto
    rw [hindices, hsplit, Finset.sum_insert (Finset.notMem_erase _ _), hhere, hsame, hstored]
    omega

theorem Started.declared {claimed written : Nat} {u : ChunkUpload} {st : FileStore}
    {entry m : FileMeta} {cache : OrdMap String FileMeta}
    (h : Started claimed written u st entry m cache) (hs : Settled st) :
    m.totalChunks = u.totalChunks ∧ m.totalBytes = u.totalBytes := by
  cases h with
  | joined _ _ hentry hm hn hb =>
    obtain ⟨m', hm', hsame⟩ := hs.record_of_entry hentry
    rw [hm] at hm'
    obtain rfl := Option.some.inj hm'
    simp only [shape, Prod.mk.injEq] at hsame
    exact ⟨hsame.1.trans hn, hsame.2.1.trans hb⟩
  | created => exact ⟨rfl, rfl⟩

/-- A store call keeps the accounts. -/
theorem accounts_storeChunk {st : FileStore} (hs : Settled st) (ha : Accounts st.tables)
    (claimed written : Nat) (fs : Faults) {u : ChunkUpload}
    (hu : validBundleId u.transferId = true) :
    Accounts (storeChunk claimed written fs u st).2.tables := by
  rcases storeChunk_cases claimed written fs u st with ⟨r, heq⟩ |
    ⟨entry, m, cache, st', hshape, hstart, hdecl, -, htables, -, heq⟩
  · rw [heq]
    exact ha
  · rw [heq]
    change Accounts st'.tables
    rw [htables]
    obtain ⟨hdata, hi⟩ := checkShape_ok hshape
    have hbase : Accounted st.tables ⟨u.transferId, hu⟩ m := by
      cases hstart with
      | joined _ _ _ hm => exact ha _ m hm
      | created hn => exact accounted_fresh hs (hs.no_record.mp hn) written u
    intro id m' hm'
    change (st.tables.fileMeta.insert _ _).get _ = _ at hm'
    rw [OrdMap.get_insert] at hm'
    split_ifs at hm' with hid
    · cases hm'
      have hid' : u.transferId = id := hid.symm
      have hrec := hbase
      have heqid : (⟨u.transferId, hu⟩ : TransferId) = id := Subtype.ext hid'
      rw [heqid] at hrec
      refine accounted_write hid' hrec (fun v hv => (hs.rows id _ v hv).1) ?_ hdecl
      rw [(hstart.declared hs).1]
      exact hi
    · refine (ha id m' hm').congr fun i => ?_
      change (st.tables.chunks.insert _ _).get _ = _
      rw [OrdMap.get_insert, if_neg]
      intro hkey
      exact hid (chunkKey_inj id.2 hu hkey).1

/-! ## The other calls -/

/-- A delete fails and changes nothing, or goes through. -/
theorem deleteTransfer_cases {st : FileStore} (hs : Settled st) (fs : Faults) (id : TransferId) :
    (∃ e, deleteTransfer fs [] id st = (.error e, st)) ∨
      deleteTransfer fs [] id st = deleteTransfer [] [] id st := by
  have hrun := Txn.commit_nil (deleteTxn_run hs.tables id.2)
  unfold deleteTransfer
  rw [hrun]
  rcases deleteTxn_cases hs.tables id.2 fs with ⟨e, he⟩ | he
  · rw [he]
    exact Or.inl ⟨e, rfl⟩
  · rw [he]
    exact Or.inr rfl

theorem tables_deleteTransfer {st : FileStore} (hs : Settled st) (id : TransferId) :
    (deleteTransfer [] [] id st).2.tables = deleteTables id st.tables := by
  have hrun := Txn.commit_nil (deleteTxn_run hs.tables id.2)
  unfold deleteTransfer
  rw [hrun]
  cases st.tables.fileMeta.get (id : String) <;> rfl

theorem accounts_delete {t : FileTables} (ha : Accounts t) (id : TransferId) :
    Accounts (deleteTables id t) := by
  intro j m hm
  change (t.fileMeta.erase id).get j = some m at hm
  rw [OrdMap.get_erase] at hm
  split_ifs at hm with hj
  refine (ha j m hm).congr fun i => ?_
  rw [get_deleteTables j.2, if_neg hj]

/-- What any call keeps. -/
structure Kept (st : FileStore) : Prop where
  settled : Settled st
  accounts : Accounts st.tables

/-- What deleting some transfers does to the records: those stay as they are, or go. -/
structure Fewer (gone : TransferId → Prop) (t t' : FileTables) : Prop where
  sub : ∀ (j : TransferId) m, t'.fileMeta.get j = some m → t.fileMeta.get j = some m
  others : ∀ j : TransferId, ¬gone j → t'.fileMeta.get j = t.fileMeta.get j

theorem Kept.delete {st : FileStore} (h : Kept st) (fs : Faults) (id : TransferId) :
    Kept (deleteTransfer fs [] id st).2 ∧
      Fewer (· = id) st.tables (deleteTransfer fs [] id st).2.tables := by
  rcases deleteTransfer_cases h.settled fs id with ⟨e, he⟩ | he
  · rw [he]
    exact ⟨h, fun _ _ hm => hm, fun _ _ => rfl⟩
  · rw [he]
    obtain ⟨-, hset, -, -⟩ := deleteTransfer_spec h.settled id
    have htab := tables_deleteTransfer h.settled id
    have hget : ∀ j : TransferId, (deleteTransfer [] [] id st).2.tables.fileMeta.get j =
        if (j : String) = id then none else st.tables.fileMeta.get j := by
      intro j
      rw [htab]
      exact OrdMap.get_erase _ _ _
    refine ⟨⟨hset, ?_⟩, fun j m hm => ?_, fun j hj => ?_⟩
    · rw [htab]
      exact accounts_delete h.accounts id
    · rw [hget] at hm
      split_ifs at hm
      exact hm
    · rw [hget, if_neg fun e => hj (Subtype.ext e)]

theorem Kept.deleteEach {st : FileStore} (h : Kept st) (order : List (TransferId × Faults))
    (n : Nat) :
    Kept (FileStore.deleteEach n (order.map fun e => (e.1.1, e.2)) st).2 ∧
      Fewer (· ∈ order.map Prod.fst) st.tables
        (FileStore.deleteEach n (order.map fun e => (e.1.1, e.2)) st).2.tables := by
  induction order generalizing n st with
  | nil => exact ⟨h, fun _ _ hm => hm, fun _ _ => rfl⟩
  | cons e order ih =>
    obtain ⟨id, fs⟩ := e
    obtain ⟨hk, hf⟩ := h.delete fs id
    rw [List.map_cons, List.map_cons, FileStore.deleteEach]
    dsimp only
    generalize deleteTransfer fs [] id st = r at hk hf ⊢
    obtain ⟨ret, st'⟩ := r
    have hne : ∀ j, j ∉ id :: order.map Prod.fst → j ≠ id :=
      fun j hj he => hj (he ▸ List.mem_cons_self)
    cases ret with
    | error e => exact ⟨hk, hf.sub, fun j hj => hf.others j (hne j hj)⟩
    | ok existed =>
      obtain ⟨hk', hf'⟩ := ih hk (if existed then n + 1 else n)
      refine ⟨hk', fun j m hm => hf.sub j m (hf'.sub j m hm), fun j hj => ?_⟩
      rw [hf'.others j fun hmem => hj (List.mem_cons_of_mem _ hmem)]
      exact hf.others j (hne j hj)

/-- The ids that a legal sweep goes through are valid. -/
theorem sweep_order {st : FileStore} (hs : Settled st) {now : Nat}
    {order : List (String × Faults)} (hl : (order.map Prod.fst).Perm (expiredIds now st)) :
    ∃ order' : List (TransferId × Faults), order = order'.map fun e => (e.1.1, e.2) := by
  have hvalid : ∀ e ∈ order, validBundleId e.1 = true := by
    intro e he
    obtain ⟨c, hc, hid⟩ := List.mem_map.mp (hl.mem_iff.mp (List.mem_map_of_mem (f := Prod.fst) he))
    obtain ⟨m, hm, _⟩ := hs.record_of_entry (OrdMap.get_eq_some_iff.mpr (List.mem_filter.mp hc).1)
    rw [← hid]
    exact hs.tables.ids _ _ hm
  refine ⟨order.pmap (fun e h => (⟨e.1, h⟩, e.2)) hvalid, ?_⟩
  rw [List.map_pmap]
  show order = order.pmap (fun e _ => e) hvalid
  rw [List.pmap_eq_map, List.map_id']

/-- The record of a transfer that a call does not end: of the same shape, its counter no less. -/
def Grown (id : TransferId) (t t' : FileTables) : Prop :=
  ∀ m, t.fileMeta.get id = some m → ∃ m', t'.fileMeta.get id = some m' ∧
    m'.totalChunks = m.totalChunks ∧ m'.totalBytes = m.totalBytes ∧
    m.receivedChunks ≤ m'.receivedChunks

theorem Grown.of_get {id : TransferId} {t t' : FileTables}
    (h : t'.fileMeta.get id = t.fileMeta.get id) : Grown id t t' :=
  fun m hm => ⟨m, h.trans hm, rfl, rfl, le_rfl⟩

theorem grown_of_fewer {gone : TransferId → Prop} {id : TransferId} {t t' : FileTables}
    (h : Fewer gone t t') (hk : ¬(gone id ∧ ¬OnDisk id t')) : Grown id t t' := by
  refine Grown.of_get ?_
  by_cases hg : gone id
  · have hdisk : OnDisk id t' := by
      by_contra hno
      exact hk ⟨hg, hno⟩
    obtain ⟨m, hm⟩ := Option.isSome_iff_exists.mp hdisk
    rw [hm, h.sub id m hm]
  · exact h.others id hg

theorem grown_storeChunk {st : FileStore} (hs : Settled st) (claimed written : Nat) (fs : Faults)
    (u : ChunkUpload) (id : TransferId) :
    Grown id st.tables (storeChunk claimed written fs u st).2.tables := by
  rcases storeChunk_cases claimed written fs u st with ⟨r, heq⟩ |
    ⟨entry, m, cache, st', -, hstart, -, -, htables, -, heq⟩
  · rw [heq]
    exact Grown.of_get rfl
  · rw [heq]
    change Grown id st.tables st'.tables
    rw [htables]
    intro m₀ hm₀
    have hget : (writeTables m u st.tables).fileMeta.get id = if (id : String) = u.transferId then
        some (grownMeta m (prevLen u st.tables) u) else st.tables.fileMeta.get id :=
      OrdMap.get_insert _ _ _ _
    by_cases hid : (id : String) = u.transferId
    · have hold : m = m₀ := by
        rw [hid] at hm₀
        cases hstart with
        | joined _ _ hentry hm => exact Option.some.inj (hm.symm.trans hm₀)
        | created hn =>
          rw [hs.no_record.mp hn] at hm₀
          cases hm₀
      subst hold
      refine ⟨_, hget.trans (if_pos hid), rfl, rfl, ?_⟩
      simp only [grownMeta]
      split_ifs <;> omega
    · exact ⟨m₀, (hget.trans (if_neg hid)).trans hm₀, rfl, rfl, le_rfl⟩

/-- One call: what it keeps, and the records it does not end. -/
theorem kept_change {st : FileStore} (h : Kept st) {c : Change} (hl : c.Legal st) :
    Kept (change c st).2 ∧
      ∀ id, ¬Ends id c st → Grown id st.tables (change c st).2.tables := by
  cases c with
  | store claimed written fs id i n b data =>
    have hset := (storeChunk_spec h.settled claimed written fs (u := ⟨id, i, n, b, data⟩) id.2).1
    refine ⟨⟨hset, ?_⟩, fun j _ => grown_storeChunk h.settled claimed written fs _ j⟩
    exact accounts_storeChunk h.settled h.accounts claimed written fs (u := ⟨id, i, n, b, data⟩) id.2
  | delete fs id =>
    obtain ⟨hk, hf⟩ := h.delete fs id
    exact ⟨hk, fun j hj => grown_of_fewer hf fun he => hj ⟨he.1.symm, he.2⟩⟩
  | sweep now order =>
    obtain ⟨order, rfl⟩ := sweep_order h.settled hl
    obtain ⟨hk, hf⟩ := h.deleteEach order 0
    refine ⟨hk, fun j hj => grown_of_fewer hf fun he => hj ⟨?_, he.2⟩⟩
    obtain ⟨e, hmem, rfl⟩ := List.mem_map.mp he.1
    exact List.mem_map.mpr ⟨(e.1.1, e.2), List.mem_map.mpr ⟨e, hmem, rfl⟩, rfl⟩
  | reopen cfg fs =>
    simp only [change]
    rcases new_cases cfg fs st.tables with ⟨e, he⟩ | he
    · rw [he]
      exact ⟨h, fun id _ => Grown.of_get rfl⟩
    · rw [he]
      exact ⟨⟨(reopen_spec h.settled cfg).1, h.accounts⟩, fun id _ => Grown.of_get rfl⟩

theorem kept_changed {kept : TransferId → Prop} {st₀ st : FileStore} (h₀ : Kept st₀)
    (hr : Changed kept st₀ st) :
    Kept st ∧ ∀ id, kept id → Grown id st₀.tables st.tables := by
  induction hr with
  | refl => exact ⟨h₀, fun id _ => Grown.of_get rfl⟩
  | step r hl hk ih =>
    obtain ⟨hkept, hgrown⟩ := kept_change ih.1 hl
    refine ⟨hkept, fun id hid m hm => ?_⟩
    obtain ⟨m₁, hm₁, hn₁, hb₁, hr₁⟩ := ih.2 id hid m hm
    obtain ⟨m₂, hm₂, hn₂, hb₂, hr₂⟩ := hgrown id (hk id hid) m₁ hm₁
    exact ⟨m₂, hm₂, hn₂.trans hn₁, hb₂.trans hb₁, hr₁.trans hr₂⟩

/-! ## Completion -/

/-- A counter that has come to the total leaves no index out. -/
theorem Accounted.all_stored {t : FileTables} {id : TransferId} {m : FileMeta}
    (h : Accounted t id m) (hfull : m.totalChunks ≤ m.receivedChunks) {i : Nat}
    (hi : i < m.totalChunks) : ∃ d, t.chunks.get (chunkKey id i) = some d := by
  have hcard : (Finset.range m.totalChunks).card ≤ (storedIndices id m.totalChunks t).card := by
    rw [Finset.card_range, ← h.received]
    exact hfull
  have hall := Finset.eq_of_subset_of_card_le (Finset.filter_subset _ _) hcard
  have hmem : i ∈ storedIndices id m.totalChunks t := by
    rw [storedIndices, hall]
    exact Finset.mem_range.mpr hi
  exact Option.isSome_iff_exists.mp (Finset.mem_filter.mp hmem).2

theorem fetch_complete {st : FileStore} (h : Kept st) {id : TransferId} {m : FileMeta}
    (hm : st.tables.fileMeta.get id = some m) (hfull : m.totalChunks ≤ m.receivedChunks) {i : Nat}
    (hi : i < m.totalChunks) :
    ∃ d, fetchChunk [] id i st = .ok ⟨d, m.totalChunks, m.totalBytes⟩ := by
  obtain ⟨d, hd⟩ := (h.accounts id m hm).all_stored hfull hi
  cases hentry : st.cache.get (id : String) with
  | none =>
    rw [h.settled.no_record.mp hentry] at hm
    cases hm
  | some entry =>
    refine ⟨d, ?_⟩
    rw [fetchChunk_eq h.settled, view_some hentry hm]
    simp only [transferOf, hd]
    rw [if_neg (Nat.not_le.mpr hi)]

theorem kept_empty (cfg : FileConfig) : Kept (ofTables cfg ⟨OrdMap.empty, OrdMap.empty⟩) := by
  refine ⟨⟨⟨?_, ?_, ?_⟩, fun _ => rfl, ?_⟩, ?_⟩
  · intro id m hm
    cases hm
  · intro k v hv
    cases hv
  · intro id m hm
    cases hm
  · intro id i v hv
    cases hv
  · intro id m hm
    cases hm

/-- **Completion is real.** After any calls on an empty database every record counts the
    indices with a chunk and the bytes of their chunks, within what was declared. When a
    store call answers that all chunks are there, each of them can be fetched until the
    transfer is deleted or swept. -/
theorem completion_is_real {cfg : FileConfig} {st : FileStore}
    (hr : Changed (fun _ => False) (ofTables cfg ⟨OrdMap.empty, OrdMap.empty⟩) st) :
    Accounts st.tables ∧
    ∀ (claimed written : Nat) (fs : Faults) (id : TransferId) (i n b : Nat) (data : Chunk)
      (st₁ : FileStore) (k : Nat),
      change (.store claimed written fs id i n b data) st = (.stored (.ok ⟨k, k⟩), st₁) →
      ∀ st₂, Changed (· = id) st₁ st₂ → ∀ j < n, ∃ d, fetchChunk [] id j st₂ = .ok ⟨d, n, b⟩ := by
  have hk := (kept_changed (kept_empty cfg) hr).1
  refine ⟨hk.accounts, ?_⟩
  intro claimed written fs id i n b data st₁ k hc st₂ hr₂ j hj
  have hk₁ := (kept_change hk (c := .store claimed written fs id i n b data) trivial).1
  rw [hc] at hk₁
  -- the record after the call
  have hrecord : ∃ m, st₁.tables.fileMeta.get id = some m ∧ m.totalChunks = n ∧ m.totalBytes = b ∧
      m.totalChunks ≤ m.receivedChunks := by
    simp only [change] at hc
    rcases storeChunk_cases claimed written fs ⟨id, i, n, b, data⟩ st with ⟨r, heq⟩ |
      ⟨entry, m, cache, st', -, hstart, -, -, htables, -, heq⟩
    · rw [heq] at hc
      cases hc
    · obtain ⟨hn, hb⟩ := hstart.declared hk.settled
      rw [heq] at hc
      simp only [Prod.mk.injEq, Reply.stored.injEq, Except.ok.injEq, StoredChunk.mk.injEq] at hc
      obtain ⟨⟨hrec, hnk⟩, rfl⟩ := hc
      have hget : st'.tables.fileMeta.get id = some (grownMeta m
          (prevLen ⟨id, i, n, b, data⟩ st.tables) ⟨id, i, n, b, data⟩) := by
        rw [htables]
        exact (OrdMap.get_insert _ _ _ _).trans (if_pos rfl)
      refine ⟨_, hget, hn, hb, ?_⟩
      exact (hn.trans hnk).trans_le hrec.ge
  obtain ⟨m, hm, hn, hb, hfull⟩ := hrecord
  obtain ⟨hk₂, hgrown⟩ := kept_changed hk₁ hr₂
  obtain ⟨m₂, hm₂, hn₂, hb₂, hr₂⟩ := hgrown id rfl m hm
  obtain ⟨d, hd⟩ := fetch_complete hk₂ hm₂ (by omega) (i := j) (by omega)
  exact ⟨d, by rw [hd, hn₂, hb₂, hn, hb]⟩

/-- A store call that completes a transfer of one chunk, and a reopening after it. -/
theorem completion_is_real_sample : ∃ d, fetchChunk [] sampleTransfer 0
    (change (.reopen sampleConfig [])
      (change (.store 5 6 [] sampleTransfer 0 1 4 [1, 2]) sampleOpened).2).2 = .ok ⟨d, 1, 4⟩ := by
  have hstart : Changed (fun _ => False) sampleOpened sampleOpened := .refl
  refine (completion_is_real hstart).2 5 6 [] sampleTransfer 0 1 4 [1, 2]
    (change (.store 5 6 [] sampleTransfer 0 1 4 [1, 2]) sampleOpened).2 1 rfl _ ?_ 0 (by decide)
  exact .step .refl trivial fun _ _ he => he.1

end AxenoRelay.FileStore
