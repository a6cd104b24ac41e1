/-
  Every file within the limits can be transferred.

  `FileConfig::from_env` derives the chunk limit from the file limit by rounding up, so a
  split into chunks of at least the smallest size never has too many (`chunks_le`). From a
  store with room for the file, each call for one of its chunks is accepted whatever was
  uploaded before (`upload_step`): the record counts and adds up exactly the chunks so far,
  and the bytes reserved are those of the store at first and these. Fetching the chunks in
  order then gives the file (`file_transferred`).
-/
import AxenoRelay.FileStore.Complete
import AxenoRelay.Util

namespace AxenoRelay

/-! ## The configuration -/

/-- `env_u64`; `env` is `std::env::var`. -/
def envU64 (env : String → Option String) (key : String) (default : Nat) : Nat :=
  match env key with
  | some v => ((parseU64 (trim v).toList).filter fun n => decide (0 < n)).getD default
  | none => default

/-- `u64::saturating_mul`. -/
def saturatingMul (a b : Nat) : Nat := min (a * b) (2 ^ 64 - 1)

def FileConfig.fromEnv (env : String → Option String) : FileConfig :=
  let maxFileBytes := saturatingMul (envU64 env "AXENO_MAX_FILE_MIB" defaultMaxFileMib) (1024 * 1024)
  let maxTotalFileBytes :=
    max (saturatingMul (envU64 env "AXENO_MAX_TOTAL_FILE_MIB" defaultMaxTotalFileMib) (1024 * 1024))
      maxFileBytes
  let fileTtlMs :=
    saturatingMul (envU64 env "AXENO_FILE_TTL_HOURS" defaultFileTtlHours) (60 * 60 * 1000)
  let maxTransfers := envU64 env "AXENO_MAX_FILE_TRANSFERS" defaultMaxFileTransfers
  let maxChunks := max 1 (min ((maxFileBytes + minFileChunkBytes - 1) / minFileChunkBytes) (2 ^ 32 - 1))
  { maxFileBytes, maxTotalFileBytes, fileTtlMs, maxTransfers, maxChunks }

example : (FileConfig.fromEnv fun _ => some " 1\n").maxChunks = 64 := by decide +kernel

namespace FileStore

/-- A file cut into chunks: none is empty, and all but the last have the smallest size. -/
structure Split (file : List UInt8) (parts : List Chunk) : Prop where
  flatten : parts.flatten = file
  nonempty : ∀ p ∈ parts, p ≠ []
  least : ∀ p ∈ parts.dropLast, minFileChunkBytes ≤ p.length
  count : parts.length < 2 ^ 32

theorem length_flatten_ge {parts : List Chunk} {k : Nat} (h : ∀ p ∈ parts, k ≤ p.length) :
    parts.length * k ≤ parts.flatten.length := by
  induction parts with
  | nil => simp
  | cons p parts ih =>
    have hp := h p List.mem_cons_self
    have hrest := ih fun q hq => h q (List.mem_cons_of_mem _ hq)
    rw [List.length_cons, List.flatten_cons, List.length_append, Nat.add_mul]
    omega

/-- A split of a file within the limit does not have too many chunks. -/
theorem Split.chunks_le {env : String → Option String} {file : List UInt8} {parts : List Chunk}
    (h : Split file parts) (hfile : file ≠ [])
    (hlen : file.length ≤ (FileConfig.fromEnv env).maxFileBytes) :
    0 < parts.length ∧ parts.length ≤ (FileConfig.fromEnv env).maxChunks := by
  have hne : parts ≠ [] := by
    rintro rfl
    exact hfile h.flatten.symm
  have hsplit := List.dropLast_append_getLast hne
  have hlast := List.length_pos_iff.mpr (h.nonempty _ (List.getLast_mem hne))
  have hfirst := length_flatten_ge h.least
  have hbytes : file.length = parts.dropLast.flatten.length + (parts.getLast hne).length := by
    rw [← h.flatten]
    nth_rewrite 1 [← hsplit]
    rw [List.flatten_append, List.length_append, List.flatten_singleton]
  have hcount := h.count
  have hpos := List.length_pos_iff.mpr hne
  refine ⟨hpos, ?_⟩
  rw [List.length_dropLast] at hfirst
  have hdiv : parts.length ≤ ((FileConfig.fromEnv env).maxFileBytes + minFileChunkBytes - 1) /
      minFileChunkBytes := by
    rw [Nat.le_div_iff_mul_le (by decide)]
    obtain ⟨k, hk⟩ := Nat.exists_eq_succ_of_ne_zero hpos.ne'
    rw [hk] at hfirst ⊢
    rw [Nat.succ_mul]
    simp only [Nat.succ_eq_add_one, Nat.add_sub_cancel] at hfirst
    have hmin : 0 < minFileChunkBytes := by decide
    omega
  have hmax : (FileConfig.fromEnv env).maxChunks = max 1
      (min (((FileConfig.fromEnv env).maxFileBytes + minFileChunkBytes - 1) / minFileChunkBytes)
        (2 ^ 32 - 1)) := rfl
  rw [hmax]
  omega

/-! ## A write that is accepted -/

theorem prepareWrite_run {cfg : FileConfig} {now : Nat} {creating : Bool} {u : ChunkUpload}
    {t : FileTables} {m : FileMeta} (hb : IsBase now creating u t m)
    (hdecl : newStored m (prevLen u t) u ≤ m.totalBytes)
    (hfile : newStored m (prevLen u t) u ≤ cfg.maxFileBytes) :
    prepareWrite cfg now creating u t [] = .ok ((m, prevLen u t), t, []) := by
  have hbase : baseMeta now creating u t [] = .ok (m, t, []) := by
    unfold baseMeta IsBase at *
    cases creating with
    | true => exact congrArg (fun m => Except.ok (m, t, [])) hb.symm
    | false =>
      simp only [Bool.false_eq_true, if_false] at hb ⊢
      simp only [Txn.bind_run, Txn.read, Txn.call, List.tail_nil, hb]
      rfl
  unfold prepareWrite
  simp only [Txn.bind_run, Txn.touch, Txn.read, Txn.call, List.tail_nil, hbase]
  rw [if_neg (by omega)]
  rfl

theorem writeTxn_accepts {now : Nat} {creating : Bool} {u : ChunkUpload} {st : FileStore}
    {m : FileMeta} (hb : IsBase now creating u st.tables m) (ha : Accepts st m u) :
    writeTxn now [] creating u st = (.ok (written m u st.tables), wrote m u st) := by
  rcases writeTxn_cases now [] creating u st with ⟨e, he⟩ | ⟨m', hb', -, hw⟩
  · -- nothing that a write checks stands against this one
    unfold writeTxn at he
    rw [prepareWrite_run hb ha.declared ha.perFile] at he
    dsimp only at he
    have hins : (insertChunk (grownMeta m (prevLen u st.tables) u) u).commit [] st.tables =
        (.ok (), writeTables m u st.tables) := rfl
    by_cases hlt : prevLen u st.tables < u.data.length
    · simp only [if_pos hlt, tryReserveBytes, if_neg (Nat.not_lt.mpr (ha.budget hlt)), hins] at he
      cases he
    · simp only [if_neg hlt, hins] at he
      cases he
  · have hmm : m' = m := by
      unfold IsBase at hb hb'
      cases creating with
      | true => exact hb'.trans hb.symm
      | false => exact Option.some.inj (hb'.symm.trans hb)
    rw [hw, hmm]

/-! ## The chunks of a file -/

/-- The chunk at an index of a split. -/
def partAt (parts : List Chunk) (i : Nat) : Chunk := parts.getD i []

theorem sum_partAt (parts : List Chunk) :
    ∑ i ∈ Finset.range parts.length, (partAt parts i).length = parts.flatten.length := by
  induction parts with
  | nil => rfl
  | cons p parts ih =>
    rw [List.length_cons, Finset.sum_range_succ', List.flatten_cons, List.length_append, ← ih,
      Nat.add_comm]
    rfl

/-- Some of the chunks are together no longer than the file. -/
theorem Split.sum_le {file : List UInt8} {parts : List Chunk} (h : Split file parts)
    {done : Finset Nat} (hdone : ∀ i ∈ done, i < parts.length) :
    ∑ i ∈ done, (partAt parts i).length ≤ file.length := by
  rw [← h.flatten, ← sum_partAt]
  exact Finset.sum_le_sum_of_subset fun i hi => Finset.mem_range.mpr (hdone i hi)

theorem Split.partAt_ne {file : List UInt8} {parts : List Chunk} (h : Split file parts) {i : Nat}
    (hi : i < parts.length) : partAt parts i ≠ [] := by
  unfold partAt
  rw [List.getD_eq_getElem _ _ hi]
  exact h.nonempty _ (List.getElem_mem hi)

/-- The call for a chunk of the file. -/
def chunkOf (id : TransferId) (file : List UInt8) (parts : List Chunk) (i : Nat) : ChunkUpload :=
  { transferId := id
    chunkIndex := i
    totalChunks := parts.length
    totalBytes := file.length
    data := partAt parts i }

/-! ## One call -/

/-- A store with room for a file. -/
structure Room (file : List UInt8) (parts : List Chunk) (st : FileStore) : Prop where
  split : Split file parts
  chunks : 0 < parts.length ∧ parts.length ≤ st.config.maxChunks
  nonempty : file ≠ []
  perFile : file.length ≤ st.config.maxFileBytes
  total : st.reservedBytes + file.length ≤ st.config.maxTotalFileBytes

/-- The store when the chunks of `done` are uploaded, `m` being the record of the transfer
    that the next write starts from. -/
structure Holding (id : TransferId) (file : List UInt8) (parts : List Chunk) (st₀ st : FileStore)
    (m : FileMeta) (done : Finset Nat) : Prop where
  config : st.config = st₀.config
  entry : ∃ e, st.cache.get id = some e ∧ e.totalChunks = parts.length ∧ e.totalBytes = file.length
  totalChunks : m.totalChunks = parts.length
  totalBytes : m.totalBytes = file.length
  received : m.receivedChunks = done.card
  stored : m.storedBytes = ∑ i ∈ done, (partAt parts i).length
  reserved : st.reservedBytes = st₀.reservedBytes + m.storedBytes
  below : ∀ i ∈ done, i < parts.length
  chunks : ∀ i, st.tables.chunks.get (chunkKey id i) =
    if i ∈ done then some (partAt parts i) else none

/-- The record is on disk, too. -/
def Uploaded (id : TransferId) (file : List UInt8) (parts : List Chunk) (st₀ st : FileStore)
    (done : Finset Nat) : Prop :=
  ∃ m, st.tables.fileMeta.get id = some m ∧ Holding id file parts st₀ st m done

section

variable {id : TransferId} {file : List UInt8} {parts : List Chunk} {st₀ st : FileStore}
  {m : FileMeta} {done : Finset Nat}

theorem prevLen_chunkOf (h : Holding id file parts st₀ st m done) (i : Nat) :
    prevLen (chunkOf id file parts i) st.tables =
      if i ∈ done then (partAt parts i).length else 0 := by
  rw [prevLen_eq]
  change (st.tables.chunks.get (chunkKey id i)).elim 0 List.length = _
  rw [h.chunks]
  split_ifs <;> rfl

theorem newStored_chunkOf (h : Holding id file parts st₀ st m done) (i : Nat) :
    newStored m (prevLen (chunkOf id file parts i) st.tables) (chunkOf id file parts i) =
      ∑ j ∈ insert i done, (partAt parts j).length := by
  rw [prevLen_chunkOf h, newStored, h.stored]
  change wrapSub _ _ + (partAt parts i).length = _
  by_cases hi : i ∈ done
  · have hle : (partAt parts i).length ≤ ∑ j ∈ done, (partAt parts j).length :=
      Finset.single_le_sum (f := fun j => (partAt parts j).length) (fun _ _ => Nat.zero_le _) hi
    rw [if_pos hi, wrapSub, if_pos hle, Nat.sub_add_cancel hle, Finset.insert_eq_of_mem hi]
  · rw [if_neg hi, wrapSub, if_pos (Nat.zero_le _), Finset.sum_insert hi, Nat.sub_zero,
      Nat.add_comm]

theorem accepts_chunkOf (hr : Room file parts st₀) (h : Holding id file parts st₀ st m done)
    {i : Nat} (hi : i < parts.length) : Accepts st m (chunkOf id file parts i) := by
  have hsum : ∑ j ∈ insert i done, (partAt parts j).length ≤ file.length := by
    refine hr.split.sum_le fun j hj => ?_
    rcases Finset.mem_insert.mp hj with rfl | hj
    · exact hi
    · exact h.below j hj
  refine ⟨?_, ?_, fun hlt => ?_⟩
  · rw [newStored_chunkOf h, h.totalBytes]
    exact hsum
  · rw [newStored_chunkOf h, h.config]
    exact hsum.trans hr.perFile
  · rw [prevLen_chunkOf h] at hlt ⊢
    change _ < (partAt parts i).length at hlt
    change _ + ((partAt parts i).length - _) ≤ _
    have htotal := hr.total
    split_ifs at hlt ⊢ with hmem
    · exact absurd hlt (lt_irrefl _)
    · rw [Finset.sum_insert hmem] at hsum
      rw [h.config, h.reserved, h.stored]
      omega

/-- The write of a chunk goes through, and the cache follows it. -/
theorem upload_write (hr : Room file parts st₀) (h : Holding id file parts st₀ st m done)
    {w : Nat} (creating : Bool) {i : Nat} (hi : i < parts.length)
    (hb : IsBase w creating (chunkOf id file parts i) st.tables m) :
    ∃ wr st', writeTxn w [] creating (chunkOf id file parts i) st = (.ok wr, st') ∧
      wr.release = 0 ∧ wr.receivedChunks = (insert i done).card ∧
      Uploaded id file parts st₀ (mirror (chunkOf id file parts i) wr st') (insert i done) := by
  have hprev := prevLen_chunkOf h i
  have hpos : 0 < (partAt parts i).length := List.length_pos_iff.mpr (hr.split.partAt_ne hi)
  have hreceived : (written m (chunkOf id file parts i) st.tables).receivedChunks =
      (insert i done).card := by
    simp only [written, grownMeta, hprev, h.received]
    by_cases hmem : i ∈ done
    · rw [if_pos hmem, if_neg hpos.ne', Finset.insert_eq_of_mem hmem]
    · rw [if_neg hmem, if_pos rfl, Finset.card_insert_of_notMem hmem]
  refine ⟨_, _, writeTxn_accepts hb (accepts_chunkOf hr h hi), ?_, hreceived, ?_⟩
  · change prevLen _ st.tables - (partAt parts i).length = 0
    rw [hprev]
    split_ifs <;> omega
  · obtain ⟨e, he, hen, heb⟩ := h.entry
    refine ⟨grownMeta m (prevLen (chunkOf id file parts i) st.tables) (chunkOf id file parts i),
      (OrdMap.get_insert _ _ _ _).trans (if_pos rfl), ?_⟩
    refine ⟨h.config, ?_, h.totalChunks, h.totalBytes, hreceived, newStored_chunkOf h i, ?_, ?_, ?_⟩
    · have hcache : (wrote m (chunkOf id file parts i) st).cache.get
          (chunkOf id file parts i).transferId = some e := he
      simp only [mirror, hcache, Option.getD_some, OrdMap.get_insert]
      refine ⟨_, if_pos rfl, ?_, ?_⟩ <;> split_ifs <;> first | exact hen | exact heb
    · change st.reservedBytes + ((partAt parts i).length - prevLen _ st.tables) =
        st₀.reservedBytes + newStored m _ _
      rw [newStored_chunkOf h, hprev, h.reserved, h.stored]
      by_cases hmem : i ∈ done
      · rw [if_pos hmem, Finset.insert_eq_of_mem hmem]
        omega
      · rw [if_neg hmem, Finset.sum_insert hmem]
        omega
    · intro j hj
      rcases Finset.mem_insert.mp hj with rfl | hj
      · exact hi
      · exact h.below j hj
    · intro j
      change (st.tables.chunks.insert (chunkKey id i) (partAt parts i)).get (chunkKey id j) = _
      rw [OrdMap.get_insert, h.chunks]
      by_cases hji : j = i
      · rw [hji, if_pos rfl, if_pos (Finset.mem_insert_self i done)]
      · have hne : chunkKey id j ≠ chunkKey id i := fun e => hji (chunkKey_eq_iff.mp e).2
        rw [if_neg hne]
        simp only [Finset.mem_insert, hji, false_or]

theorem checkShape_chunkOf (hr : Room file parts st₀) {cfg : FileConfig} (hcfg : cfg = st₀.config)
    {i : Nat} (hi : i < parts.length) : checkShape cfg (chunkOf id file parts i) = .ok () := by
  have hdata : (partAt parts i).isEmpty = false := by
    rw [List.isEmpty_eq_false_iff]
    exact hr.split.partAt_ne hi
  have hlen := List.length_pos_iff.mpr hr.nonempty
  have hchunks := hr.chunks
  have hfile := hr.perFile
  unfold checkShape chunkOf
  rw [hcfg]
  dsimp only
  rw [hdata, if_neg, if_neg]
  · omega
  · simp only [Bool.false_eq_true, false_or]
    omega

/-- A call for a chunk, after the first one or again. -/
theorem upload_step (hr : Room file parts st₀) (h : Uploaded id file parts st₀ st done)
    (claimed w : Nat) {i : Nat} (hi : i < parts.length) :
    ∃ st', storeChunk claimed w [] (chunkOf id file parts i) st =
        (.ok ⟨(insert i done).card, parts.length⟩, st') ∧
      Uploaded id file parts st₀ st' (insert i done) := by
  obtain ⟨m, hm, hh⟩ := h
  obtain ⟨e, he, hen, heb⟩ := hh.entry
  obtain ⟨wr, st', hw, hrel, hrec, hup⟩ := upload_write hr hh (w := w) false hi hm
  have hclaim : claim claimed (chunkOf id file parts i) st = (.ok false, st) := by
    have hcache : st.cache.get (chunkOf id file parts i).transferId = some e := he
    unfold claim
    rw [hcache]
    dsimp only
    rw [if_neg]
    rintro (hne | hne)
    · exact hne hen
    · exact hne heb
  refine ⟨_, ?_, hup⟩
  unfold storeChunk
  rw [checkShape_chunkOf hr hh.config hi, hclaim]
  simp only [Bool.false_eq_true, if_false, hw, hrel, lt_irrefl, hrec]
  rfl

/-- Nothing of the transfer is in the store. -/
structure Unused (id : TransferId) (st : FileStore) : Prop where
  entry : st.cache.get id = none
  record : st.tables.fileMeta.get id = none
  chunks : ∀ i, st.tables.chunks.get (chunkKey id i) = none

/-- The first call, for chunk 0. -/
theorem upload_first (hr : Room file parts st) (hu : Unused id st)
    (hslot : st.transferCount < st.config.maxTransfers) (claimed w : Nat) :
    ∃ st', storeChunk claimed w [] (chunkOf id file parts 0) st = (.ok ⟨1, parts.length⟩, st') ∧
      Uploaded id file parts st st' {0} := by
  generalize hst₁ : ({ st with
    cache := st.cache.insert id (freshMeta claimed (chunkOf id file parts 0))
    transferCount := st.transferCount + 1 } : FileStore) = st₁
  have hh : Holding id file parts st st₁ (freshMeta w (chunkOf id file parts 0)) ∅ := by
    rw [← hst₁]
    refine ⟨rfl, ⟨_, (OrdMap.get_insert _ _ _ _).trans (if_pos rfl), rfl, rfl⟩, rfl, rfl, rfl,
      rfl, rfl, fun i hi => absurd hi (Finset.notMem_empty i), fun i => ?_⟩
    rw [if_neg (Finset.notMem_empty i)]
    exact hu.chunks i
  obtain ⟨wr, st', hw, hrel, hrec, hup⟩ :=
    upload_write hr hh (w := w) true hr.chunks.1 rfl
  have hclaim : claim claimed (chunkOf id file parts 0) st = (.ok true,
      { st with cache := st.cache.insert id (freshMeta claimed (chunkOf id file parts 0)) }) := by
    have hcache : st.cache.get (chunkOf id file parts 0).transferId = none := hu.entry
    unfold claim
    rw [hcache]
    rfl
  have hreserve : reserveSlot
      { st with cache := st.cache.insert id (freshMeta claimed (chunkOf id file parts 0)) } =
      .ok st₁ := by
    rw [← hst₁]
    exact if_neg (Nat.not_le.mpr hslot)
  refine ⟨_, ?_, hup⟩
  unfold storeChunk
  rw [checkShape_chunkOf hr rfl hr.chunks.1, hclaim]
  simp only [if_true, hreserve, hw, hrel, lt_irrefl, if_false, hrec]
  rfl

end

/-! ## A whole file -/

/-- The calls for the chunks of a file, each with its two readings of the clock. -/
def upload (id : TransferId) (file : List UInt8) (parts : List Chunk) :
    List (Nat × Nat × Nat) → FileStore → List (Except FileReject StoredChunk) × FileStore
  | [], st => ([], st)
  | (claimed, w, i) :: calls, st =>
    let r := storeChunk claimed w [] (chunkOf id file parts i) st
    let rest := upload id file parts calls r.2
    (r.1 :: rest.1, rest.2)

/-- The chunks at the given indices, fetched one after the other. -/
def download (id : TransferId) : List Nat → FileStore → Except FileReject (List UInt8)
  | [], _ => .ok []
  | i :: rest, st =>
    match fetchChunk [] id i st with
    | .error r => .error r
    | .ok f => (download id rest st).map (f.data ++ ·)

section

variable {id : TransferId} {file : List UInt8} {parts : List Chunk} {st₀ st : FileStore}

/-- The indices called for, with those uploaded before. -/
def uploadedBy (done : Finset Nat) (calls : List (Nat × Nat × Nat)) : Finset Nat :=
  done ∪ (calls.map fun c => c.2.2).toFinset

theorem uploadedBy_cons (done : Finset Nat) (c : Nat × Nat × Nat)
    (calls : List (Nat × Nat × Nat)) :
    uploadedBy done (c :: calls) = uploadedBy (insert c.2.2 done) calls := by
  unfold uploadedBy
  rw [List.map_cons, List.toFinset_cons, Finset.union_insert, Finset.insert_union]

/-- The replies count the chunks so far. -/
theorem upload_run (hr : Room file parts st₀) {calls : List (Nat × Nat × Nat)}
    (hcalls : ∀ c ∈ calls, c.2.2 < parts.length) {done : Finset Nat}
    (h : Uploaded id file parts st₀ st done) :
    Uploaded id file parts st₀ (upload id file parts calls st).2 (uploadedBy done calls) ∧
      (upload id file parts calls st).1.length = calls.length ∧
      ∀ k < calls.length, (upload id file parts calls st).1[k]? =
        some (.ok ⟨(uploadedBy done (calls.take (k + 1))).card, parts.length⟩) := by
  induction calls generalizing st done with
  | nil =>
    have hsame : uploadedBy done [] = done := Finset.union_empty done
    rw [hsame]
    exact ⟨h, rfl, fun k hk => absurd hk (Nat.not_lt_zero k)⟩
  | cons c calls ih =>
    obtain ⟨claimed, w, i⟩ := c
    obtain ⟨st', hst', hup⟩ := upload_step hr h claimed w (hcalls _ List.mem_cons_self)
    obtain ⟨h1, h2, h3⟩ := ih (fun c hc => hcalls c (List.mem_cons_of_mem _ hc)) hup
    unfold upload
    simp only [hst', uploadedBy_cons]
    refine ⟨h1, by rw [List.length_cons, h2, List.length_cons], ?_⟩
    intro k hk
    cases k with
    | zero =>
      simp only [List.getElem?_cons_zero, List.take_succ_cons, List.take_zero, uploadedBy_cons]
      have hsame : uploadedBy (insert i done) [] = insert i done := Finset.union_empty _
      rw [hsame]
    | succ k =>
      rw [List.getElem?_cons_succ, List.take_succ_cons, uploadedBy_cons]
      exact h3 k (Nat.lt_of_succ_lt_succ hk)

theorem fetch_uploaded (h : Uploaded id file parts st₀ st (Finset.range parts.length)) {i : Nat}
    (hi : i < parts.length) :
    fetchChunk [] id i st = .ok ⟨partAt parts i, parts.length, file.length⟩ := by
  obtain ⟨m, hm, hh⟩ := h
  obtain ⟨e, he, hen, heb⟩ := hh.entry
  have hchunk := hh.chunks i
  rw [if_pos (Finset.mem_range.mpr hi)] at hchunk
  unfold fetchChunk fetchShape
  rw [he]
  dsimp only
  rw [if_neg (by omega)]
  simp only [fetchTxn, Txn.commit, Txn.bind_run, Txn.touch, Txn.read, Txn.call, List.tail_nil,
    hchunk, hen, heb]
  rfl

theorem download_uploaded (h : Uploaded id file parts st₀ st (Finset.range parts.length))
    {l : List Nat} (hl : ∀ i ∈ l, i < parts.length) :
    download id l st = .ok (l.flatMap (partAt parts)) := by
  induction l with
  | nil => rfl
  | cons i l ih =>
    unfold download
    rw [fetch_uploaded h (hl i List.mem_cons_self),
      ih fun j hj => hl j (List.mem_cons_of_mem _ hj)]
    rfl

theorem flatMap_partAt (parts : List Chunk) :
    (List.range parts.length).flatMap (partAt parts) = parts.flatten := by
  have hmap : (List.range parts.length).map (partAt parts) = parts := by
    refine List.ext_getElem (by simp) fun i h1 h2 => ?_
    rw [List.getElem_map, List.getElem_range, partAt, List.getD_eq_getElem _ _ h2]
  rw [List.flatMap_def, hmap]

/-- Every index is called for. -/
def Covers (n : Nat) (calls : List (Nat × Nat × Nat)) : Prop :=
  ∀ i < n, i ∈ calls.map fun c => c.2.2

theorem Covers.uploadedBy_eq {n : Nat} {calls : List (Nat × Nat × Nat)} (h : Covers n calls)
    (hcalls : ∀ c ∈ calls, c.2.2 < n) : uploadedBy ∅ calls = Finset.range n := by
  ext i
  simp only [uploadedBy, Finset.empty_union, List.mem_toFinset, Finset.mem_range]
  constructor
  · intro hi
    obtain ⟨c, hc, rfl⟩ := List.mem_map.mp hi
    exact hcalls c hc
  · exact h i

/-- After the last new index, all have been called for. -/
theorem Covers.upTo {n : Nat} {pre post : List (Nat × Nat × Nat)} {c : Nat × Nat × Nat}
    (h : Covers n (pre ++ c :: post)) (hlast : ∀ a ∈ post, ∃ b ∈ pre ++ [c], b.2.2 = a.2.2) :
    Covers n (pre ++ [c]) := by
  intro i hi
  obtain ⟨a, ha, rfl⟩ := List.mem_map.mp (h i hi)
  rcases List.mem_append.mp ha with hpre | hcpost
  · exact List.mem_map.mpr ⟨a, List.mem_append_left _ hpre, rfl⟩
  · rcases List.mem_cons.mp hcpost with rfl | hpost
    · exact List.mem_map.mpr ⟨a, List.mem_append_right _ List.mem_cons_self, rfl⟩
    · obtain ⟨b, hb, hba⟩ := hlast a hpost
      exact List.mem_map.mpr ⟨b, hb, hba⟩

/-- The replies when nothing was there before. -/
theorem upload_all (hr : Room file parts st) (hu : Unused id st)
    (hslot : st.transferCount < st.config.maxTransfers) (claimed w : Nat)
    {calls : List (Nat × Nat × Nat)} (hcalls : ∀ c ∈ calls, c.2.2 < parts.length) :
    let all := (claimed, w, 0) :: calls
    Uploaded id file parts st (upload id file parts all st).2 (uploadedBy ∅ all) ∧
      (upload id file parts all st).1.length = all.length ∧
      ∀ k < all.length, (upload id file parts all st).1[k]? =
        some (.ok ⟨(uploadedBy ∅ (all.take (k + 1))).card, parts.length⟩) := by
  intro all
  obtain ⟨st', hst', hup⟩ := upload_first hr hu hslot claimed w
  obtain ⟨h1, h2, h3⟩ := upload_run hr hcalls hup
  have hzero : ∀ l, uploadedBy ∅ ((claimed, w, 0) :: l) = uploadedBy {0} l :=
    fun l => uploadedBy_cons ∅ (claimed, w, 0) l
  unfold upload
  simp only [hst', all, hzero]
  refine ⟨h1, by rw [List.length_cons, h2, List.length_cons], ?_⟩
  intro k hk
  cases k with
  | zero => rfl
  | succ k =>
    rw [List.getElem?_cons_succ, List.take_succ_cons, hzero]
    exact h3 k (Nat.lt_of_succ_lt_succ hk)

end

/-- **Every file within the limits can be transferred.** Whatever the environment says, if a
    store has a slot and the bytes left and holds nothing of the transfer, then every call for
    a chunk of the file is accepted, the last new one answers that all are there, and fetching
    them in order gives the file. -/
theorem file_transferred {env : String → Option String} {st : FileStore}
    (hcfg : st.config = FileConfig.fromEnv env) {id : TransferId} (hunused : Unused id st)
    (hslot : st.transferCount < st.config.maxTransfers) {file : List UInt8} (hfile : file ≠ [])
    (hlen : file.length ≤ st.config.maxFileBytes)
    (htotal : st.reservedBytes + file.length ≤ st.config.maxTotalFileBytes) {parts : List Chunk}
    (hsplit : Split file parts) {claimed w : Nat} {calls : List (Nat × Nat × Nat)}
    (hcalls : ∀ c ∈ calls, c.2.2 < parts.length) :
    let all := (claimed, w, 0) :: calls
    let done := upload id file parts all st
    done.1.length = all.length ∧ (∀ r ∈ done.1, ∃ s, r = .ok s) ∧
      (Covers parts.length all →
        (∀ pre c post, all = pre ++ c :: post →
          (∀ a ∈ post, ∃ b ∈ pre ++ [c], b.2.2 = a.2.2) →
          done.1[pre.length]? = some (.ok ⟨parts.length, parts.length⟩)) ∧
        download id (List.range parts.length) done.2 = .ok file) := by
  intro all done
  have hchunks : 0 < parts.length ∧ parts.length ≤ st.config.maxChunks := by
    rw [hcfg] at hlen ⊢
    exact hsplit.chunks_le hfile hlen
  have hr : Room file parts st := ⟨hsplit, hchunks, hfile, hlen, htotal⟩
  obtain ⟨hup, hlength, hreplies⟩ := upload_all hr hunused hslot claimed w hcalls
  have hall : ∀ c ∈ all, c.2.2 < parts.length := by
    intro c hc
    rcases List.mem_cons.mp hc with rfl | hc
    · exact hchunks.1
    · exact hcalls c hc
  refine ⟨hlength, ?_, fun hcovers => ⟨?_, ?_⟩⟩
  · intro r hmem
    obtain ⟨k, hk, rfl⟩ := List.mem_iff_getElem.mp hmem
    have hget := hreplies k (hlength ▸ hk)
    rw [List.getElem?_eq_getElem hk] at hget
    exact ⟨_, Option.some.inj hget⟩
  · intro pre c post hsplitAt hlast
    have hk : pre.length < all.length := by
      rw [hsplitAt, List.length_append, List.length_cons]
      omega
    have htake : all.take (pre.length + 1) = pre ++ [c] := by
      rw [hsplitAt, List.take_length_add_append]
      rfl
    have hdone : uploadedBy ∅ (pre ++ [c]) = Finset.range parts.length := by
      refine (Covers.upTo (hsplitAt ▸ hcovers) hlast).uploadedBy_eq fun a ha => hall a ?_
      rw [hsplitAt]
      rw [List.append_cons pre c post]
      exact List.mem_append_left _ ha
    have hget := hreplies pre.length hk
    change done.1[pre.length]? = some (.ok ⟨(uploadedBy ∅ (all.take (pre.length + 1))).card, _⟩) at hget
    rw [hget, htake, hdone, Finset.card_range]
  · change Uploaded id file parts st done.2 (uploadedBy ∅ all) at hup
    rw [hcovers.uploadedBy_eq hall] at hup
    rw [download_uploaded hup fun i hi => List.mem_range.mp hi, flatMap_partAt, hsplit.flatten]

/-- With nothing set, the one chunk of a short file, sent twice. -/
theorem file_transferred_sample :
    let parts := [[2, 3]]
    let st := ofTables (.fromEnv fun _ => none) ⟨OrdMap.empty, OrdMap.empty⟩
    download sampleTransfer [0]
      (upload sampleTransfer [2, 3] parts [(5, 6, 0), (7, 8, 0)] st).2 = .ok [2, 3] := by
  intro parts st
  have hcfg : st.config = FileConfig.fromEnv fun _ => none := rfl
  have hunused : Unused sampleTransfer st := ⟨rfl, rfl, fun _ => rfl⟩
  have hsplit : Split [2, 3] parts := ⟨rfl, by decide, by decide, by decide⟩
  refine ((file_transferred hcfg hunused (by decide +kernel) (by decide) (by decide +kernel)
    (by decide +kernel) hsplit (by decide)).2.2 ?_).2
  unfold Covers
  decide

end FileStore

end AxenoRelay
