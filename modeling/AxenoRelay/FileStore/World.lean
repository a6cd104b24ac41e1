/-
  Any number of calls on one file store, interleaved: the invariant of every run,
  and the accounting that follows from it.

  A run starts with the store `FileStore::new` builds over tables that account for
  their chunks, within the caps. Database calls may fail anywhere; only a delete
  that skips an unreadable row of its range is left out (`Readable`).
-/
import AxenoRelay.FileStore.Accounting

namespace AxenoRelay

open Interleave FileStore FileTask

/-- No call is in flight. -/
def Idle (c : FileConfigs) : Prop := ∀ t ∈ c.pool, t.finished = true

instance (c : FileConfigs) : Decidable (Idle c) :=
  inferInstanceAs (Decidable (∀ t ∈ c.pool, t.finished = true))

/-- A delete reads every row of its range. -/
def Readable (_ : FileConfigs) : Move FileMove → Prop
  | .act _ (.run e) => e.lost = []
  | _ => True

instance (c : FileConfigs) (m : Move FileMove) : Decidable (Readable c m) := by
  unfold Readable
  split <;> infer_instance

/-- A store just opened over the tables, with no call in flight. -/
def freshFiles (cfg : FileConfig) (t : FileTables) (origin : OrdMap String ChunkUpload) :
    FileConfigs :=
  ⟨⟨ofTables cfg t, origin, []⟩, []⟩

structure FileOk (c : FileConfigs) : Prop where
  tables : TablesOk c.shared.store.tables
  ids : ∀ t ∈ c.pool, ∀ id ∈ t.ids, validBundleId id = true
  cached : ∀ id m, c.shared.store.cache.get id = some m → validBundleId id = true
  tokens : ∀ id, c.total (token id) + onDisk id c.shared.store.tables ≤ 1
  vacant : ∀ id, c.shared.store.cache.get id = none →
    c.total (token id) + onDisk id c.shared.store.tables = 0
  bytes : c.shared.store.reservedBytes = diskStored c.shared.store.tables + c.total due
  slots : c.shared.store.transferCount =
    c.shared.store.tables.fileMeta.size + c.total FileTask.slots
  bytesCap : c.shared.store.reservedBytes ≤ c.shared.store.config.maxTotalFileBytes
  slotsCap : c.shared.store.transferCount ≤ c.shared.store.config.maxTransfers

/-- A creation about to write finds no transfer on disk. -/
theorem FileOk.creation {c : FileConfigs} (hc : FileOk c) {u : ChunkUpload}
    (hu : storeWrite u true ∈ c.pool) : ¬OnDisk u.transferId c.shared.store.tables := by
  intro hon
  have htoken := le_total (w := token u.transferId) hu
  have hle := hc.tokens u.transferId
  have h1 : (storeWrite u true).token u.transferId = 1 := if_pos rfl
  rw [onDisk, if_pos hon] at hle
  omega

theorem FileOk.not_onDisk {c : FileConfigs} (hc : FileOk c) {id : String}
    (hn : c.shared.store.cache.get id = none) : ¬OnDisk id c.shared.store.tables := by
  intro hon
  have h0 := hc.vacant id hn
  rw [onDisk, if_pos hon] at h0
  omega

/-! ## The invariant holds in every run -/

theorem fileOk_fresh {cfg : FileConfig} {t : FileTables} {origin : OrdMap String ChunkUpload}
    (ht : TablesOk t) (hb : diskStored t ≤ cfg.maxTotalFileBytes)
    (hs : t.fileMeta.size ≤ cfg.maxTransfers) : FileOk (freshFiles cfg t origin) := by
  refine ⟨ht, ?_, ht.ids, ?_, ?_, ?_, ?_, hb, hs⟩
  · intro u hu
    cases hu
  · intro id
    change 0 + onDisk id t ≤ 1
    unfold onDisk
    split_ifs <;> omega
  · intro id hn
    change 0 + onDisk id t = 0
    have hget : t.fileMeta.get id = none := hn
    have hoff : ¬OnDisk id t := by simp [OnDisk, hget]
    rw [onDisk, if_neg hoff]
  · rfl
  · rfl

theorem transferId_of_ids {t : FileTask} (h : t.starts = true) {id : String} (hid : id ∈ t.ids) :
    id ∈ t.transferId := by
  cases t with
  | storeClaim u =>
    rw [List.mem_singleton.mp hid]
    rfl
  | fetchShape i n =>
    rw [List.mem_singleton.mp hid]
    rfl
  | delTxn i k =>
    cases k with
    | ret =>
      rw [List.mem_singleton.mp hid]
      rfl
    | sweep rest n => cases h
  | sweepScan => cases hid
  | _ => cases h

theorem fileOk_spawn {c : FileConfigs} (hc : FileOk c) {t : FileTask} (ha : t.Admitted) :
    FileOk ⟨c.shared, c.pool ++ [t]⟩ := by
  have hfree := free_of_starts ha.1
  have hids : ∀ id ∈ t.ids, validBundleId id = true :=
    fun id hid => ha.2 id (transferId_of_ids ha.1 hid)
  refine ⟨hc.tables, ?_, hc.cached, ?_, ?_, ?_, ?_, hc.bytesCap, hc.slotsCap⟩
  · intro u hu
    rcases List.mem_append.mp hu with hu | hu
    · exact hc.ids u hu
    · rw [List.mem_singleton.mp hu]
      exact hids
  · intro id
    rw [total_spawn, hfree.1]
    exact hc.tokens id
  · intro id hn
    rw [total_spawn, hfree.1]
    exact hc.vacant id hn
  · rw [total_spawn, hfree.2.2]
    exact hc.bytes
  · rw [total_spawn, hfree.2.1]
    exact hc.slots

theorem fileOk_act {c : FileConfigs} (hc : FileOk c) {i : Nat} {t t' : FileTask}
    {st' : FileStore} {e : StoreEvent} {o : OrdMap String ChunkUpload}
    {f : List (FetchedChunk × Option ChunkUpload)} (ht : c.pool[i]? = some t)
    (hs : t.Stepped e c.shared.store t' st') : FileOk ⟨⟨st', o, f⟩, c.pool.set i t'⟩ := by
  have hmem := List.mem_of_getElem? ht
  have hids := hc.ids t hmem
  have hnew : ∀ u, t = storeWrite u true → ¬OnDisk u.transferId c.shared.store.tables :=
    fun u hu => hc.creation (hu ▸ hmem)
  have hcaps := hs.caps (le_trans (le_total hmem) (hc.slots ▸ Nat.le_add_left _ _))
    hc.bytesCap hc.slotsCap
  refine ⟨hs.tables hc.tables hids hnew, ?_, ?_, ?_, ?_, ?_, ?_, ?_, ?_⟩
  · intro u hu id hid
    rcases mem_set_cases hu with rfl | hu
    · rcases hs.ids hid with hid | ⟨m, hm⟩
      · exact hids id hid
      · exact hc.cached id m hm
    · exact hc.ids u hu id hid
  · intro id m hm
    rcases hs.cached hm with hid | ⟨m, hm⟩
    · exact hids id hid
    · exact hc.cached id m hm
  · intro id
    have htotal := total_act (token id) (u := t') (s := (⟨st', o, f⟩ : FileWorld)) ht
    have hle := hc.tokens id
    show _ + onDisk id st'.tables ≤ 1
    rcases hs.token id with hstep | ⟨hn, _, hone, hsame⟩
    · omega
    · have h0 := hc.vacant id hn
      rw [hsame]
      omega
  · intro id hn
    have htotal := total_act (token id) (u := t') (s := (⟨st', o, f⟩ : FileWorld)) ht
    show _ + onDisk id st'.tables = 0
    rcases hs.vacated hn with hold | ⟨h1, h0, hsame⟩
    · have hzero := hc.vacant id hold
      rcases hs.token id with hstep | ⟨_, hsome, _⟩
      · omega
      · rw [hn] at hsome
        cases hsome
    · have hle := hc.tokens id
      have hheld := le_total (w := token id) hmem
      rw [hsame]
      omega
  · have htotal := total_act due (u := t') (s := (⟨st', o, f⟩ : FileWorld)) ht
    have hdue := le_total (w := due) hmem
    have hbytes := hc.bytes
    have hstep := hs.bytes hc.tables hids (by omega) hnew
    show st'.reservedBytes = diskStored st'.tables + _
    omega
  · have htotal := total_act FileTask.slots (u := t') (s := (⟨st', o, f⟩ : FileWorld)) ht
    have hheld := le_total (w := FileTask.slots) hmem
    have hslots := hc.slots
    have hstep := hs.slots (by omega) hnew
    show st'.transferCount = st'.tables.fileMeta.size + _
    omega
  · show st'.reservedBytes ≤ st'.config.maxTotalFileBytes
    rw [hcaps.1]
    exact hcaps.2.1
  · show st'.transferCount ≤ st'.config.maxTransfers
    rw [hcaps.1]
    exact hcaps.2.2

/-- A move starts an admitted call or steps one. -/
theorem fileMachine_next {c c' : FileConfigs} (hc : FileOk c) {m : Move FileMove}
    (hg : Readable c m) (hn : fileMachine.next m c = some c') :
    (∃ t, m = .spawn (.start t) ∧ t.Admitted ∧ c' = ⟨c.shared, c.pool ++ [t]⟩) ∨
    (∃ i e t t' st', m = .act i (.run e) ∧ c.pool[i]? = some t ∧
      t.Stepped e c.shared.store t' st' ∧
      c' = ⟨⟨st', originAfter t t' c.shared.origin, fetchesAfter t t' c.shared⟩,
        c.pool.set i t'⟩) := by
  cases m with
  | spawn e =>
    obtain ⟨t, w, hspawn, rfl⟩ := next_spawn hn
    cases e with
    | start t' =>
      simp only [fileMachine] at hspawn
      split_ifs at hspawn with ha
      cases hspawn
      exact Or.inl ⟨t, rfl, ha, rfl⟩
    | run e => cases hspawn
  | act i e =>
    obtain ⟨t, t', w, ht, hstep, rfl⟩ := next_act hn
    cases e with
    | start _ => cases hstep
    | run e =>
      obtain ⟨⟨t1, st1⟩, h1, h2⟩ := Option.map_eq_some_iff.mp hstep
      cases h2
      have hs := stepped_of_step hg hc.tables (hc.ids t (List.mem_of_getElem? ht)) h1
      exact Or.inr ⟨i, e, t, t1, st1, rfl, ht, hs, rfl⟩
  | env e =>
    obtain ⟨s, hs, _⟩ := next_env hn
    cases hs

theorem fileOk_next {c c' : FileConfigs} (hc : FileOk c) {m : Move FileMove}
    (hg : Readable c m) (hn : fileMachine.next m c = some c') : FileOk c' := by
  rcases fileMachine_next hc hg hn with ⟨t, rfl, ha, rfl⟩ | ⟨i, e, t, t', st', rfl, ht, hs, rfl⟩
  · exact fileOk_spawn hc ha
  · exact fileOk_act hc ht hs

/-! ## Exact accounting -/

/-- Is the next step `release_slot`? -/
def FileTask.freesSlot : FileTask → Bool
  | storeFreeSlot _ _ | delSlot _ _ _ => true
  | _ => false

/-- The accounting of the store, at any time and with no call in flight. -/
structure Exact (c : FileConfigs) : Prop where
  bytes_ge : diskStored c.shared.store.tables ≤ c.shared.store.reservedBytes
  bytes_le : c.shared.store.reservedBytes ≤ c.shared.store.config.maxTotalFileBytes
  count_ge : c.shared.store.tables.fileMeta.size ≤ c.shared.store.transferCount
  count_le : c.shared.store.transferCount ≤ c.shared.store.config.maxTransfers
  stored : ∀ id m, c.shared.store.tables.fileMeta.get id = some m →
    m.storedBytes = chunkBytes id c.shared.store.tables
  no_underflow : ∀ u creating now m, storeWrite u creating ∈ c.pool →
    IsBase now creating u c.shared.store.tables m → prevLen u c.shared.store.tables ≤ m.storedBytes
  no_wrap : ∀ t ∈ c.pool, t.freesSlot = true → 0 < c.shared.store.transferCount
  vacant : ∀ id, c.shared.store.cache.get id = none → ¬OnDisk id c.shared.store.tables
  idle : Idle c → c.shared.store.reservedBytes = diskStored c.shared.store.tables ∧
    c.shared.store.transferCount = c.shared.store.tables.fileMeta.size

theorem FileOk.exact {c : FileConfigs} (hc : FileOk c) : Exact c := by
  have hbytes := hc.bytes
  have hslots := hc.slots
  refine ⟨by omega, hc.bytesCap, by omega, hc.slotsCap, hc.tables.stored, ?_, ?_,
    fun id => hc.not_onDisk, ?_⟩
  · intro u creating now m hu hb
    have hid := hc.ids _ hu u.transferId List.mem_cons_self
    have hm := base_stored hc.tables hb fun hcr => hc.creation (hcr ▸ hu)
    rw [hm]
    exact prevLen_le hid _
  · intro t ht hfrees
    have hheld := le_total (w := FileTask.slots) ht
    have h1 : t.slots = 1 := by
      cases t <;> first | rfl | cases hfrees
    omega
  · intro hidle
    rw [total_eq_zero fun t ht => (free_of_finished (hidle t ht)).2.2] at hbytes
    rw [total_eq_zero fun t ht => (free_of_finished (hidle t ht)).2.1] at hslots
    exact ⟨hbytes, hslots⟩

/-- **Exact accounting.** In every run from a store opened over consistent tables within
    the caps, whatever database calls fail, the counters never leave their bounds,
    nothing underflows, and with no call in flight they are what is on disk. -/
theorem files_exact {cfg : FileConfig} {t : FileTables} {origin : OrdMap String ChunkUpload}
    (ht : TablesOk t) (hb : diskStored t ≤ cfg.maxTotalFileBytes)
    (hs : t.fileMeta.size ≤ cfg.maxTransfers) {c : FileConfigs}
    (r : Run fileMachine Readable (freshFiles cfg t origin) c) : Exact c :=
  (r.invariant (fileOk_fresh ht hb hs) fun _ _ _ hc hg hn => fileOk_next hc hg hn).exact

theorem tablesOk_empty : TablesOk ⟨OrdMap.empty, OrdMap.empty⟩ := by
  refine ⟨?_, ?_, ?_⟩
  · intro id m h
    cases h
  · intro k v h
    cases h
  · intro id m h
    cases h

/-- Limits for sample runs. -/
def sampleFiles : FileConfig :=
  { maxFileBytes := 8, maxTotalFileBytes := 16, fileTtlMs := 1000, maxTransfers := 2
    maxChunks := 4 }

def sampleId : String := "transfer_0000001"

def sampleUpload (i total : Nat) (data : Chunk) : ChunkUpload :=
  { transferId := sampleId, chunkIndex := i, totalChunks := total, totalBytes := 4, data := data }

def startUpload (i total : Nat) (data : Chunk) : Move FileMove :=
  .spawn (.start (.storeClaim (sampleUpload i total data)))

def startDelete : Move FileMove := .spawn (.start (.delTxn sampleId .ret))

/-- A step at clock 0 with the given failures. -/
def fileStep (i : Nat) (fs : Faults) : Move FileMove := .act i (.run ⟨0, fs, [], 0⟩)

/-- A transfer is created, its second chunk is uploaded with a commit that fails, and a
    delete of it is under way: the record is gone, its slot and bytes are still held. -/
theorem files_exact_sample : ∃ c : FileConfigs,
    c.shared.store.tables.fileMeta.size = 0 ∧ c.shared.store.transferCount = 1 ∧
      c.shared.store.reservedBytes = 2 ∧ Exact c := by
  obtain ⟨c, hrun, hc⟩ := exists_run (M := fileMachine) (G := Readable)
    (c := freshFiles sampleFiles ⟨OrdMap.empty, OrdMap.empty⟩ OrdMap.empty)
    [startUpload 0 2 [1, 2], fileStep 0 [], fileStep 0 [], fileStep 0 [], fileStep 0 [],
      startUpload 1 2 [3], fileStep 1 [], fileStep 1 [false, false, false, false, false, true],
      startDelete, fileStep 2 [], fileStep 2 []]
    (p := fun c => decide (c.shared.store.tables.fileMeta.size = 0 ∧
      c.shared.store.transferCount = 1 ∧ c.shared.store.reservedBytes = 2)) (by decide +kernel)
  obtain ⟨h1, h2, h3⟩ := of_decide_eq_true hc
  exact ⟨c, h1, h2, h3, files_exact tablesOk_empty (by decide) (by decide) hrun⟩

end AxenoRelay
