/-
  The accounting of the file store under concurrency.

  A creation and a delete each hold a token for their transfer id (`token`) from
  the step that makes them responsible for it to the step that lets it go. For every
  id the tokens and the record on disk are at most one together, and a vacant cache
  entry means that there is none of either. So a creation starts from an empty
  transfer, and the two counters are what is on disk plus what the calls in flight
  still hold (`due`, `slots`).
-/
import AxenoRelay.FileStore.Steps

namespace AxenoRelay

open Interleave FileStore SepKey

namespace FileStore

/-- `stored_bytes` over all records. -/
def diskStored (t : FileTables) : Nat := t.fileMeta.sum fun _ m => m.storedBytes

/-- 1 for a transfer on disk. -/
def onDisk (id : String) (t : FileTables) : Nat := if OnDisk id t then 1 else 0

theorem onDisk_eq {id : String} {t : FileTables} {p : Prop} [Decidable p] (h : OnDisk id t ↔ p) :
    onDisk id t = if p then 1 else 0 := by
  unfold onDisk
  by_cases hp : p
  · rw [if_pos hp, if_pos (h.mpr hp)]
  · rw [if_neg hp, if_neg fun hd => hp (h.mp hd)]

theorem onDisk_delete_le (i id : String) (t : FileTables) :
    onDisk id (deleteTables i t) ≤ onDisk id t := by
  have hdisk := onDisk_deleteTables i id t
  unfold onDisk
  by_cases h : OnDisk id (deleteTables i t)
  · rw [if_pos h, if_pos (hdisk.mp h).2]
  · rw [if_neg h]
    exact Nat.zero_le _

theorem elim_get_eq {t : FileTables} {id : String} {f : FileMeta → Nat} {n : Nat}
    (h0 : ¬OnDisk id t → n = 0) (h1 : ∀ m, t.fileMeta.get id = some m → f m = n) :
    (t.fileMeta.get id).elim 0 f = n := by
  cases hm : t.fileMeta.get id with
  | none => exact (h0 (by simp [OnDisk, hm])).symm
  | some m => exact h1 m hm

/-- The record of a transfer accounts for its chunks. -/
theorem TablesOk.elim_stored {t : FileTables} (ht : TablesOk t) (id : String) :
    (t.fileMeta.get id).elim 0 (fun m => m.storedBytes) = chunkBytes id t :=
  elim_get_eq (ht.chunkBytes_zero) (ht.stored id)

theorem elim_one (id : String) (t : FileTables) :
    (t.fileMeta.get id).elim 0 (fun _ => 1) = onDisk id t :=
  elim_get_eq (fun h => if_neg h) fun m hm => (if_pos (by simp [OnDisk, hm])).symm

theorem diskStored_write {t : FileTables} (ht : TablesOk t) {u : ChunkUpload}
    (hu : validBundleId u.transferId = true) {m : FileMeta}
    (hm : m.storedBytes = chunkBytes u.transferId t) :
    diskStored (writeTables m u t) + prevLen u t = diskStored t + u.data.length := by
  have hsum := OrdMap.sum_insert t.fileMeta (fun _ m => m.storedBytes) u.transferId
    (grownMeta m (prevLen u t) u)
  have hnew := newStored_eq hu hm
  have hle := prevLen_le hu t
  rw [ht.elim_stored] at hsum
  have hgrown : (grownMeta m (prevLen u t) u).storedBytes = newStored m (prevLen u t) u := rfl
  change diskStored (writeTables m u t) + _ = diskStored t + _ at hsum
  omega

theorem diskStored_delete {t : FileTables} (ht : TablesOk t) (id : String) :
    diskStored (deleteTables id t) + chunkBytes id t = diskStored t := by
  have hsum := OrdMap.sum_erase t.fileMeta (fun _ m => m.storedBytes) id
  rw [ht.elim_stored] at hsum
  exact hsum

theorem size_write (m : FileMeta) (u : ChunkUpload) (t : FileTables) :
    (writeTables m u t).fileMeta.size + onDisk u.transferId t = t.fileMeta.size + 1 := by
  have hsum := OrdMap.sum_insert t.fileMeta (fun _ _ => 1) u.transferId
    (grownMeta m (prevLen u t) u)
  rw [elim_one] at hsum
  rw [OrdMap.size_eq_sum, OrdMap.size_eq_sum]
  exact hsum

theorem size_delete (id : String) (t : FileTables) :
    (deleteTables id t).fileMeta.size + onDisk id t = t.fileMeta.size := by
  have hsum := OrdMap.sum_erase t.fileMeta (fun _ _ => 1) id
  rw [elim_one] at hsum
  rw [OrdMap.size_eq_sum, OrdMap.size_eq_sum]
  exact hsum

end FileStore

namespace FileTask

/-- 1 for the call that creates transfer `id` or is deleting it. -/
def token (id : String) : FileTask → Nat
  | storeSlot u | storeWrite u true | storeFreeSlot u _ | storeUnclaim u _ =>
    if id = u.transferId then 1 else 0
  | delUncache i _ _ => if id = i then 1 else 0
  | _ => 0

/-- The slots a call holds that no record on disk accounts for. -/
def slots : FileTask → Nat
  | storeWrite _ true | storeFreeSlot _ _ | delUncache _ _ _ | delSlot _ _ _ => 1
  | _ => 0

/-- The bytes a call has still to release. -/
def due : FileTask → Nat
  | storeRelease _ w => w.release
  | delUncache _ b _ | delSlot _ b _ | delBytes _ b _ => b
  | _ => 0

/-- Nothing is owed by this task. -/
def Free (t : FileTask) : Prop := (∀ id, t.token id = 0) ∧ t.slots = 0 ∧ t.due = 0

theorem free_failed (k : After) (r : DbError) : (k.failed r).Free := by
  cases k <;> exact ⟨fun _ => rfl, rfl, rfl⟩

theorem free_returned (k : After) (b : Bool) : (k.returned b).Free := by
  cases k <;> exact ⟨fun _ => rfl, rfl, rfl⟩

theorem free_of_starts {t : FileTask} (h : t.starts = true) : t.Free := by
  cases t with
  | delTxn id k => exact ⟨fun _ => rfl, rfl, rfl⟩
  | _ => first | exact ⟨fun _ => rfl, rfl, rfl⟩ | cases h

theorem free_of_finished {t : FileTask} (h : t.finished = true) : t.Free := by
  cases t <;> first | exact ⟨fun _ => rfl, rfl, rfl⟩ | cases h

theorem owed_afterWrite (u : ChunkUpload) (w : Written) :
    (∀ id, (afterWrite u w).token id = 0) ∧ (afterWrite u w).slots = 0 ∧
      (afterWrite u w).due = w.release := by
  unfold afterWrite
  split_ifs with h
  · exact ⟨fun _ => rfl, rfl, rfl⟩
  · exact ⟨fun _ => rfl, rfl, (Nat.eq_zero_of_not_pos h).symm⟩

theorem owed_afterFailure (u : ChunkUpload) (creating : Bool) (r : FileReject) :
    (∀ id, (afterFailure u creating r).token id = (storeWrite u creating).token id) ∧
      (afterFailure u creating r).slots = (storeWrite u creating).slots ∧
      (afterFailure u creating r).due = 0 := by
  cases creating <;> exact ⟨fun _ => rfl, rfl, rfl⟩

/-! ## What one step does to tokens, slots and bytes -/

/-- A step makes no token out of nothing, except that a claim of a vacant id takes one. -/
theorem Stepped.token {e : StoreEvent} {t t' : FileTask} {st st' : FileStore}
    (h : Stepped e t st t' st') (id : String) :
    t'.token id + onDisk id st'.tables ≤ t.token id + onDisk id st.tables ∨
      (st.cache.get id = none ∧ (st'.cache.get id).isSome = true ∧ t'.token id ≤ 1 ∧
        st'.tables = st.tables) := by
  cases h with
  | claim u st hu hn =>
    by_cases heq : id = u.transferId
    · right
      rw [heq]
      refine ⟨hn, ?_, ?_, rfl⟩
      · rw [OrdMap.get_insert, if_pos rfl]
        rfl
      · simp only [FileTask.token, if_pos]
        exact le_refl 1
    · left
      simp only [FileTask.token, if_neg heq]
      exact le_refl _
  | writeFailed u creating r =>
    left
    rw [(owed_afterFailure u creating r).1]
  | write u creating m st hb =>
    left
    have hdisk := onDisk_eq (onDisk_writeTables m u st.tables id)
    change _ + onDisk id (writeTables m u st.tables) ≤ _
    rw [(owed_afterWrite u _).1, hdisk]
    by_cases heq : id = u.transferId
    · rw [if_pos (Or.inl heq)]
      cases creating with
      | true =>
        simp only [FileTask.token, if_pos heq]
        omega
      | false =>
        have hon : OnDisk id st.tables := by
          unfold OnDisk
          rw [heq, (hb : st.tables.fileMeta.get u.transferId = some m)]
          rfl
        rw [onDisk, if_pos hon]
        omega
    · have hsame : onDisk id st.tables =
          if id = u.transferId ∨ OnDisk id st.tables then 1 else 0 :=
        onDisk_eq (by simp [heq])
      omega
  | delFailed i k r =>
    left
    rw [(free_failed k r).1]
    omega
  | delNone i k st hn =>
    left
    rw [(free_returned k false).1]
    exact Nat.add_le_add (Nat.zero_le _) (onDisk_delete_le i id st.tables)
  | del i k m st hm =>
    left
    have hdisk := onDisk_eq (onDisk_deleteTables i id st.tables)
    rw [hdisk]
    by_cases heq : id = i
    · have hon : OnDisk id st.tables := by
        unfold OnDisk
        rw [heq, hm]
        rfl
      simp only [FileTask.token, onDisk, if_pos heq, if_pos hon]
      rw [if_neg fun h => h.1 heq]
    · have hsame : onDisk id st.tables = if id ≠ i ∧ OnDisk id st.tables then 1 else 0 :=
        onDisk_eq (by simp [heq])
      simp only [FileTask.token, if_neg heq]
      omega
  | delBytes i b k st =>
    left
    rw [(free_returned k true).1]
    exact Nat.add_le_add_right (Nat.zero_le _) _
  | unclaim u r st => exact Or.inl (Nat.add_le_add_right (Nat.zero_le _) _)
  | uncache i b k st => exact Or.inl (Nat.add_le_add_right (Nat.zero_le _) _)
  | _ => exact Or.inl (le_refl _)

/-- A cache entry is only removed by the holder of its token, who then lets it go. -/
theorem Stepped.vacated {e : StoreEvent} {t t' : FileTask} {st st' : FileStore}
    (h : Stepped e t st t' st') {id : String} (hn : st'.cache.get id = none) :
    st.cache.get id = none ∨
      (t.token id = 1 ∧ t'.token id = 0 ∧ st'.tables = st.tables) := by
  cases h with
  | claim u st hu =>
    left
    change (st.cache.insert _ _).get id = none at hn
    rw [OrdMap.get_insert] at hn
    split_ifs at hn
    exact hn
  | mirror u w st =>
    left
    by_cases heq : id = u.transferId
    · unfold FileStore.mirror at hn
      dsimp only at hn
      rw [OrdMap.get_insert, if_pos heq] at hn
      cases hn
    · rw [get_mirror_ne heq] at hn
      exact hn
  | unclaim u r st =>
    change (st.cache.erase _).get id = none at hn
    rw [OrdMap.get_erase] at hn
    split_ifs at hn with heq
    · exact Or.inr ⟨if_pos heq, rfl, rfl⟩
    · exact Or.inl hn
  | uncache i b k st =>
    change (st.cache.erase _).get id = none at hn
    rw [OrdMap.get_erase] at hn
    split_ifs at hn with heq
    · exact Or.inr ⟨if_pos heq, rfl, rfl⟩
    · exact Or.inl hn
  | _ => exact Or.inl hn

/-- The count, the records on disk and the slots held move together. -/
theorem Stepped.slots {e : StoreEvent} {t t' : FileTask} {st st' : FileStore}
    (h : Stepped e t st t' st') (hheld : t.slots ≤ st.transferCount)
    (hnew : ∀ u, t = storeWrite u true → ¬OnDisk u.transferId st.tables) :
    st'.transferCount + st.tables.fileMeta.size + t.slots =
      st.transferCount + st'.tables.fileMeta.size + t'.slots := by
  cases h with
  | slot u st =>
    simp only [FileTask.slots]
    omega
  | writeFailed u creating r => rw [(owed_afterFailure u creating r).2.1]
  | write u creating m st hb =>
    have hsize := size_write m u st.tables
    change st.transferCount + _ + _ = _ + (writeTables m u st.tables).fileMeta.size + _
    rw [(owed_afterWrite u _).2.1]
    cases creating with
    | true =>
      rw [onDisk, if_neg (hnew u rfl)] at hsize
      simp only [FileTask.slots]
      omega
    | false =>
      have hon : OnDisk u.transferId st.tables := by
        unfold OnDisk
        rw [(hb : st.tables.fileMeta.get u.transferId = some m)]
        rfl
      rw [onDisk, if_pos hon] at hsize
      simp only [FileTask.slots]
      omega
  | freeSlot u r st =>
    have hpos : 1 ≤ st.transferCount := hheld
    simp only [FileTask.slots, releaseSlot, fetchSubOne]
    rw [if_neg (by omega)]
    omega
  | delFailed i k r =>
    rw [(free_failed k r).2.1]
    rfl
  | delNone i k st hn =>
    have hsize := size_delete i st.tables
    have hoff : ¬OnDisk i st.tables := by simp [OnDisk, hn]
    rw [onDisk, if_neg hoff] at hsize
    rw [(free_returned k false).2.1]
    simp only [FileTask.slots]
    omega
  | del i k m st hm =>
    have hsize := size_delete i st.tables
    have hon : OnDisk i st.tables := by simp [OnDisk, hm]
    rw [onDisk, if_pos hon] at hsize
    simp only [FileTask.slots]
    omega
  | delSlot i b k st =>
    have hpos : 1 ≤ st.transferCount := hheld
    simp only [FileTask.slots, releaseSlot, fetchSubOne]
    rw [if_neg (by omega)]
    omega
  | delBytes i b k st =>
    rw [(free_returned k true).2.1]
    rfl
  | _ => rfl

/-- The reserved bytes, the stored bytes on disk and the bytes due move together. -/
theorem Stepped.bytes {e : StoreEvent} {t t' : FileTask} {st st' : FileStore}
    (h : Stepped e t st t' st') (ht : TablesOk st.tables)
    (hids : ∀ id ∈ t.ids, validBundleId id = true) (hdue : t.due ≤ st.reservedBytes)
    (hnew : ∀ u, t = storeWrite u true → ¬OnDisk u.transferId st.tables) :
    st'.reservedBytes + diskStored st.tables + t.due =
      st.reservedBytes + diskStored st'.tables + t'.due := by
  cases h with
  | writeFailed u creating r =>
    rw [(owed_afterFailure u creating r).2.2]
    rfl
  | write u creating m st hb =>
    have hu := hids u.transferId List.mem_cons_self
    have hm := base_stored ht hb fun hc => hnew u (by rw [hc])
    have hdisk := diskStored_write ht hu hm
    change st.reservedBytes + (u.data.length - prevLen u st.tables) + _ + 0 =
      _ + diskStored (writeTables m u st.tables) + _
    have hrel : (written m u st.tables).release = prevLen u st.tables - u.data.length := rfl
    rw [(owed_afterWrite u _).2.2, hrel]
    omega
  | release u w st =>
    have hle : w.release ≤ st.reservedBytes := hdue
    simp only [FileTask.due, releaseBytes]
    omega
  | delFailed i k r =>
    rw [(free_failed k r).2.2]
    rfl
  | delNone i k st hn =>
    have hdisk := diskStored_delete ht i
    have hoff : ¬OnDisk i st.tables := by simp [OnDisk, hn]
    rw [ht.chunkBytes_zero hoff] at hdisk
    rw [(free_returned k false).2.2]
    simp only [FileTask.due]
    omega
  | del i k m st hm =>
    have hdisk := diskStored_delete ht i
    rw [← ht.stored i m hm] at hdisk
    simp only [FileTask.due]
    omega
  | delBytes i b k st =>
    have hle : b ≤ st.reservedBytes := hdue
    rw [(free_returned k true).2.2]
    simp only [FileTask.due, releaseBytes]
    omega
  | _ => rfl

/-- The counters stay within the caps. -/
theorem Stepped.caps {e : StoreEvent} {t t' : FileTask} {st st' : FileStore}
    (h : Stepped e t st t' st') (hheld : t.slots ≤ st.transferCount)
    (hb : st.reservedBytes ≤ st.config.maxTotalFileBytes)
    (hs : st.transferCount ≤ st.config.maxTransfers) :
    st'.config = st.config ∧ st'.reservedBytes ≤ st.config.maxTotalFileBytes ∧
      st'.transferCount ≤ st.config.maxTransfers := by
  cases h with
  | slot u st hlt => exact ⟨rfl, hb, hlt⟩
  | write u creating m st hbase ha =>
    refine ⟨rfl, ?_, hs⟩
    change st.reservedBytes + (u.data.length - prevLen u st.tables) ≤ _
    by_cases hlt : prevLen u st.tables < u.data.length
    · exact ha.budget hlt
    · omega
  | freeSlot u r st =>
    have hpos : 1 ≤ st.transferCount := hheld
    refine ⟨rfl, hb, ?_⟩
    simp only [releaseSlot, fetchSubOne]
    rw [if_neg (by omega)]
    omega
  | delSlot i b k st =>
    have hpos : 1 ≤ st.transferCount := hheld
    refine ⟨rfl, hb, ?_⟩
    simp only [releaseSlot, fetchSubOne]
    rw [if_neg (by omega)]
    omega
  | release u w st => exact ⟨rfl, le_trans (Nat.sub_le _ _) hb, hs⟩
  | delBytes i b k st => exact ⟨rfl, le_trans (Nat.sub_le _ _) hb, hs⟩
  | _ => exact ⟨rfl, hb, hs⟩

theorem Stepped.tables {e : StoreEvent} {t t' : FileTask} {st st' : FileStore}
    (h : Stepped e t st t' st') (ht : TablesOk st.tables)
    (hids : ∀ id ∈ t.ids, validBundleId id = true)
    (hnew : ∀ u, t = storeWrite u true → ¬OnDisk u.transferId st.tables) :
    TablesOk st'.tables := by
  cases h with
  | write u creating m st hb =>
    exact tablesOk_write ht (hids u.transferId List.mem_cons_self)
      (base_stored ht hb fun hc => hnew u (by rw [hc]))
  | delNone i k => exact tablesOk_delete ht i
  | del i k => exact tablesOk_delete ht i
  | _ => exact ht

end FileTask

end AxenoRelay
