/-
  What one step of a file-store task does (`Stepped`), for deletes that read every
  row of their range.

  A write and a delete appear with the tables they leave (`wrote`, `deleteTables`)
  and the facts they have checked, so later proofs never open the transactions.
-/
import AxenoRelay.FileStore.Tasks
import AxenoRelay.FileStore.Txns

namespace AxenoRelay

open Interleave FileStore

/-- The transfers that a sweep still has to delete. -/
def After.ids : After → List String
  | .ret => []
  | .sweep rest _ => rest

namespace FileTask

/-- The transfers a task is about. -/
def ids : FileTask → List String
  | storeClaim u | storeSlot u | storeWrite u _ | storeFreeSlot u _ | storeUnclaim u _
  | storeRelease u _ | storeMirror u _ => [u.transferId]
  | fetchShape id _ | fetchRead id _ _ => [id]
  | delTxn id k | delUncache id _ k | delSlot id _ k | delBytes id _ k => id :: k.ids
  | sweepNext rest _ => rest
  | sweepScan | done _ => []

/-- What follows a committed write. -/
def afterWrite (u : ChunkUpload) (w : Written) : FileTask :=
  if 0 < w.release then storeRelease u w else storeMirror u w

/-- What follows a failed write. -/
def afterFailure (u : ChunkUpload) (creating : Bool) (r : FileReject) : FileTask :=
  if creating then storeFreeSlot u r else done (.stored (.error r))

inductive Stepped (e : StoreEvent) : FileTask → FileStore → FileTask → FileStore → Prop
  | reject (u : ChunkUpload) (r : FileReject) (st : FileStore) :
      Stepped e (storeClaim u) st (done (.stored (.error r))) st
  | join (u : ChunkUpload) (m : FileMeta) (st : FileStore) (hu : u.chunkIndex < u.totalChunks)
      (hm : st.cache.get u.transferId = some m) (hc : m.totalChunks = u.totalChunks)
      (hb : m.totalBytes = u.totalBytes) :
      Stepped e (storeClaim u) st (storeWrite u false) st
  | claim (u : ChunkUpload) (st : FileStore) (hu : u.chunkIndex < u.totalChunks)
      (hn : st.cache.get u.transferId = none) :
      Stepped e (storeClaim u) st (storeSlot u)
        { st with cache := st.cache.insert u.transferId (freshMeta e.now u) }
  | slotFull (u : ChunkUpload) (r : FileReject) (st : FileStore) :
      Stepped e (storeSlot u) st (storeUnclaim u r) st
  | slot (u : ChunkUpload) (st : FileStore) (h : st.transferCount < st.config.maxTransfers) :
      Stepped e (storeSlot u) st (storeWrite u true)
        { st with transferCount := st.transferCount + 1 }
  | writeFailed (u : ChunkUpload) (creating : Bool) (r : FileReject) (st : FileStore) :
      Stepped e (storeWrite u creating) st (afterFailure u creating r) st
  | write (u : ChunkUpload) (creating : Bool) (m : FileMeta) (st : FileStore)
      (hb : IsBase e.now creating u st.tables m) (ha : Accepts st m u) :
      Stepped e (storeWrite u creating) st (afterWrite u (written m u st.tables)) (wrote m u st)
  | freeSlot (u : ChunkUpload) (r : FileReject) (st : FileStore) :
      Stepped e (storeFreeSlot u r) st (storeUnclaim u r) st.releaseSlot
  | unclaim (u : ChunkUpload) (r : FileReject) (st : FileStore) :
      Stepped e (storeUnclaim u r) st (done (.stored (.error r))) (st.uncache u.transferId)
  | release (u : ChunkUpload) (w : Written) (st : FileStore) :
      Stepped e (storeRelease u w) st (storeMirror u w) (st.releaseBytes w.release)
  | mirror (u : ChunkUpload) (w : Written) (st : FileStore) :
      Stepped e (storeMirror u w) st (done (.stored (.ok ⟨w.receivedChunks, u.totalChunks⟩)))
        (mirror u w st)
  | fetchFailed (id : String) (i : Nat) (r : FileReject) (st : FileStore) :
      Stepped e (fetchShape id i) st (done (.fetched (.error r))) st
  | fetch (id : String) (i : Nat) (m : FileMeta) (st : FileStore)
      (hm : st.cache.get id = some m) (hi : i < m.totalChunks) :
      Stepped e (fetchShape id i) st (fetchRead id i m) st
  | readFailed (id : String) (i : Nat) (m : FileMeta) (r : FileReject) (st : FileStore) :
      Stepped e (fetchRead id i m) st (done (.fetched (.error r))) st
  | read (id : String) (i : Nat) (m : FileMeta) (v : Chunk) (st : FileStore)
      (hv : st.tables.chunks.get (chunkKey id i) = some v) :
      Stepped e (fetchRead id i m) st (done (.fetched (.ok ⟨v, m.totalChunks, m.totalBytes⟩))) st
  | delFailed (id : String) (k : After) (r : DbError) (st : FileStore) :
      Stepped e (delTxn id k) st (k.failed r) st
  | delNone (id : String) (k : After) (st : FileStore) (hn : st.tables.fileMeta.get id = none) :
      Stepped e (delTxn id k) st (k.returned false)
        { st with tables := deleteTables id st.tables }
  | del (id : String) (k : After) (m : FileMeta) (st : FileStore)
      (hm : st.tables.fileMeta.get id = some m) :
      Stepped e (delTxn id k) st (delUncache id m.storedBytes k)
        { st with tables := deleteTables id st.tables }
  | uncache (id : String) (b : Nat) (k : After) (st : FileStore) :
      Stepped e (delUncache id b k) st (delSlot id b k) (st.uncache id)
  | delSlot (id : String) (b : Nat) (k : After) (st : FileStore) :
      Stepped e (delSlot id b k) st (delBytes id b k) st.releaseSlot
  | delBytes (id : String) (b : Nat) (k : After) (st : FileStore) :
      Stepped e (delBytes id b k) st (k.returned true) (st.releaseBytes b)
  | scan (st : FileStore) :
      Stepped e sweepScan st (sweepNext (expiredIds e.now st) 0) st
  | swept (n : Nat) (st : FileStore) :
      Stepped e (sweepNext [] n) st (done (.swept (.ok n))) st
  | next (rest : List String) (n : Nat) (id : String) (st : FileStore)
      (h : rest[e.pick]? = some id) :
      Stepped e (sweepNext rest n) st (delTxn id (.sweep (rest.eraseIdx e.pick) n)) st

/-! ## The pieces -/

theorem checkShape_index {cfg : FileConfig} {u : ChunkUpload} (h : checkShape cfg u = .ok ()) :
    u.chunkIndex < u.totalChunks := by
  unfold checkShape at h
  split_ifs at h with h1
  push Not at h1
  exact h1.2.2.2

theorem fetchTxn_cases (id : String) (i : Nat) (m : FileMeta) (fs : Faults) (t : FileTables) :
    (∃ r, ((fetchTxn id i m).commit fs t).1 = .error r) ∨
      ∃ v, t.chunks.get (chunkKey id i) = some v ∧
        ((fetchTxn id i m).commit fs t).1 = .ok ⟨v, m.totalChunks, m.totalBytes⟩ := by
  unfold Txn.commit
  cases hrun : fetchTxn id i m t fs with
  | error r => exact Or.inl ⟨r, rfl⟩
  | ok p =>
    obtain ⟨a, t', fs'⟩ := p
    obtain ⟨_, s1, fs1, h1, hr1⟩ := Txn.bind_eq_ok.mp hrun
    obtain ⟨_, s2, fs2, h2, hr2⟩ := Txn.bind_eq_ok.mp hr1
    obtain ⟨o, s3, fs3, h3, hr3⟩ := Txn.bind_eq_ok.mp hr2
    obtain ⟨_, rfl, _⟩ := Txn.call_ok h1
    obtain ⟨_, rfl, _⟩ := Txn.call_ok h2
    obtain ⟨ho, _, _⟩ := Txn.call_ok h3
    right
    cases o with
    | none => cases hr3
    | some v =>
      cases hr3
      exact ⟨v, ho.symm, rfl⟩

theorem claim_stepped {e : StoreEvent} {u : ChunkUpload} {st st' : FileStore} {t' : FileTask}
    (h : step e (storeClaim u) st = some (t', st')) : Stepped e (storeClaim u) st t' st' := by
  simp only [step] at h
  cases hshape : checkShape st.config u with
  | error r =>
    rw [hshape] at h
    cases h
    exact Stepped.reject u r st
  | ok x =>
    have hu := checkShape_index hshape
    rw [hshape] at h
    simp only [FileStore.claim] at h
    cases hm : st.cache.get u.transferId with
    | some m =>
      simp only [hm] at h
      by_cases hne : m.totalChunks ≠ u.totalChunks ∨ m.totalBytes ≠ u.totalBytes
      · rw [if_pos hne] at h
        cases h
        exact Stepped.reject u _ st
      · rw [if_neg hne] at h
        push Not at hne
        cases h
        exact Stepped.join u m st hu hm hne.1 hne.2
    | none =>
      simp only [hm] at h
      by_cases hi : u.chunkIndex ≠ 0
      · rw [if_pos hi] at h
        cases h
        exact Stepped.reject u _ st
      · rw [if_neg hi] at h
        cases h
        exact Stepped.claim u st hu hm

theorem delete_stepped {e : StoreEvent} (he : e.lost = []) {id : String} {k : After}
    {st st' : FileStore} {t' : FileTask} (ht : TablesOk st.tables) (hid : validBundleId id = true)
    (h : step e (delTxn id k) st = some (t', st')) : Stepped e (delTxn id k) st t' st' := by
  simp only [step, he] at h
  rcases deleteTxn_cases ht hid e.faults with ⟨r, hr⟩ | hr
  · rw [hr] at h
    cases h
    exact Stepped.delFailed id k r st
  · rw [hr] at h
    cases hm : st.tables.fileMeta.get id with
    | none =>
      simp only [hm, Option.map_none] at h
      cases h
      exact Stepped.delNone id k st hm
    | some m =>
      simp only [hm, Option.map_some] at h
      cases h
      exact Stepped.del id k m st hm

/-- Every step is one of these. -/
theorem stepped_of_step {e : StoreEvent} (he : e.lost = []) {t t' : FileTask}
    {st st' : FileStore} (ht : TablesOk st.tables) (hids : ∀ id ∈ t.ids, validBundleId id = true)
    (h : step e t st = some (t', st')) : Stepped e t st t' st' := by
  cases t with
  | storeClaim u => exact claim_stepped h
  | storeSlot u =>
    simp only [step, reserveSlot] at h
    by_cases hfull : st.config.maxTransfers ≤ st.transferCount
    · rw [if_pos hfull] at h
      cases h
      exact Stepped.slotFull u _ st
    · rw [if_neg hfull] at h
      cases h
      exact Stepped.slot u st (Nat.not_le.mp hfull)
  | storeWrite u creating =>
    simp only [step] at h
    rcases writeTxn_cases e.now e.faults creating u st with ⟨r, hr⟩ | ⟨m, hb, ha, hr⟩
    · rw [hr] at h
      cases h
      exact Stepped.writeFailed u creating r st
    · rw [hr] at h
      cases h
      exact Stepped.write u creating m st hb ha
  | storeFreeSlot u r =>
    cases h
    exact Stepped.freeSlot u r st
  | storeUnclaim u r =>
    cases h
    exact Stepped.unclaim u r st
  | storeRelease u w =>
    cases h
    exact Stepped.release u w st
  | storeMirror u w =>
    cases h
    exact Stepped.mirror u w st
  | fetchShape id i =>
    simp only [step, FileStore.fetchShape] at h
    cases hm : st.cache.get id with
    | none =>
      simp only [hm] at h
      cases h
      exact Stepped.fetchFailed id i _ st
    | some m =>
      simp only [hm] at h
      by_cases hi : m.totalChunks ≤ i
      · rw [if_pos hi] at h
        cases h
        exact Stepped.fetchFailed id i _ st
      · rw [if_neg hi] at h
        cases h
        exact Stepped.fetch id i m st hm (Nat.not_le.mp hi)
  | fetchRead id i m =>
    simp only [step] at h
    rcases fetchTxn_cases id i m e.faults st.tables with ⟨r, hr⟩ | ⟨v, hv, hr⟩
    · rw [hr] at h
      cases h
      exact Stepped.readFailed id i m r st
    · rw [hr] at h
      cases h
      exact Stepped.read id i m v st hv
  | delTxn id k => exact delete_stepped he ht (hids id List.mem_cons_self) h
  | delUncache id b k =>
    cases h
    exact Stepped.uncache id b k st
  | delSlot id b k =>
    cases h
    exact Stepped.delSlot id b k st
  | delBytes id b k =>
    cases h
    exact Stepped.delBytes id b k st
  | sweepScan =>
    cases h
    exact Stepped.scan st
  | sweepNext rest n =>
    simp only [step] at h
    split_ifs at h with hempty
    · cases h
      rw [List.isEmpty_iff.mp hempty]
      exact Stepped.swept n st
    · cases hpick : rest[e.pick]? with
      | none =>
        rw [hpick] at h
        cases h
      | some id =>
        rw [hpick] at h
        cases h
        exact Stepped.next rest n id st hpick
  | done r => cases h

/-! ## The transfer ids in play -/

theorem get_mirror_ne {id : String} {u : ChunkUpload} (h : id ≠ u.transferId) (w : Written)
    (st : FileStore) : (FileStore.mirror u w st).cache.get id = st.cache.get id := by
  unfold FileStore.mirror
  dsimp only
  rw [OrdMap.get_insert, if_neg h]

theorem ids_failed (k : After) (r : DbError) : (k.failed r).ids = [] := by
  cases k <;> rfl

theorem ids_returned (k : After) (b : Bool) : (k.returned b).ids = k.ids := by
  cases k <;> rfl

/-- The transfers of a task after a step: its own, or those a sweep found in the cache. -/
theorem Stepped.ids {e : StoreEvent} {t t' : FileTask} {st st' : FileStore}
    (h : Stepped e t st t' st') {id : String} (hid : id ∈ t'.ids) :
    id ∈ t.ids ∨ ∃ m, st.cache.get id = some m := by
  cases h with
  | scan =>
    obtain ⟨p, hp, rfl⟩ := List.mem_map.mp hid
    exact Or.inr ⟨p.2, OrdMap.get_eq_some_iff.mpr (List.mem_filter.mp hp).1⟩
  | next rest n i st hpick =>
    left
    rcases List.mem_cons.mp hid with rfl | hid
    · exact List.mem_of_getElem? hpick
    · exact List.mem_of_mem_eraseIdx hid
  | delFailed i k r =>
    rw [ids_failed] at hid
    cases hid
  | delNone i k =>
    rw [ids_returned] at hid
    exact Or.inl (List.mem_cons_of_mem _ hid)
  | delBytes i b k =>
    rw [ids_returned] at hid
    exact Or.inl (List.mem_cons_of_mem _ hid)
  | writeFailed u creating r =>
    left
    unfold afterFailure at hid
    split_ifs at hid
    · exact hid
    · cases hid
  | write u creating m =>
    left
    unfold afterWrite at hid
    split_ifs at hid <;> exact hid
  | _ => first | exact Or.inl hid | cases hid

/-- A cached transfer after a step was cached before, or is the task's own. -/
theorem Stepped.cached {e : StoreEvent} {t t' : FileTask} {st st' : FileStore}
    (h : Stepped e t st t' st') {id : String} {m : FileMeta} (hm : st'.cache.get id = some m) :
    id ∈ t.ids ∨ ∃ m, st.cache.get id = some m := by
  cases h with
  | claim u st =>
    change (st.cache.insert _ _).get id = some m at hm
    rw [OrdMap.get_insert] at hm
    split_ifs at hm with heq
    · exact Or.inl (List.mem_singleton.mpr heq)
    · exact Or.inr ⟨m, hm⟩
  | mirror u w st =>
    by_cases heq : id = u.transferId
    · exact Or.inl (List.mem_singleton.mpr heq)
    · rw [get_mirror_ne heq] at hm
      exact Or.inr ⟨m, hm⟩
  | unclaim u r st =>
    change (st.cache.erase _).get id = some m at hm
    rw [OrdMap.get_erase] at hm
    split_ifs at hm
    exact Or.inr ⟨m, hm⟩
  | uncache i b k st =>
    change (st.cache.erase _).get id = some m at hm
    rw [OrdMap.get_erase] at hm
    split_ifs at hm
    exact Or.inr ⟨m, hm⟩
  | _ => exact Or.inr ⟨m, hm⟩

end FileTask

end AxenoRelay
