/-
  The metadata cache against FILE_META.

  A cache entry may be behind its record only by a mirror that is still to come
  (`Follows`). A mirror keeps this if it runs in time (`InTime`): it carries values
  no newer than the record, an equally new one is what is on disk or will be
  overwritten by it, and while there is no record some call is still to remove the
  entry or to create the transfer. Under that condition cache and table agree
  whenever no call is in flight (`cache_agrees`). A mirror that runs after the
  transfer was deleted brings its entry back for good (`cache_revived`).
-/
import AxenoRelay.FileStore.World

namespace AxenoRelay

open Interleave FileStore

namespace FileTask

/-- The upload of a creation that has not committed. -/
def creating : FileTask → Option ChunkUpload
  | storeSlot u | storeWrite u true => some u
  | _ => none

/-- Is the call going to create `id`? -/
def creates (id : String) (t : FileTask) : Bool := t.creating.any fun u => u.transferId = id

/-- Is the call going to remove the cache entry of `id`? -/
def removes (id : String) : FileTask → Bool
  | storeFreeSlot u _ | storeUnclaim u _ => u.transferId = id
  | delUncache i _ _ => i = id
  | _ => false

/-- Has the call committed, and is it going to mirror these values for `id`? -/
def owes (id : String) (received stored : Nat) : FileTask → Bool
  | storeRelease u w | storeMirror u w =>
    u.transferId = id ∧ w.receivedChunks = received ∧ w.storedBytes = stored
  | _ => false

theorem token_of_creating {t : FileTask} {u : ChunkUpload} (h : t.creating = some u) :
    t.token u.transferId = 1 := by
  unfold creating at h
  split at h
  · rw [← Option.some.inj h]
    exact if_pos rfl
  · rw [← Option.some.inj h]
    exact if_pos rfl
  · cases h

theorem token_of_creates {id : String} {t : FileTask} (h : t.creates id = true) :
    t.token id = 1 := by
  unfold creates at h
  cases hu : t.creating with
  | none =>
    rw [hu] at h
    cases h
  | some u =>
    rw [hu] at h
    rw [← of_decide_eq_true h]
    exact token_of_creating hu

theorem token_of_removes {id : String} {t : FileTask} (h : t.removes id = true) :
    t.token id = 1 ∧ t.creating = none := by
  cases t with
  | storeFreeSlot u r => exact ⟨if_pos (of_decide_eq_true h).symm, rfl⟩
  | storeUnclaim u r => exact ⟨if_pos (of_decide_eq_true h).symm, rfl⟩
  | delUncache i b k => exact ⟨if_pos (of_decide_eq_true h).symm, rfl⟩
  | _ => cases h

end FileTask

open FileTask

/-- A mirror of `w` to transfer `id` that does not run late. -/
def InTime (c : FileConfigs) (id : String) (w : Written) : Prop :=
  match c.shared.store.tables.fileMeta.get id with
  | some d => w.receivedChunks < d.receivedChunks ∨ (w.receivedChunks = d.receivedChunks ∧
      ∃ t ∈ c.pool, t.owes id d.receivedChunks d.storedBytes = true)
  | none => ∃ t ∈ c.pool, t.removes id = true ∨ (t.creates id = true ∧ w.receivedChunks ≤ 1)

instance (c : FileConfigs) (id : String) (w : Written) : Decidable (InTime c id w) := by
  unfold InTime
  split <;> infer_instance

/-- If the task is at its cache mirror, the mirror is in time. -/
def MirrorsInTime (c : FileConfigs) : FileTask → Prop
  | storeMirror u w => InTime c u.transferId w
  | _ => True

instance (c : FileConfigs) (t : FileTask) : Decidable (MirrorsInTime c t) := by
  unfold MirrorsInTime
  split <;> infer_instance

/-- A move that reads every row it deletes and mirrors in time. -/
def Timely (c : FileConfigs) (m : Move FileMove) : Prop :=
  Readable c m ∧ match m with
    | .act i _ => ∀ t ∈ c.pool[i]?, MirrorsInTime c t
    | _ => True

instance (c : FileConfigs) : ∀ m, Decidable (Timely c m)
  | .act _ _ => @instDecidableAnd _ _ _ (decidableForallSome _ _)
  | .spawn _ | .env _ => @instDecidableAnd _ _ _ (isTrue trivial)

/-! ## The cache entry of a record -/

/-- Entry `e` is record `d`, or a mirror of `d` is still to come. -/
structure Follows (c : FileConfigs) (id : String) (d e : FileMeta) : Prop where
  chunks : e.totalChunks = d.totalChunks
  bytes : e.totalBytes = d.totalBytes
  le : e.receivedChunks ≤ d.receivedChunks
  exact : (e.receivedChunks = d.receivedChunks ∧ e.storedBytes = d.storedBytes) ∨
    ∃ t ∈ c.pool, t.owes id d.receivedChunks d.storedBytes = true

structure CacheOk (c : FileConfigs) : Prop where
  disk : ∀ id d, c.shared.store.tables.fileMeta.get id = some d →
    ∃ e, c.shared.store.cache.get id = some e ∧ Follows c id d e
  gone : ∀ id e, c.shared.store.cache.get id = some e →
    c.shared.store.tables.fileMeta.get id = none → 1 ≤ c.total (token id)
  fresh : ∀ t ∈ c.pool, ∀ u, t.creating = some u → ∃ e,
    c.shared.store.cache.get u.transferId = some e ∧ e.totalChunks = u.totalChunks ∧
      e.totalBytes = u.totalBytes ∧ e.receivedChunks ≤ 1

theorem Follows.act {c : FileConfigs} {id : String} {d e : FileMeta} (h : Follows c id d e)
    {i : Nat} {t t' : FileTask} {s : FileWorld} (ht : c.pool[i]? = some t)
    (hkeep : t.owes id d.receivedChunks d.storedBytes = true →
      t'.owes id d.receivedChunks d.storedBytes = true) :
    Follows ⟨s, c.pool.set i t'⟩ id d e :=
  ⟨h.chunks, h.bytes, h.le, h.exact.imp_right fun he => exists_set ht hkeep he⟩

/-- Only the mirror itself settles what a task owes the cache. -/
theorem FileTask.Stepped.owes {e : StoreEvent} {t t' : FileTask} {st st' : FileStore}
    (h : Stepped e t st t' st') (hne : ∀ u w, t ≠ storeMirror u w) {id : String} {r s : Nat}
    (ho : t.owes id r s = true) : t'.owes id r s = true := by
  cases h with
  | release u w => exact ho
  | mirror u w => exact absurd rfl (hne u w)
  | _ => cases ho

/-- A creation in flight was in flight before, or this step is its claim. -/
theorem FileTask.Stepped.creating {e : StoreEvent} {t t' : FileTask} {st st' : FileStore}
    (h : Stepped e t st t' st') {u : ChunkUpload} (hu : t'.creating = some u) :
    (t.creating = some u ∧ st'.cache = st.cache) ∨
      (st.cache.get u.transferId = none ∧
        st'.cache.get u.transferId = some (freshMeta e.now u)) := by
  cases h with
  | claim v st hv hn =>
    obtain rfl : v = u := Option.some.inj hu
    right
    refine ⟨hn, ?_⟩
    rw [OrdMap.get_insert, if_pos rfl]
  | slot v st => exact Or.inl ⟨hu, rfl⟩
  | writeFailed v creating r =>
    unfold afterFailure at hu
    split_ifs at hu <;> cases hu
  | write v creating m =>
    unfold afterWrite at hu
    split_ifs at hu <;> cases hu
  | delFailed i k r => cases k <;> cases hu
  | delNone i k => cases k <;> cases hu
  | delBytes i b k => cases k <;> cases hu
  | _ => cases hu

theorem get_mirror {u : ChunkUpload} {st : FileStore} {e : FileMeta}
    (he : st.cache.get u.transferId = some e) (w : Written) :
    (FileStore.mirror u w st).cache.get u.transferId =
      some (if e.receivedChunks ≤ w.receivedChunks then
        { e with storedBytes := w.storedBytes, receivedChunks := w.receivedChunks } else e) := by
  unfold FileStore.mirror
  dsimp only
  rw [OrdMap.get_insert, if_pos rfl, he]
  rfl

/-- The entry after a mirror that is in time still follows the record. -/
theorem Follows.mirrored {c : FileConfigs} {u : ChunkUpload} {w : Written} {d e : FileMeta}
    (h : Follows c u.transferId d e) {i : Nat} {t' : FileTask} {s : FileWorld}
    (ht : c.pool[i]? = some (storeMirror u w))
    (hin : w.receivedChunks < d.receivedChunks ∨ (w.receivedChunks = d.receivedChunks ∧
      ∃ t ∈ c.pool, t.owes u.transferId d.receivedChunks d.storedBytes = true)) :
    Follows ⟨s, c.pool.set i t'⟩ u.transferId d
      (if e.receivedChunks ≤ w.receivedChunks then
        { e with storedBytes := w.storedBytes, receivedChunks := w.receivedChunks } else e) := by
  -- a mirror of other values leaves the one that the record waits for
  have hother : ¬(w.receivedChunks = d.receivedChunks ∧ w.storedBytes = d.storedBytes) →
      (∃ t ∈ c.pool, t.owes u.transferId d.receivedChunks d.storedBytes = true) →
      ∃ t ∈ c.pool.set i t', t.owes u.transferId d.receivedChunks d.storedBytes = true := by
    intro hne hex
    refine exists_set ht ?_ hex
    intro ho
    exact absurd (of_decide_eq_true ho).2 hne
  by_cases hle : e.receivedChunks ≤ w.receivedChunks
  · rw [if_pos hle]
    refine ⟨h.chunks, h.bytes, ?_, ?_⟩
    · change w.receivedChunks ≤ d.receivedChunks
      omega
    · change (w.receivedChunks = d.receivedChunks ∧ w.storedBytes = d.storedBytes) ∨ _
      by_cases hexact : w.receivedChunks = d.receivedChunks ∧ w.storedBytes = d.storedBytes
      · exact Or.inl hexact
      · right
        apply hother hexact
        rcases hin with hlt | ⟨_, hex⟩
        · rcases h.exact with hsame | hex
          · omega
          · exact hex
        · exact hex
  · rw [if_neg hle]
    have hlt : w.receivedChunks < d.receivedChunks := by
      have hled := h.le
      omega
    refine ⟨h.chunks, h.bytes, h.le, h.exact.imp_right (hother ?_)⟩
    omega

/-! ## One step keeps the cache -/

theorem FileOk.held {c : FileConfigs} (hc : FileOk c) {t : FileTask} (ht : t ∈ c.pool)
    {id : String} (h1 : t.token id = 1) : c.shared.store.tables.fileMeta.get id = none := by
  have hle := hc.tokens id
  have hheld := le_total (w := token id) ht
  cases hm : c.shared.store.tables.fileMeta.get id with
  | none => rfl
  | some m =>
    have hon : OnDisk id c.shared.store.tables := by simp [OnDisk, hm]
    rw [onDisk, if_pos hon] at hle
    omega

/-- Two calls never hold the token of one transfer. -/
theorem FileOk.single {c : FileConfigs} (hc : FileOk c) {t t' : FileTask} (ht : t ∈ c.pool)
    (ht' : t' ∈ c.pool) (hne : t ≠ t') {id : String} (h : t.token id = 1) :
    t'.token id ≠ 1 := by
  intro h'
  have hle := hc.tokens id
  have hadd := add_le_total (w := token id) ht ht' hne
  omega

theorem InTime.newest {c : FileConfigs} {id : String} {w : Written} (h : InTime c id w)
    {d : FileMeta} (hd : c.shared.store.tables.fileMeta.get id = some d) :
    w.receivedChunks < d.receivedChunks ∨ (w.receivedChunks = d.receivedChunks ∧
      ∃ t ∈ c.pool, t.owes id d.receivedChunks d.storedBytes = true) := by
  unfold InTime at h
  rw [hd] at h
  exact h

theorem InTime.total {c : FileConfigs} {id : String} {w : Written} (h : InTime c id w)
    (hd : c.shared.store.tables.fileMeta.get id = none) : 1 ≤ c.total (token id) := by
  unfold InTime at h
  rw [hd] at h
  obtain ⟨t, ht, hcase⟩ := h
  have h1 : t.token id = 1 := by
    rcases hcase with hr | ⟨hcr, _⟩
    · exact (token_of_removes hr).1
    · exact token_of_creates hcr
  rw [← h1]
  exact le_total ht

section Step

variable {c : FileConfigs} {i : Nat} {t t' : FileTask} {st' : FileStore} {e : StoreEvent}
  {o : OrdMap String ChunkUpload} {f : List (FetchedChunk × Option ChunkUpload)}

theorem follows_write (hc : FileOk c) (hk : CacheOk c) {u : ChunkUpload} {creating : Bool}
    {m : FileMeta} (hmem : storeWrite u creating ∈ c.pool)
    (hb : IsBase e.now creating u c.shared.store.tables m)
    (ht' : t' = afterWrite u (written m u c.shared.store.tables)) (hpool : t' ∈ c.pool.set i t')
    {s : FileWorld} :
    ∃ a, c.shared.store.cache.get u.transferId = some a ∧
      Follows ⟨s, c.pool.set i t'⟩ u.transferId
        (grownMeta m (prevLen u c.shared.store.tables) u) a := by
  have howes : t'.owes u.transferId
      (grownMeta m (prevLen u c.shared.store.tables) u).receivedChunks
      (grownMeta m (prevLen u c.shared.store.tables) u).storedBytes = true := by
    rw [ht']
    unfold afterWrite
    split_ifs <;> exact decide_eq_true ⟨rfl, rfl, rfl⟩
  have hgrow : m.receivedChunks ≤
      (grownMeta m (prevLen u c.shared.store.tables) u).receivedChunks := by
    unfold grownMeta
    dsimp only
    split_ifs <;> omega
  cases creating with
  | true =>
    obtain ⟨a, ha, hchunks, hbytes, hle⟩ := hk.fresh _ hmem u rfl
    have hm : m = freshMeta e.now u := hb
    -- the first chunk finds nothing at its index
    have hprev : prevLen u c.shared.store.tables = 0 := by
      have hid := hc.ids _ hmem u.transferId List.mem_cons_self
      have hle := prevLen_le hid c.shared.store.tables
      rw [hc.tables.chunkBytes_zero (hc.creation hmem)] at hle
      omega
    refine ⟨a, ha, ?_, ?_, ?_, Or.inr ⟨t', hpool, howes⟩⟩
    · rw [hchunks, hm]
      rfl
    · rw [hbytes, hm]
      rfl
    · rw [hprev, hm]
      exact hle
  | false =>
    obtain ⟨a, ha, hf⟩ := hk.disk u.transferId m hb
    exact ⟨a, ha, hf.chunks, hf.bytes, le_trans hf.le hgrow, Or.inr ⟨t', hpool, howes⟩⟩

theorem disk_act (hc : FileOk c) (hk : CacheOk c) (ht : c.pool[i]? = some t)
    (hs : t.Stepped e c.shared.store t' st') (hin : MirrorsInTime c t) {id : String}
    {d : FileMeta} (hd : st'.tables.fileMeta.get id = some d) :
    ∃ a, st'.cache.get id = some a ∧ Follows ⟨⟨st', o, f⟩, c.pool.set i t'⟩ id d a := by
  obtain ⟨⟨st, o₀, f₀⟩, pool⟩ := c
  have hmem := List.mem_of_getElem? ht
  -- a step that leaves entry and record of `id`
  have hframe : (∀ u w, t ≠ storeMirror u w) → st.tables.fileMeta.get id = some d →
      st'.cache.get id = st.cache.get id →
      ∃ a, st'.cache.get id = some a ∧ Follows ⟨⟨st', o, f⟩, pool.set i t'⟩ id d a := by
    intro hne hd0 hsame
    obtain ⟨a, ha, hf⟩ := hk.disk id d hd0
    exact ⟨a, hsame.trans ha, hf.act ht (hs.owes hne)⟩
  -- the holder of the token of `id` finds no record
  have hheld : t.token id = 1 → st.tables.fileMeta.get id ≠ some d := by
    intro h1 hd0
    rw [hc.held hmem h1] at hd0
    cases hd0
  cases hs with
  | claim u _ hu hn =>
    have hne : id ≠ u.transferId := by
      rintro rfl
      exact hc.not_onDisk hn (Option.isSome_iff_exists.mpr ⟨d, hd⟩)
    refine hframe (fun _ _ => FileTask.noConfusion) hd ?_
    rw [OrdMap.get_insert, if_neg hne]
  | write u creating m _ hb =>
    have hget : (st.tables.fileMeta.insert u.transferId
        (grownMeta m (prevLen u st.tables) u)).get id = some d := hd
    rw [OrdMap.get_insert] at hget
    by_cases heq : id = u.transferId
    · rw [if_pos heq] at hget
      rw [← Option.some.inj hget, heq]
      exact follows_write hc hk hmem hb rfl (mem_set_self ht _)
    · rw [if_neg heq] at hget
      exact hframe (fun _ _ => FileTask.noConfusion) hget rfl
  | mirror u w =>
    obtain ⟨a, ha, hf⟩ := hk.disk id d hd
    by_cases heq : id = u.transferId
    · subst heq
      exact ⟨_, get_mirror ha w, hf.mirrored ht (InTime.newest hin hd)⟩
    · refine ⟨a, (get_mirror_ne heq w st).trans ha, hf.act ht ?_⟩
      intro ho
      exact absurd (of_decide_eq_true ho).1.symm heq
  | unclaim u r =>
    have hne : id ≠ u.transferId := fun heq => hheld (if_pos heq) hd
    exact hframe (fun _ _ => FileTask.noConfusion) hd ((OrdMap.get_erase _ _ _).trans (if_neg hne))
  | uncache j b k =>
    have hne : id ≠ j := fun heq => hheld (if_pos heq) hd
    exact hframe (fun _ _ => FileTask.noConfusion) hd ((OrdMap.get_erase _ _ _).trans (if_neg hne))
  | delNone j k =>
    have hget : (st.tables.fileMeta.erase j).get id = some d := hd
    rw [OrdMap.get_erase] at hget
    split_ifs at hget
    exact hframe (fun _ _ => FileTask.noConfusion) hget rfl
  | del j k m =>
    have hget : (st.tables.fileMeta.erase j).get id = some d := hd
    rw [OrdMap.get_erase] at hget
    split_ifs at hget
    exact hframe (fun _ _ => FileTask.noConfusion) hget rfl
  | _ => exact hframe (fun _ _ => FileTask.noConfusion) hd rfl

theorem gone_act (hc : FileOk c) (hk : CacheOk c) (ht : c.pool[i]? = some t)
    (hs : t.Stepped e c.shared.store t' st') (hin : MirrorsInTime c t) {id : String}
    {a : FileMeta} (ha : st'.cache.get id = some a) (hd : st'.tables.fileMeta.get id = none) :
    1 ≤ Config.total (token id) (⟨⟨st', o, f⟩, c.pool.set i t'⟩ : FileConfigs) := by
  have hmem := List.mem_of_getElem? ht
  obtain ⟨⟨st, o₀, f₀⟩, pool⟩ := c
  have hheld := le_total (w := token id) hmem
  have htotal : Config.total (token id) (⟨⟨st', o, f⟩, pool.set i t'⟩ : FileConfigs) + t.token id =
      Config.total (token id) (⟨⟨st, o₀, f₀⟩, pool⟩ : FileConfigs) + t'.token id :=
    total_act (token id) ht
  have hcount : t.token id + 1 ≤
      Config.total (token id) (⟨⟨st, o₀, f₀⟩, pool⟩ : FileConfigs) + t'.token id →
      1 ≤ Config.total (token id) (⟨⟨st', o, f⟩, pool.set i t'⟩ : FileConfigs) := by
    intro h
    omega
  -- a step that leaves entry, record and token of `id`
  have hframe : t.token id ≤ t'.token id → st.cache.get id = some a →
      st.tables.fileMeta.get id = none →
      1 ≤ Config.total (token id) (⟨⟨st', o, f⟩, pool.set i t'⟩ : FileConfigs) := by
    intro hle ha0 hd0
    have hgone := hk.gone id a ha0 hd0
    omega
  cases hs with
  | claim u _ hu hn =>
    have hget : (st.cache.insert u.transferId (freshMeta e.now u)).get id = some a := ha
    rw [OrdMap.get_insert] at hget
    by_cases heq : id = u.transferId
    · have h1 : (storeSlot u).token id = 1 := if_pos heq
      refine hcount ?_
      rw [h1]
      exact Nat.add_le_add_right (Nat.zero_le _) 1
    · rw [if_neg heq] at hget
      exact hframe (Nat.zero_le _) hget hd
  | writeFailed u creating r =>
    exact hframe (le_of_eq ((owed_afterFailure u creating r).1 id).symm) ha hd
  | write u creating m _ hb =>
    have hget : (st.tables.fileMeta.insert u.transferId
        (grownMeta m (prevLen u st.tables) u)).get id = none := hd
    rw [OrdMap.get_insert] at hget
    split_ifs at hget with heq
    have h0 : (storeWrite u creating).token id = 0 := by
      cases creating <;> simp [token, heq]
    exact hframe (h0 ▸ Nat.zero_le _) ha hget
  | mirror u w =>
    by_cases heq : id = u.transferId
    · subst heq
      exact hcount (le_trans (InTime.total hin hd) (Nat.le_add_right _ _))
    · exact hframe (le_refl _) ((get_mirror_ne heq w st).symm.trans ha) hd
  | unclaim u r =>
    have hget : (st.cache.erase u.transferId).get id = some a := ha
    rw [OrdMap.get_erase] at hget
    split_ifs at hget with heq
    have h0 : (storeUnclaim u r).token id = 0 := if_neg heq
    exact hframe (h0 ▸ Nat.zero_le _) hget hd
  | uncache j b k =>
    have hget : (st.cache.erase j).get id = some a := ha
    rw [OrdMap.get_erase] at hget
    split_ifs at hget with heq
    have h0 : (delUncache j b k).token id = 0 := if_neg heq
    exact hframe (h0 ▸ Nat.zero_le _) hget hd
  | delNone j k _ hn =>
    refine hframe (Nat.zero_le _) ha ?_
    have hget : (st.tables.fileMeta.erase j).get id = none := hd
    rw [OrdMap.get_erase] at hget
    by_cases heq : id = j
    · rw [heq]
      exact hn
    · rw [if_neg heq] at hget
      exact hget
  | del j k m =>
    have hget : (st.tables.fileMeta.erase j).get id = none := hd
    rw [OrdMap.get_erase] at hget
    by_cases heq : id = j
    · have h1 : (delUncache j m.storedBytes k).token id = 1 := if_pos heq
      refine hcount ?_
      rw [h1]
      exact Nat.add_le_add_right (Nat.zero_le _) 1
    · rw [if_neg heq] at hget
      exact hframe (Nat.zero_le _) ha hget
  | delFailed j k r => exact hframe (Nat.zero_le _) ha hd
  | delBytes j b k => exact hframe (Nat.zero_le _) ha hd
  | _ => exact hframe (le_refl _) ha hd

/-- What a step does to the cache entry of a creation that another call has in flight. -/
theorem fresh_act (hc : FileOk c) (hk : CacheOk c) (ht : c.pool[i]? = some t)
    (hs : t.Stepped e c.shared.store t' st') (hin : MirrorsInTime c t) {v : FileTask}
    (hv : v ∈ c.pool) {u : ChunkUpload} (hu : v.creating = some u) (hne : t.creating = none) :
    ∃ a, st'.cache.get u.transferId = some a ∧ a.totalChunks = u.totalChunks ∧
      a.totalBytes = u.totalBytes ∧ a.receivedChunks ≤ 1 := by
  have hmem := List.mem_of_getElem? ht
  have hvt : v ≠ t := by
    rintro rfl
    rw [hne] at hu
    cases hu
  have htoken := token_of_creating hu
  have hsingle := hc.single hv hmem hvt htoken
  obtain ⟨a, ha, hchunks, hbytes, hle⟩ := hk.fresh v hv u hu
  obtain ⟨⟨st, o₀, f₀⟩, pool⟩ := c
  have hframe : st'.cache.get u.transferId = st.cache.get u.transferId →
      ∃ a, st'.cache.get u.transferId = some a ∧ a.totalChunks = u.totalChunks ∧
        a.totalBytes = u.totalBytes ∧ a.receivedChunks ≤ 1 :=
    fun hsame => ⟨a, hsame.trans ha, hchunks, hbytes, hle⟩
  cases hs with
  | claim x _ hx hn =>
    have hother : u.transferId ≠ x.transferId := by
      intro heq
      have hnone : st.cache.get u.transferId = none := heq ▸ hn
      rw [hnone] at ha
      cases ha
    exact hframe ((OrdMap.get_insert _ _ _ _).trans (if_neg hother))
  | mirror x w =>
    by_cases heq : u.transferId = x.transferId
    · rw [heq] at ha
      refine ⟨_, heq ▸ get_mirror ha w, ?_⟩
      -- no call but `v` holds the token, so the mirror is one of at most one chunk
      have hw : w.receivedChunks ≤ 1 := by
        have hcase : InTime _ x.transferId w := hin
        have hd := hc.held hv htoken
        rw [heq] at hd
        unfold InTime at hcase
        rw [hd] at hcase
        obtain ⟨z, hz, hr | ⟨_, hw⟩⟩ := hcase
        · obtain ⟨hzt, hznone⟩ := token_of_removes hr
          have hvz : v ≠ z := by
            rintro rfl
            rw [hznone] at hu
            cases hu
          exact absurd (heq ▸ hzt) (hc.single hv hz hvz htoken)
        · exact hw
      split_ifs
      · exact ⟨hchunks, hbytes, hw⟩
      · exact ⟨hchunks, hbytes, hle⟩
    · exact hframe (get_mirror_ne heq w st)
  | unclaim x r =>
    have hother : u.transferId ≠ x.transferId := fun heq => hsingle (if_pos heq)
    exact hframe ((OrdMap.get_erase _ _ _).trans (if_neg hother))
  | uncache j b k =>
    have hother : u.transferId ≠ j := fun heq => hsingle (if_pos heq)
    exact hframe ((OrdMap.get_erase _ _ _).trans (if_neg hother))
  | _ => exact hframe rfl

theorem cacheOk_act (hc : FileOk c) (hk : CacheOk c) (ht : c.pool[i]? = some t)
    (hs : t.Stepped e c.shared.store t' st') (hin : MirrorsInTime c t) :
    CacheOk ⟨⟨st', o, f⟩, c.pool.set i t'⟩ := by
  refine ⟨fun id d hd => disk_act hc hk ht hs hin hd,
    fun id a ha hd => gone_act hc hk ht hs hin ha hd, ?_⟩
  intro v hv u hu
  rcases mem_set_cases hv with rfl | hv
  · rcases hs.creating hu with ⟨hold, hsame⟩ | ⟨_, hnew⟩
    · obtain ⟨a, ha, hrest⟩ := hk.fresh t (List.mem_of_getElem? ht) u hold
      exact ⟨a, (congrArg (fun m => m.get u.transferId) hsame).trans ha, hrest⟩
    · exact ⟨_, hnew, rfl, rfl, Nat.zero_le _⟩
  · cases hcr : t.creating with
    | none => exact fresh_act hc hk ht hs hin hv hu hcr
    | some x =>
      -- a creation before its commit leaves the cache alone
      obtain ⟨a, ha, hrest⟩ := hk.fresh v hv u hu
      have hsame : st'.cache = c.shared.store.cache := by
        obtain ⟨⟨st, o₀, f₀⟩, pool⟩ := c
        cases hs with
        | slotFull => rfl
        | slot => rfl
        | writeFailed => rfl
        | write => rfl
        | _ => cases hcr
      exact ⟨a, (congrArg (fun m => m.get u.transferId) hsame).trans ha, hrest⟩

end Step

/-! ## Runs -/

theorem cacheOk_spawn {c : FileConfigs} (hk : CacheOk c) {t : FileTask} (ha : t.Admitted) :
    CacheOk ⟨c.shared, c.pool ++ [t]⟩ := by
  have hfree := free_of_starts ha.1
  refine ⟨?_, ?_, ?_⟩
  · intro id d hd
    obtain ⟨a, hget, hf⟩ := hk.disk id d hd
    refine ⟨a, hget, hf.chunks, hf.bytes, hf.le, hf.exact.imp_right ?_⟩
    rintro ⟨x, hx, hown⟩
    exact ⟨x, List.mem_append_left _ hx, hown⟩
  · intro id a hget hd
    rw [total_spawn, hfree.1]
    exact hk.gone id a hget hd
  · intro v hv u hu
    rcases List.mem_append.mp hv with hv | hv
    · exact hk.fresh v hv u hu
    · rw [List.mem_singleton.mp hv] at hu
      have h1 := token_of_creating hu
      rw [hfree.1] at h1
      cases h1

theorem cacheOk_fresh {cfg : FileConfig} {t : FileTables} {origin : OrdMap String ChunkUpload} :
    CacheOk (freshFiles cfg t origin) := by
  refine ⟨?_, ?_, ?_⟩
  · intro id d hd
    exact ⟨d, hd, rfl, rfl, le_refl _, Or.inl ⟨rfl, rfl⟩⟩
  · intro id a ha hd
    have hget : t.fileMeta.get id = some a := ha
    have hnone : t.fileMeta.get id = none := hd
    rw [hnone] at hget
    cases hget
  · intro v hv
    cases hv

theorem run_cacheOk {cfg : FileConfig} {t : FileTables} {origin : OrdMap String ChunkUpload}
    (ht : TablesOk t) (hb : diskStored t ≤ cfg.maxTotalFileBytes)
    (hs : t.fileMeta.size ≤ cfg.maxTransfers) {c : FileConfigs}
    (r : Run fileMachine Timely (freshFiles cfg t origin) c) : FileOk c ∧ CacheOk c := by
  refine r.invariant (P := fun c => FileOk c ∧ CacheOk c)
    ⟨fileOk_fresh ht hb hs, cacheOk_fresh⟩ ?_
  intro c m c' ⟨hc, hk⟩ ⟨hread, hin⟩ hn
  refine ⟨fileOk_next hc hread hn, ?_⟩
  rcases fileMachine_next hc hread hn with ⟨t, rfl, ha, rfl⟩ | ⟨i, e, t, t', st', rfl, ht, hs, rfl⟩
  · exact cacheOk_spawn hk ha
  · exact cacheOk_act hc hk ht hs (hin t ht)

/-- The fields of a record that the cache must show. -/
def FileMeta.shown (m : FileMeta) : Nat × Nat × Nat × Nat :=
  (m.totalChunks, m.totalBytes, m.storedBytes, m.receivedChunks)

/-- Cache and table have the same transfers, with the same shape and progress. -/
def CacheAgrees (st : FileStore) : Prop :=
  ∀ id, (st.cache.get id).map FileMeta.shown = (st.tables.fileMeta.get id).map FileMeta.shown

theorem CacheAgrees.onDisk_iff {st : FileStore} (h : CacheAgrees st) (id : String) :
    OnDisk id st.tables ↔ ∃ m, st.cache.get id = some m := by
  have hid := congrArg Option.isSome (h id)
  rw [Option.isSome_map, Option.isSome_map] at hid
  rw [OnDisk, ← hid, Option.isSome_iff_exists]

theorem expired_of_ttl {cfg : FileConfig} {now : Nat} {m : FileMeta}
    (h : m.createdAtMs + cfg.fileTtlMs < now) : expired cfg now m = true := by
  unfold expired
  have hmin := min_le_right incompleteFileTtlMs cfg.fileTtlMs
  split_ifs <;> exact decide_eq_true (by omega)

/-- **The cache agrees.** If every mirror runs in time, then whenever no call is in flight
    the cache is FILE_META; a transfer that was deleted can be created again, and every
    cached transfer is found by a sweep and deleted by it. -/
theorem cache_agrees {cfg : FileConfig} {t : FileTables} {origin : OrdMap String ChunkUpload}
    (ht : TablesOk t) (hb : diskStored t ≤ cfg.maxTotalFileBytes)
    (hs : t.fileMeta.size ≤ cfg.maxTransfers) {c : FileConfigs}
    (r : Run fileMachine Timely (freshFiles cfg t origin) c) (hidle : Idle c) :
    CacheAgrees c.shared.store ∧
    (∀ now u, ¬OnDisk u.transferId c.shared.store.tables → u.chunkIndex = 0 →
      (claim now u c.shared.store).1 = .ok true) ∧
    ∀ id m now, c.shared.store.cache.get id = some m →
      m.createdAtMs + c.shared.store.config.fileTtlMs < now →
      id ∈ expiredIds now c.shared.store ∧ OnDisk id c.shared.store.tables := by
  obtain ⟨_, hk⟩ := run_cacheOk ht hb hs r
  have hagree : CacheAgrees c.shared.store := by
    intro id
    cases hd : c.shared.store.tables.fileMeta.get id with
    | some d =>
      obtain ⟨a, ha, hf⟩ := hk.disk id d hd
      rcases hf.exact with ⟨hr, hstored⟩ | ⟨x, hx, howes⟩
      · rw [ha, Option.map_some, Option.map_some]
        simp only [FileMeta.shown, hf.chunks, hf.bytes, hr, hstored]
      · have hdone := hidle x hx
        cases x <;> first | cases howes | cases hdone
    | none =>
      cases ha : c.shared.store.cache.get id with
      | none => rfl
      | some a =>
        have hgone := hk.gone id a ha hd
        rw [total_eq_zero fun x hx => (free_of_finished (hidle x hx)).1 id] at hgone
        omega
  refine ⟨hagree, ?_, ?_⟩
  · intro now u hoff hi
    have hnone : c.shared.store.cache.get u.transferId = none := by
      rw [Option.eq_none_iff_forall_ne_some]
      intro m hm
      exact hoff ((hagree.onDisk_iff _).mpr ⟨m, hm⟩)
    unfold claim
    rw [hnone]
    simp [hi]
  · intro id m now hm hold
    refine ⟨List.mem_map.mpr ⟨(id, m), ?_, rfl⟩, (hagree.onDisk_iff id).mpr ⟨m, hm⟩⟩
    exact List.mem_filter.mpr ⟨OrdMap.get_eq_some_iff.mp hm, expired_of_ttl hold⟩

/-- A transfer is created and its second chunk uploaded; the mirror of the second chunk
    runs before the one of the first. -/
theorem cache_agrees_sample : ∃ c : FileConfigs,
    c.shared.store.tables.fileMeta.size = 1 ∧ CacheAgrees c.shared.store := by
  obtain ⟨c, hrun, hc⟩ := exists_run (M := fileMachine) (G := Timely)
    (c := freshFiles sampleFiles ⟨OrdMap.empty, OrdMap.empty⟩ OrdMap.empty)
    [startUpload 0 2 [1, 2], fileStep 0 [], fileStep 0 [], fileStep 0 [], startUpload 1 2 [3],
      fileStep 1 [], fileStep 1 [], fileStep 1 [], fileStep 0 []]
    (p := fun c => decide (Idle c ∧ c.shared.store.tables.fileMeta.size = 1))
    (by decide +kernel)
  obtain ⟨hidle, hsize⟩ := of_decide_eq_true hc
  exact ⟨c, hsize, (cache_agrees tablesOk_empty (by decide) (by decide) hrun hidle).1⟩

/-! ## A mirror that runs late -/

/-- No database call of the move fails. -/
def NoFileFault (_ : FileConfigs) : Move FileMove → Prop
  | .act _ (.run e) => e.faults = [] ∧ e.lost = []
  | _ => True

instance (c : FileConfigs) : ∀ m, Decidable (NoFileFault c m)
  | .act _ (.run _) => inferInstanceAs (Decidable (_ ∧ _))
  | .act _ (.start _) | .spawn _ | .env _ => isTrue trivial

/-- The second chunk has committed when the transfer is deleted; its mirror then puts the
    transfer back into the cache, where no upload can create it again. -/
theorem cache_revived : ¬∀ c : FileConfigs,
    Run fileMachine NoFileFault
      (freshFiles sampleFiles ⟨OrdMap.empty, OrdMap.empty⟩ OrdMap.empty) c →
    Idle c → CacheAgrees c.shared.store := by
  intro hall
  obtain ⟨c, hrun, hc⟩ := exists_run (M := fileMachine) (G := NoFileFault)
    (c := freshFiles sampleFiles ⟨OrdMap.empty, OrdMap.empty⟩ OrdMap.empty)
    [startUpload 0 2 [1, 2], fileStep 0 [], fileStep 0 [], fileStep 0 [], fileStep 0 [],
      startUpload 1 2 [3], fileStep 1 [], fileStep 1 [], startDelete, fileStep 2 [],
      fileStep 2 [], fileStep 2 [], fileStep 2 [], fileStep 1 []]
    (p := fun c => decide (Idle c ∧ c.shared.store.tables.fileMeta.get sampleId = none ∧
      (c.shared.store.cache.get sampleId).isSome = true)) (by decide +kernel)
  obtain ⟨hidle, hnone, hsome⟩ := of_decide_eq_true hc
  have hid := congrArg Option.isSome (hall c hrun hidle sampleId)
  rw [hnone, Option.isSome_map, hsome] at hid
  cases hid

end AxenoRelay
