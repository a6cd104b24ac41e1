/-
  A sweep among other calls.

  `sweep_expired` picks its transfers from one snapshot of the cache and deletes each of
  them later, whatever it has become. So two things decide what it deletes: whether the
  cache shows at the scan what the records say (`Current`), and whether a transfer it has
  picked is left as it is until its turn (`Undisturbed`): an upload may bring in the last
  missing chunk, or create the transfer anew after another delete.

  Nothing here depends on how the store came to be: the runs start anywhere.
-/
import AxenoRelay.FileStore.Cache

namespace AxenoRelay

open Interleave FileStore FileTask

/-! ## When a transfer is expired -/

/-- How long a transfer may stay: the shorter window is for incomplete ones. -/
def FileStore.lifetime (cfg : FileConfig) (m : FileMeta) : Nat :=
  if m.totalChunks ≤ m.receivedChunks then cfg.fileTtlMs
  else min incompleteFileTtlMs cfg.fileTtlMs

/-- Created longer ago than its lifetime. -/
def Expired (cfg : FileConfig) (now : Nat) (m : FileMeta) : Prop :=
  m.createdAtMs + lifetime cfg m < now

instance (cfg : FileConfig) (now : Nat) (m : FileMeta) : Decidable (Expired cfg now m) :=
  inferInstanceAs (Decidable (_ < _))

/-- The saturating cutoffs say the same. -/
theorem expired_iff {cfg : FileConfig} {now : Nat} {m : FileMeta} :
    expired cfg now m = true ↔ Expired cfg now m := by
  unfold expired Expired lifetime
  rw [decide_eq_true_iff]
  split_ifs <;> omega

/-- The upload brings in the one chunk that the transfer misses. -/
def LastMissing (u : ChunkUpload) (t : FileTables) (m : FileMeta) : Prop :=
  m.receivedChunks + 1 = m.totalChunks ∧ prevLen u t = 0

instance (u : ChunkUpload) (t : FileTables) (m : FileMeta) : Decidable (LastMissing u t m) :=
  inferInstanceAs (Decidable (_ ∧ _))

/-- An expired transfer stays expired under any other upload. -/
theorem Expired.grown {cfg : FileConfig} {now : Nat} {m : FileMeta} (h : Expired cfg now m)
    {u : ChunkUpload} {t : FileTables}
    (hlast : LastMissing u t m → m.createdAtMs + cfg.fileTtlMs < now) :
    Expired cfg now (grownMeta m (prevLen u t) u) := by
  unfold LastMissing at hlast
  unfold Expired lifetime grownMeta at *
  dsimp only
  by_cases hprev : prevLen u t = 0
  · rw [if_pos hprev]
    split_ifs at h ⊢ <;> omega
  · rw [if_neg hprev]
    exact h

/-! ## What a step does to a record -/

/-- The transaction of a delete fails, finds no record, or takes the one there. -/
theorem step_delTxn {e : StoreEvent} {y : String} {k : After} {t' : FileTask}
    {st st' : FileStore} (h : FileTask.step e (delTxn y k) st = some (t', st')) :
    (∃ r, t' = k.failed r ∧ st' = st) ∨
      (st' = { st with tables := deletedTables e.lost y st.tables } ∧
        ((st.tables.fileMeta.get y = none ∧ t' = k.returned false) ∨
          ∃ m, st.tables.fileMeta.get y = some m ∧ t' = delUncache y m.storedBytes k)) := by
  simp only [FileTask.step] at h
  rcases deletedTables_cases e.lost e.faults y st.tables with ⟨r, hr⟩ | hr
  · rw [hr] at h
    cases h
    exact Or.inl ⟨r, rfl, rfl⟩
  · right
    rw [hr] at h
    cases hm : st.tables.fileMeta.get y with
    | none =>
      rw [hm] at h
      cases h
      exact ⟨rfl, Or.inl ⟨rfl, rfl⟩⟩
    | some m =>
      rw [hm] at h
      cases h
      exact ⟨rfl, Or.inr ⟨m, rfl, rfl⟩⟩

/-- A sweep returns, or goes on with one of the transfers it has picked. -/
theorem step_sweepNext {e : StoreEvent} {rest : List String} {n : Nat} {t' : FileTask}
    {st st' : FileStore} (h : FileTask.step e (sweepNext rest n) st = some (t', st')) :
    st' = st ∧ ((rest = [] ∧ t' = done (.swept (.ok n))) ∨
      ∃ y, rest[e.pick]? = some y ∧ t' = delTxn y (.sweep (rest.eraseIdx e.pick) n)) := by
  simp only [FileTask.step] at h
  split_ifs at h with hempty
  · cases h
    exact ⟨rfl, Or.inl ⟨List.isEmpty_iff.mp hempty, rfl⟩⟩
  · cases hp : rest[e.pick]? with
    | none =>
      rw [hp] at h
      cases h
    | some y =>
      rw [hp] at h
      cases h
      exact ⟨rfl, Or.inr ⟨y, rfl, rfl⟩⟩

/-- A step leaves a record, or it is a write or a delete of it. -/
theorem step_record {e : StoreEvent} {t t' : FileTask} {st st' : FileStore}
    (h : FileTask.step e t st = some (t', st')) (x : String) :
    st'.config = st.config ∧
      (st'.tables.fileMeta.get x = st.tables.fileMeta.get x ∨
      (∃ u creating m, t = storeWrite u creating ∧ u.transferId = x ∧
        IsBase e.now creating u st.tables m ∧
        st'.tables.fileMeta.get x = some (grownMeta m (prevLen u st.tables) u)) ∨
      st'.tables.fileMeta.get x = none) := by
  cases t with
  | storeClaim u =>
    cases claim_stepped h with
    | reject => exact ⟨rfl, Or.inl rfl⟩
    | join => exact ⟨rfl, Or.inl rfl⟩
    | claim => exact ⟨rfl, Or.inl rfl⟩
  | storeSlot u =>
    simp only [FileTask.step, reserveSlot] at h
    split_ifs at h
    · cases h
      exact ⟨rfl, Or.inl rfl⟩
    · cases h
      exact ⟨rfl, Or.inl rfl⟩
  | storeWrite u creating =>
    simp only [FileTask.step] at h
    rcases writeTxn_cases e.now e.faults creating u st with ⟨r, hr⟩ | ⟨m, hb, -, hr⟩
    · rw [hr] at h
      cases h
      exact ⟨rfl, Or.inl rfl⟩
    · rw [hr] at h
      cases h
      refine ⟨rfl, ?_⟩
      have hget : (wrote m u st).tables.fileMeta.get x = if x = u.transferId then
          some (grownMeta m (prevLen u st.tables) u) else st.tables.fileMeta.get x :=
        OrdMap.get_insert _ _ _ _
      by_cases hx : x = u.transferId
      · rw [if_pos hx] at hget
        exact Or.inr (Or.inl ⟨u, creating, m, rfl, hx.symm, hb, hget⟩)
      · rw [if_neg hx] at hget
        exact Or.inl hget
  | delTxn y k =>
    rcases step_delTxn h with ⟨r, -, rfl⟩ | ⟨rfl, -⟩
    · exact ⟨rfl, Or.inl rfl⟩
    · refine ⟨rfl, ?_⟩
      have hget : (deletedTables e.lost y st.tables).fileMeta.get x =
          if x = y then none else st.tables.fileMeta.get x := OrdMap.get_erase _ _ _
      split_ifs at hget with hx
      · exact Or.inr (Or.inr hget)
      · exact Or.inl hget
  | fetchShape y n =>
    simp only [FileTask.step] at h
    cases hf : FileStore.fetchShape y n st with
    | error r =>
      rw [hf] at h
      cases h
      exact ⟨rfl, Or.inl rfl⟩
    | ok m =>
      rw [hf] at h
      cases h
      exact ⟨rfl, Or.inl rfl⟩
  | sweepNext rest n =>
    obtain ⟨rfl, -⟩ := step_sweepNext h
    exact ⟨rfl, Or.inl rfl⟩
  | done r => cases h
  | _ =>
    cases h
    exact ⟨rfl, Or.inl rfl⟩

namespace FileTask

/-- The transfers whose delete transaction a call has still to run. -/
def pending : FileTask → List String
  | delTxn x k => x :: k.ids
  | delUncache _ _ k | delSlot _ _ k | delBytes _ _ k => k.ids
  | sweepNext rest _ => rest
  | _ => []

theorem pending_failed (k : After) (r : DbError) : (k.failed r).pending = [] := by
  cases k <;> rfl

theorem pending_returned (k : After) (b : Bool) : (k.returned b).pending = k.ids := by
  cases k <;> rfl

/-- A task in the middle of a sweep. -/
def sweeping : FileTask → Bool
  | delTxn _ (.sweep _ _) | delUncache _ _ (.sweep _ _) | delSlot _ _ (.sweep _ _)
  | delBytes _ _ (.sweep _ _) | sweepNext _ _ | done (.swept _) => true
  | _ => false

/-- A sweep goes on as a sweep, and picks nothing new. -/
theorem step_sweeping {e : StoreEvent} {t t' : FileTask} {st st' : FileStore}
    (h : FileTask.step e t st = some (t', st')) (ht : t.sweeping = true) :
    t'.sweeping = true ∧ t'.pending ⊆ t.pending := by
  cases t with
  | delTxn y k =>
    cases k with
    | ret => cases ht
    | sweep rest n =>
      rcases step_delTxn h with ⟨r, rfl, -⟩ | ⟨-, ⟨-, rfl⟩ | ⟨m, -, rfl⟩⟩
      · exact ⟨rfl, List.nil_subset _⟩
      · exact ⟨rfl, List.subset_cons_self _ _⟩
      · exact ⟨rfl, List.subset_cons_self _ _⟩
  | delUncache y b k =>
    cases h
    cases k with
    | ret => cases ht
    | sweep rest n => exact ⟨rfl, List.Subset.refl _⟩
  | delSlot y b k =>
    cases h
    cases k with
    | ret => cases ht
    | sweep rest n => exact ⟨rfl, List.Subset.refl _⟩
  | delBytes y b k =>
    cases h
    cases k with
    | ret => cases ht
    | sweep rest n => exact ⟨rfl, List.Subset.refl _⟩
  | sweepNext rest n =>
    obtain ⟨-, ⟨-, rfl⟩ | ⟨y, hy, rfl⟩⟩ := step_sweepNext h
    · exact ⟨rfl, List.nil_subset _⟩
    · refine ⟨rfl, List.cons_subset.mpr ⟨List.mem_of_getElem? hy, ?_⟩⟩
      exact (List.eraseIdx_sublist _ _).subset
  | done r => cases h
  | _ => cases ht

end FileTask

/-! ## The condition -/

/-- The cache shows of every record whether it is expired. -/
def Current (now : Nat) (st : FileStore) : Prop :=
  ∀ p ∈ st.tables.fileMeta.entries,
    ∃ a ∈ st.cache.get p.1, (Expired st.config now a ↔ Expired st.config now p.2)

instance (now : Nat) (st : FileStore) : Decidable (Current now st) := by
  unfold Current
  infer_instance

/-- A call that does not make a transfer that the sweep has picked live again: it does not
    create it, nor bring in the last missing chunk within its full lifetime. -/
def LeavesExpired (now : Nat) (sweep : FileTask) (st : FileStore) : FileTask → Prop
  | storeWrite u creating => u.transferId ∈ sweep.pending → creating = false ∧
      ∀ m ∈ st.tables.fileMeta.get u.transferId, LastMissing u st.tables m →
        m.createdAtMs + st.config.fileTtlMs < now
  | _ => True

instance (now : Nat) (sweep : FileTask) (st : FileStore) (t : FileTask) :
    Decidable (LeavesExpired now sweep st t) := by
  unfold LeavesExpired
  split <;> infer_instance

/-- The sweep at place `i`, with clock reading `now`, reads every row that it deletes, and
    the other calls spare what it has picked. -/
def Undisturbed (i now : Nat) (c : FileConfigs) : Move FileMove → Prop
  | .act j (.run e) => (j = i → e.lost = []) ∧
      ∀ t ∈ c.pool[j]?, ∀ s ∈ c.pool[i]?, LeavesExpired now s c.shared.store t
  | _ => True

instance (i now : Nat) (c : FileConfigs) : ∀ m, Decidable (Undisturbed i now c m)
  | .act _ (.run _) => inferInstanceAs (Decidable (_ ∧ _))
  | .act _ (.start _) | .spawn _ | .env _ => isTrue trivial

/-! ## What a sweep deletes is expired -/

/-- What the next step of the task at place `i` deletes is expired. -/
def DeletesExpired (i now : Nat) (c : FileConfigs) : Prop :=
  ∀ x k e c' d, c.pool[i]? = some (delTxn x k) → fileMachine.next (.act i (.run e)) c = some c' →
    c.shared.store.tables.fileMeta.get x = some d →
    c'.shared.store.tables.fileMeta.get x = none → Expired c.shared.store.config now d

/-- The task at place `i` is in a sweep, and what it has still to delete is expired. -/
def Picked (i now : Nat) (c : FileConfigs) : Prop :=
  ∃ s, c.pool[i]? = some s ∧ s.sweeping = true ∧ ∀ x ∈ s.pending, ∀ d,
    c.shared.store.tables.fileMeta.get x = some d → Expired c.shared.store.config now d

/-- A move starts a call or steps one. -/
theorem fileMachine_moves {c c' : FileConfigs} {m : Move FileMove}
    (hn : fileMachine.next m c = some c') :
    (∃ t, m = .spawn (.start t) ∧ c' = ⟨c.shared, c.pool ++ [t]⟩) ∨
      ∃ j e t t', m = .act j (.run e) ∧ c.pool[j]? = some t ∧
        FileTask.step e t c.shared.store = some (t', c'.shared.store) ∧
        c'.pool = c.pool.set j t' := by
  cases m with
  | spawn e =>
    obtain ⟨t, w, hspawn, rfl⟩ := next_spawn hn
    cases e with
    | start t' =>
      simp only [fileMachine] at hspawn
      split_ifs at hspawn
      cases hspawn
      exact Or.inl ⟨t, rfl, rfl⟩
    | run e => cases hspawn
  | act j e =>
    obtain ⟨t, t', w, ht, hstep, rfl⟩ := next_act hn
    cases e with
    | start _ => cases hstep
    | run e =>
      obtain ⟨⟨t1, st1⟩, h1, h2⟩ := Option.map_eq_some_iff.mp hstep
      cases h2
      exact Or.inr ⟨j, e, t, t1, rfl, ht, h1, rfl⟩
  | env e =>
    obtain ⟨s, hs, _⟩ := next_env hn
    cases hs

theorem picked_next {i now : Nat} {c c' : FileConfigs} (h : Picked i now c) {m : Move FileMove}
    (hg : Undisturbed i now c m) (hn : fileMachine.next m c = some c') : Picked i now c' := by
  obtain ⟨s, hs, hsweep, hexp⟩ := h
  rcases fileMachine_moves hn with ⟨t, rfl, rfl⟩ | ⟨j, e, t, t', rfl, ht, hstep, hpool⟩
  · refine ⟨s, ?_, hsweep, hexp⟩
    rw [List.getElem?_append_left (List.getElem?_eq_some_iff.mp hs).1, hs]
  · -- the records of what is pending, after the step
    have hafter : ∀ x ∈ s.pending, ∀ d, c'.shared.store.tables.fileMeta.get x = some d →
        Expired c'.shared.store.config now d := by
      intro x hx d hd
      obtain ⟨hcfg, hrec⟩ := step_record hstep x
      rw [hcfg]
      rcases hrec with hsame | ⟨u, creating, m, rfl, rfl, hb, hnew⟩ | hnone
      · exact hexp x hx d (hsame ▸ hd)
      · obtain ⟨hcr, hlast⟩ := hg.2 _ ht s hs hx
        subst hcr
        rw [hnew] at hd
        rw [← Option.some.inj hd]
        exact (hexp _ hx m hb).grown (hlast m hb)
      · rw [hnone] at hd
        cases hd
    by_cases hij : j = i
    · subst hij
      obtain rfl : t = s := Option.some.inj (ht.symm.trans hs)
      obtain ⟨hsweep', hsub⟩ := step_sweeping hstep hsweep
      refine ⟨t', ?_, hsweep', fun x hx => hafter x (hsub hx)⟩
      rw [hpool, List.getElem?_set_self (List.getElem?_eq_some_iff.mp ht).1]
    · refine ⟨s, ?_, hsweep, hafter⟩
      rw [hpool, List.getElem?_set_ne hij, hs]

/-! ## What a sweep has deleted by its end -/

section

variable (i now : Nat) (x : String) (c₁ : FileConfigs)

/-- The sweep came to delete `x` when another call had done so. -/
def FoundNone (c : FileConfigs) : Prop :=
  ∃ k, Passes fileMachine (Undisturbed i now) c₁ i (delTxn x k)
    (fun a _ => a.shared.store.tables.fileMeta.get x = none) c

/-- The sweep deleted the record `d` of `x` and every chunk, with `k` to come. -/
def Cut (k : After) (d : FileMeta) (c : FileConfigs) : Prop :=
  Passes fileMachine (Undisturbed i now) c₁ i (delTxn x k)
    (fun a b => a.shared.store.tables.fileMeta.get x = some d ∧ Gone x b.shared.store.tables) c

/-- The sweep then removed the cache entry. -/
def Uncached (k : After) (d : FileMeta) (c : FileConfigs) : Prop :=
  Passes fileMachine (Undisturbed i now) c₁ i (delUncache x d.storedBytes k)
    (fun a b => b.shared.store = a.shared.store.uncache x) c

/-- The sweep then released the slot. -/
def SlotFreed (k : After) (d : FileMeta) (c : FileConfigs) : Prop :=
  Passes fileMachine (Undisturbed i now) c₁ i (delSlot x d.storedBytes k)
    (fun a b => b.shared.store = a.shared.store.releaseSlot) c

/-- The sweep then released the bytes. -/
def BytesFreed (k : After) (d : FileMeta) (c : FileConfigs) : Prop :=
  Passes fileMachine (Undisturbed i now) c₁ i (delBytes x d.storedBytes k)
    (fun a b => b.shared.store = a.shared.store.releaseBytes d.storedBytes) c

/-- The sweep deleted `x` with all that was held for it. -/
def Reclaimed (c : FileConfigs) : Prop :=
  ∃ k d, Cut i now x c₁ k d c ∧ Uncached i now x c₁ k d c ∧ SlotFreed i now x c₁ k d c ∧
    BytesFreed i now x c₁ k d c

/-- How far the sweep, its task being `s`, has come with `x`. -/
inductive Progress (c : FileConfigs) : FileTask → Prop
  | pending {s : FileTask} (h : x ∈ s.pending) : Progress c s
  | none {s : FileTask} (h : FoundNone i now x c₁ c) : Progress c s
  | cut {k : After} {d : FileMeta} (h : Cut i now x c₁ k d c) :
      Progress c (delUncache x d.storedBytes k)
  | uncached {k : After} {d : FileMeta} (h : Cut i now x c₁ k d c)
      (h' : Uncached i now x c₁ k d c) : Progress c (delSlot x d.storedBytes k)
  | slot {k : After} {d : FileMeta} (h : Cut i now x c₁ k d c) (h' : Uncached i now x c₁ k d c)
      (h'' : SlotFreed i now x c₁ k d c) : Progress c (delBytes x d.storedBytes k)
  | all {s : FileTask} (h : Reclaimed i now x c₁ c) : Progress c s
  | failed (r : DbError) : Progress c (done (.swept (.error r)))

end

section

variable {i now : Nat} {x : String} {c₁ c c' : FileConfigs} {m : Move FileMove}

/-- What has been done stays done. -/
theorem Progress.mono {s : FileTask} (h : Progress i now x c₁ c s)
    (g : Undisturbed i now c m) (hn : fileMachine.next m c = some c') :
    Progress i now x c₁ c' s := by
  cases h with
  | pending h => exact .pending h
  | none h =>
    obtain ⟨k, h⟩ := h
    exact .none ⟨k, h.tail g hn⟩
  | cut h => exact .cut (h.tail g hn)
  | uncached h h' => exact .uncached (h.tail g hn) (h'.tail g hn)
  | slot h h' h'' => exact .slot (h.tail g hn) (h'.tail g hn) (h''.tail g hn)
  | all h =>
    obtain ⟨k, d, h1, h2, h3, h4⟩ := h
    exact .all ⟨k, d, h1.tail g hn, h2.tail g hn, h3.tail g hn, h4.tail g hn⟩
  | failed r => exact .failed r

theorem gone_of_readable (y : String) (t : FileTables) : Gone y (deletedTables [] y t) := by
  rw [gone_deletedTables, readable_nil]

theorem mem_pick {l : List String} {n : Nat} {y : String} (hy : l[n]? = some y) (hx : x ∈ l) :
    x = y ∨ x ∈ l.eraseIdx n := by
  obtain ⟨hn, rfl⟩ := List.getElem?_eq_some_iff.mp hy
  have hperm := List.getElem_cons_eraseIdx_perm hn
  exact List.mem_cons.mp (hperm.mem_iff.mpr hx)

/-- A step of the sweep itself. -/
theorem Progress.act {s s' : FileTask} {e : StoreEvent} (h : Progress i now x c₁ c s)
    (hrun : Run fileMachine (Undisturbed i now) c₁ c) (hs : c.pool[i]? = some s)
    (hsweep : s.sweeping = true) (hlost : e.lost = [])
    (hstep : FileTask.step e s c.shared.store = some (s', c'.shared.store))
    (g : Undisturbed i now c (.act i (.run e)))
    (hn : fileMachine.next (.act i (.run e)) c = some c') : Progress i now x c₁ c' s' := by
  -- this very step
  have hpass : ∀ P : FileConfigs → FileConfigs → Prop, P c c' →
      Passes fileMachine (Undisturbed i now) c₁ i s P c' :=
    fun P hp => ⟨c, c', .run e, hrun, hs, hn, hp, .refl⟩
  cases h.mono g hn with
  | pending hx =>
    cases s with
    | delTxn y k =>
      cases k with
      | ret => cases hsweep
      | sweep rest n =>
        rcases step_delTxn hstep with ⟨r, rfl, -⟩ | ⟨hst, ⟨hnone, rfl⟩ | ⟨d, hd, rfl⟩⟩
        · exact .failed r
        · rcases List.mem_cons.mp hx with rfl | hx
          · exact .none ⟨_, hpass _ hnone⟩
          · exact .pending hx
        · rcases List.mem_cons.mp hx with rfl | hx
          · refine .cut (hpass _ ⟨hd, ?_⟩)
            rw [hst, hlost]
            exact gone_of_readable _ _
          · exact .pending hx
    | delUncache y b k =>
      simp only [FileTask.step, Option.some.injEq, Prod.mk.injEq] at hstep
      rw [← hstep.1]
      exact .pending hx
    | delSlot y b k =>
      simp only [FileTask.step, Option.some.injEq, Prod.mk.injEq] at hstep
      rw [← hstep.1]
      exact .pending hx
    | delBytes y b k =>
      simp only [FileTask.step, Option.some.injEq, Prod.mk.injEq] at hstep
      refine .pending ?_
      rw [← hstep.1, pending_returned]
      exact hx
    | sweepNext rest n =>
      obtain ⟨-, ⟨rfl, rfl⟩ | ⟨y, hy, rfl⟩⟩ := step_sweepNext hstep
      · cases hx
      · exact .pending (List.mem_cons.mpr (mem_pick hy hx))
    | _ => cases hx
  | none hfound => exact .none hfound
  | cut hcut =>
    simp only [FileTask.step, Option.some.injEq, Prod.mk.injEq] at hstep
    obtain ⟨rfl, hst⟩ := hstep
    exact .uncached hcut (hpass _ hst.symm)
  | uncached hcut huncached =>
    simp only [FileTask.step, Option.some.injEq, Prod.mk.injEq] at hstep
    obtain ⟨rfl, hst⟩ := hstep
    exact .slot hcut huncached (hpass _ hst.symm)
  | slot hcut huncached hslot =>
    simp only [FileTask.step, Option.some.injEq, Prod.mk.injEq] at hstep
    obtain ⟨rfl, hst⟩ := hstep
    exact .all ⟨_, _, hcut, huncached, hslot, hpass _ hst.symm⟩
  | all hall => exact .all hall
  | failed r => cases hstep

/-- A move of anyone. -/
theorem progress_next {s : FileTask} (hs : c.pool[i]? = some s) (hsweep : s.sweeping = true)
    (hrun : Run fileMachine (Undisturbed i now) c₁ c) (g : Undisturbed i now c m)
    (hn : fileMachine.next m c = some c') (h : Progress i now x c₁ c s) :
    ∃ s', c'.pool[i]? = some s' ∧ Progress i now x c₁ c' s' := by
  rcases fileMachine_moves hn with ⟨t, rfl, rfl⟩ | ⟨j, e, t, t', rfl, ht, hstep, hpool⟩
  · refine ⟨s, ?_, h.mono g hn⟩
    rw [List.getElem?_append_left (List.getElem?_eq_some_iff.mp hs).1, hs]
  · by_cases hij : j = i
    · subst hij
      obtain rfl : t = s := Option.some.inj (ht.symm.trans hs)
      refine ⟨t', ?_, h.act hrun hs hsweep (g.1 rfl) hstep g hn⟩
      rw [hpool, List.getElem?_set_self (List.getElem?_eq_some_iff.mp ht).1]
    · refine ⟨s, ?_, h.mono g hn⟩
      rw [hpool, List.getElem?_set_ne hij, hs]

end

/-! ## The sweep -/

/-- The scan picks the transfers whose record is expired, if the cache is current. -/
theorem Current.picks {now : Nat} {st : FileStore} (h : Current now st) {x : String} {d : FileMeta}
    (hd : st.tables.fileMeta.get x = some d) (hexp : Expired st.config now d) :
    x ∈ expiredIds now st := by
  obtain ⟨a, ha, hiff⟩ := h (x, d) (OrdMap.get_eq_some_iff.mp hd)
  refine List.mem_map.mpr ⟨(x, a), List.mem_filter.mpr ⟨OrdMap.get_eq_some_iff.mp ha, ?_⟩, rfl⟩
  exact expired_iff.mpr (hiff.mpr hexp)

/-- What the scan picks has no record, or an expired one. -/
theorem Current.picked {now : Nat} {st : FileStore} (h : Current now st) {x : String}
    (hx : x ∈ expiredIds now st) {d : FileMeta} (hd : st.tables.fileMeta.get x = some d) :
    Expired st.config now d := by
  obtain ⟨⟨y, a⟩, hmem, rfl⟩ := List.mem_map.mp hx
  obtain ⟨hentry, hexp⟩ := List.mem_filter.mp hmem
  obtain ⟨a', ha', hiff⟩ := h (_, d) (OrdMap.get_eq_some_iff.mp hd)
  obtain rfl : a = a' :=
    Option.some.inj ((OrdMap.get_eq_some_iff.mpr hentry).symm.trans ha')
  exact hiff.mp (expired_iff.mp hexp)

/-- **A sweep removes exactly the expired transfers**, if the cache is current at its scan
    and the other calls leave what it picks as it is: whatever it deletes is expired then,
    and when it returns, it has deleted each transfer that was expired, and released its
    slot and bytes, unless another call had deleted it first. -/
theorem sweep_exact {c₀ c₁ c : FileConfigs} {i : Nat} {e : StoreEvent}
    (hscan : c₀.pool[i]? = some sweepScan) (hcurrent : Current e.now c₀.shared.store)
    (hstart : fileMachine.next (.act i (.run e)) c₀ = some c₁)
    (hrun : Run fileMachine (Undisturbed i e.now) c₁ c) :
    DeletesExpired i e.now c ∧
      ∀ n, c.pool[i]? = some (done (.swept (.ok n))) →
        ∀ x d, c₀.shared.store.tables.fileMeta.get x = some d →
          Expired c₀.shared.store.config e.now d →
          FoundNone i e.now x c₁ c ∨ Reclaimed i e.now x c₁ c := by
  obtain ⟨t, hspawn, -⟩ | ⟨j, e', t, t', hact, ht, hstep, hpool⟩ := fileMachine_moves hstart
  · cases hspawn
  obtain ⟨rfl, rfl⟩ : j = i ∧ e' = e := by
    cases hact
    exact ⟨rfl, rfl⟩
  obtain rfl : t = sweepScan := Option.some.inj (ht.symm.trans hscan)
  simp only [FileTask.step, Option.some.injEq, Prod.mk.injEq] at hstep
  obtain ⟨rfl, hst⟩ := hstep
  have hfirst : c₁.pool[j]? = some (sweepNext (expiredIds e'.now c₀.shared.store) 0) := by
    rw [hpool]
    exact List.getElem?_set_self (List.getElem?_eq_some_iff.mp hscan).1
  have hpicked : Picked j e'.now c₁ := by
    refine ⟨_, hfirst, rfl, fun x hx d hd => ?_⟩
    rw [← hst] at hd ⊢
    exact hcurrent.picked hx hd
  have hinv : Run fileMachine (Undisturbed j e'.now) c₁ c ∧ Picked j e'.now c ∧
      ∀ x ∈ expiredIds e'.now c₀.shared.store, ∃ s, c.pool[j]? = some s ∧
        Progress j e'.now x c₁ c s := by
    refine hrun.invariant (P := fun c => Run fileMachine (Undisturbed j e'.now) c₁ c ∧
      Picked j e'.now c ∧ ∀ x ∈ expiredIds e'.now c₀.shared.store, ∃ s, c.pool[j]? = some s ∧
        Progress j e'.now x c₁ c s) ⟨.refl, hpicked, fun x hx => ⟨_, hfirst, .pending hx⟩⟩ ?_
    rintro a m b ⟨r, hp, hx⟩ g hn
    refine ⟨.tail r g hn, picked_next hp g hn, fun x hmem => ?_⟩
    obtain ⟨s, hs, hprog⟩ := hx x hmem
    obtain ⟨s', hs', hsweep, -⟩ := hp
    obtain rfl : s = s' := Option.some.inj (hs.symm.trans hs')
    exact progress_next hs hsweep r g hn hprog
  obtain ⟨-, ⟨s, hs, -, hexp⟩, hprog⟩ := hinv
  constructor
  · intro x k _ c' d hx _ hd _
    obtain rfl := Option.some.inj (hs.symm.trans hx)
    exact hexp x List.mem_cons_self d hd
  · intro n hdone x d hd hd'
    obtain ⟨s, hs, h⟩ := hprog x (hcurrent.picks hd hd')
    obtain rfl := Option.some.inj (hs.symm.trans hdone)
    cases h with
    | pending h => cases h
    | none h => exact Or.inl h
    | all h => exact Or.inr h

/-! ## A transfer completed under the sweep -/

/-- Limits with a full lifetime longer than the window of incomplete transfers. -/
def sweptFiles : FileConfig := { sampleFiles with fileTtlMs := 10000000 }

/-- The first of two chunks is stored at clock 0. -/
def halfUploaded : List (Move FileMove) :=
  [startUpload 0 2 [1, 2], fileStep 0 [], fileStep 0 [], fileStep 0 [], fileStep 0 []]

def startSweep : Move FileMove := .spawn (.start .sweepScan)

/-- A step at clock 5000000. -/
def lateStep (i : Nat) : Move FileMove := .act i (.run ⟨5000000, [], [], 0⟩)

def atScan (c : FileConfigs) : Bool :=
  match c.pool[1]? with
  | some sweepScan => true
  | _ => false

theorem of_atScan {c : FileConfigs} (h : atScan c = true) : c.pool[1]? = some sweepScan := by
  unfold atScan at h
  split at h
  · assumption
  · cases h

/-- The sweep at place 1 is over. -/
def sweepOver (c : FileConfigs) : Bool :=
  match c.pool[1]? with
  | some (done (.swept (.ok _))) => true
  | _ => false

/-- The next step of the sweep at place 1 deletes a transfer that has not expired. -/
def deletesLive (c : FileConfigs) : Bool :=
  match c.pool[1]? with
  | some (delTxn x _) => (c.shared.store.tables.fileMeta.get x).any
      (fun d => !decide (Expired c.shared.store.config 5000000 d)) &&
    (fileMachine.next (lateStep 1) c).any
      fun c' => (c'.shared.store.tables.fileMeta.get x).isNone
  | _ => false

/-- A sweep of the one transfer, two hours old and never finished. -/
theorem sweep_exact_sample : ∃ c₁ c : FileConfigs,
    c.shared.store.tables.fileMeta.get sampleId = none ∧ DeletesExpired 1 5000000 c ∧
      (FoundNone 1 5000000 sampleId c₁ c ∨ Reclaimed 1 5000000 sampleId c₁ c) := by
  obtain ⟨c₀, c₁, c, -, hp, hn, hrun, hq⟩ := exists_run_through (M := fileMachine)
    (G := Undisturbed 1 5000000) (c := freshFiles sweptFiles ⟨OrdMap.empty, OrdMap.empty⟩ OrdMap.empty)
    (halfUploaded ++ [startSweep]) (lateStep 1)
    [lateStep 1, lateStep 1, lateStep 1, lateStep 1, lateStep 1, lateStep 1]
    (p := fun c => atScan c && decide (Current 5000000 c.shared.store) &&
      (c.shared.store.tables.fileMeta.get sampleId).any
        fun d => decide (Expired c.shared.store.config 5000000 d))
    (q := fun c => (c.shared.store.tables.fileMeta.get sampleId).isNone && sweepOver c)
    (by decide +kernel)
  simp only [Bool.and_eq_true, Option.any_eq_true, Option.isNone_iff_eq_none,
    decide_eq_true_eq] at hp hq
  obtain ⟨⟨hscan, hcurrent⟩, d, hd, hexp⟩ := hp
  obtain ⟨hnone, hdone⟩ := hq
  obtain ⟨h1, h2⟩ := sweep_exact (e := ⟨5000000, [], [], 0⟩) (of_atScan hscan) hcurrent hn hrun
  refine ⟨c₁, c, hnone, h1, ?_⟩
  unfold sweepOver at hdone
  split at hdone
  · exact h2 _ ‹_› sampleId d hd hexp
  · cases hdone

/-- The second chunk is stored while the sweep has the transfer on its list: what it then
    deletes is complete and within its lifetime. -/
theorem sweep_deletes_live : ¬∀ (cfg : FileConfig) (c₀ c₁ c : FileConfigs) (i : Nat)
    (e : StoreEvent),
    Run fileMachine NoFileFault (freshFiles cfg ⟨OrdMap.empty, OrdMap.empty⟩ OrdMap.empty) c₀ →
    c₀.pool[i]? = some sweepScan → fileMachine.next (.act i (.run e)) c₀ = some c₁ →
    Run fileMachine NoFileFault c₁ c → DeletesExpired i e.now c := by
  intro hall
  obtain ⟨c₀, c₁, c, hrun, hp, hn, hrun', hq⟩ := exists_run_through (M := fileMachine)
    (G := NoFileFault) (c := freshFiles sweptFiles ⟨OrdMap.empty, OrdMap.empty⟩ OrdMap.empty)
    (halfUploaded ++ [startSweep, startUpload 1 2 [3]]) (lateStep 1)
    [lateStep 2, lateStep 2, lateStep 2, lateStep 1] (p := atScan) (q := deletesLive)
    (by decide +kernel)
  have hexp := hall _ c₀ c₁ c 1 ⟨5000000, [], [], 0⟩ hrun (of_atScan hp) hn hrun'
  unfold deletesLive at hq
  split at hq
  · simp only [Bool.and_eq_true, Option.any_eq_true, Option.isNone_iff_eq_none, Bool.not_eq_true',
      decide_eq_false_iff_not] at hq
    obtain ⟨⟨d, hd, hlive⟩, c', hc', hnone⟩ := hq
    exact hlive (hexp _ _ _ c' d ‹_› hc' hd hnone)
  · cases hq

end AxenoRelay
