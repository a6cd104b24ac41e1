/-
  A map in memory, written back through a dirty set by one of many tasks.

  `saved` is what the disk will hold once the batch in progress is written, `ram`
  the map in memory and `dirty` the keys to write. A task may hold a key: it changed
  its entry and has yet to mark it, or it took the key and has yet to read the entry.
  `Tracked` says that a key is saved, dirty or held. A step of a task has an `Effect`
  on it; the writer's two steps are `Tracked.take` and `Tracked.read`. Once nothing
  is dirty or held, disk and memory agree (`saved_of_tracked`).
-/
import AxenoRelay.Lib.Interleave
import AxenoRelay.Lib.OrdMap

namespace WriteBack

variable {τ K V : Type} [LinearOrder K]

/-- The entry of `k` is saved, or its key is dirty, or a task holds the key. -/
def Tracked (holds : τ → Option K) (saved ram : OrdMap K V) (dirty : OrdMap K Unit)
    (pool : List τ) (k : K) : Prop :=
  saved.get k = ram.get k ∨ (dirty.get k).isSome = true ∨ ∃ t ∈ pool, holds t = some k

/-- What a step of a task that is not the writer does to the map and the dirty set. -/
inductive Effect (holds : τ → Option K) (t t' : τ) (ram ram' : OrdMap K V)
    (dirty dirty' : OrdMap K Unit) : Prop
  | same (hram : ram' = ram) (hdirty : dirty' = dirty)
      (h : holds t = none ∨ holds t' = holds t)
  | put (k : K) (o : Option V) (hram : ram' = ram.assign k o) (hdirty : dirty' = dirty)
      (h : holds t = none) (h' : holds t' = some k)
  | mark (k : K) (hram : ram' = ram) (hdirty : dirty' = dirty.insert k ()) (h : holds t = some k)

variable {holds : τ → Option K} {saved saved' ram ram' : OrdMap K V}
  {dirty dirty' : OrdMap K Unit} {pool : List τ} {i : Nat} {t t' : τ} {k : K}

theorem Tracked.act (h : Tracked holds saved ram dirty pool k) (hi : pool[i]? = some t)
    (hsaved : saved'.get k = saved.get k) (hram : ram'.get k = ram.get k)
    (hdirty : (dirty.get k).isSome = true → (dirty'.get k).isSome = true)
    (hheld : holds t = some k → holds t' = some k ∨ (dirty'.get k).isSome = true) :
    Tracked holds saved' ram' dirty' (pool.set i t') k := by
  rcases h with h | h | h
  · left
    rw [hsaved, hram, h]
  · exact Or.inr (Or.inl (hdirty h))
  · by_cases hd : (dirty'.get k).isSome = true
    · exact Or.inr (Or.inl hd)
    · have hkeep : holds t = some k → holds t' = some k :=
        fun ht => (hheld ht).resolve_right hd
      exact Or.inr (Or.inr (Interleave.exists_set hi hkeep h))

theorem Tracked.held (hi : pool[i]? = some t) (h : holds t' = some k) :
    Tracked holds saved ram dirty (pool.set i t') k :=
  Or.inr (Or.inr ⟨t', Interleave.mem_set_self hi t', h⟩)

theorem Tracked.spawn (h : Tracked holds saved ram dirty pool k) (t : τ) :
    Tracked holds saved ram dirty (pool ++ [t]) k := by
  rcases h with h | h | ⟨u, hu, hk⟩
  · exact Or.inl h
  · exact Or.inr (Or.inl h)
  · exact Or.inr (Or.inr ⟨u, List.mem_append_left _ hu, hk⟩)

/-- A key tracked without the task that moves stays tracked, whatever that task does. -/
theorem Tracked.drop (h : Tracked holds saved ram dirty (pool.eraseIdx i) k) :
    Tracked holds saved ram dirty (pool.set i t') k := by
  rcases h with h | h | ⟨u, hu, hk⟩
  · exact Or.inl h
  · exact Or.inr (Or.inl h)
  · refine Or.inr (Or.inr ⟨u, ?_, hk⟩)
    obtain ⟨j, hj, hget⟩ := List.mem_eraseIdx_iff_getElem?.mp hu
    refine List.mem_of_getElem? (i := j) ?_
    rw [List.getElem?_set_ne (Ne.symm hj), hget]

theorem Effect.tracked (he : Effect holds t t' ram ram' dirty dirty') (hi : pool[i]? = some t)
    (h : ∀ k, Tracked holds saved ram dirty pool k) (k : K) :
    Tracked holds saved ram' dirty' (pool.set i t') k := by
  rcases he with ⟨rfl, rfl, hh⟩ | ⟨j, o, rfl, rfl, hn, hh⟩ | ⟨j, rfl, rfl, hh⟩
  · refine (h k).act hi rfl rfl id fun hk => Or.inl ?_
    rcases hh with hn | hh
    · rw [hn] at hk
      cases hk
    · rw [hh, hk]
  · by_cases hk : k = j
    · exact Tracked.held hi (hk ▸ hh)
    · refine (h k).act hi rfl ?_ id ?_
      · rw [OrdMap.get_assign, if_neg hk]
      · intro hheld
        rw [hn] at hheld
        cases hheld
  · have hmark : ∀ k, (dirty.get k).isSome = true → ((dirty.insert j ()).get k).isSome = true := by
      intro k hk
      rw [OrdMap.get_insert]
      split_ifs
      · rfl
      · exact hk
    refine (h k).act hi rfl rfl (hmark k) fun hk => Or.inr ?_
    obtain rfl : j = k := Option.some.inj (hh.symm.trans hk)
    rw [OrdMap.get_insert, if_pos rfl]
    rfl

/-- The writer takes the key `j` out of the dirty set and holds it. -/
theorem Tracked.take {j : K} (h : Tracked holds saved ram dirty pool k) (hi : pool[i]? = some t)
    (ht : holds t = none) (ht' : holds t' = some j) :
    Tracked holds saved ram (dirty.erase j) (pool.set i t') k := by
  by_cases hk : k = j
  · exact Tracked.held hi (hk ▸ ht')
  · refine h.act hi rfl rfl ?_ ?_
    · rw [OrdMap.get_erase, if_neg hk]
      exact id
    · intro hheld
      rw [ht] at hheld
      cases hheld

/-- The writer reads the entry of the key it holds into the batch. -/
theorem Tracked.read {j : K} (h : Tracked holds saved ram dirty pool k) (hi : pool[i]? = some t)
    (ht : holds t = some j) :
    Tracked holds (saved.assign j (ram.get j)) ram dirty (pool.set i t') k := by
  by_cases hk : k = j
  · left
    rw [OrdMap.get_assign, if_pos hk, hk]
  · refine h.act hi ?_ rfl id ?_
    · rw [OrdMap.get_assign, if_neg hk]
    · intro hheld
      exact absurd (Option.some.inj (hheld.symm.trans ht)) hk

/-- When nothing is dirty and no task holds a key, the disk holds the map. -/
theorem saved_of_tracked (h : ∀ k, Tracked holds saved ram dirty pool k)
    (hdirty : dirty = OrdMap.empty) (hheld : ∀ t ∈ pool, holds t = none) : saved = ram := by
  apply OrdMap.ext_get
  intro k
  rcases h k with h | h | ⟨t, ht, hk⟩
  · exact h
  · rw [hdirty] at h
    cases h
  · rw [hheld t ht] at hk
    cases hk

end WriteBack
