/-
  Finite maps in key order.

  An `OrdMap K V` is an association list with strictly increasing keys, so equal
  maps are equal lists (`OrdMap.ext_get`), iteration runs in key order and a
  half-open key range is a filter. `get` is the whole content; `insert`, `erase`
  and `filter` are described by what they do to `get` and to `sum`, the total of
  a weight over all entries. Nothing here is about a particular program.
-/
import Mathlib.Data.List.Sort
import Mathlib.Data.List.Nodup
import Mathlib.Order.Basic
import Mathlib.Tactic

namespace OrdMap.Raw

variable {K V : Type} [LinearOrder K]

/-- The value of the first entry with key `k`. -/
def find (k : K) : List (K × V) → Option V
  | [] => none
  | (a, v) :: l => if k = a then some v else find k l

/-- Put `(k, v)` in its place in key order, over an entry with the same key. -/
def put (k : K) (v : V) : List (K × V) → List (K × V)
  | [] => [(k, v)]
  | (a, w) :: l =>
    if k < a then (k, v) :: (a, w) :: l
    else if k = a then (k, v) :: l
    else (a, w) :: put k v l

/-- Strictly increasing keys. -/
abbrev Sorted (l : List (K × V)) : Prop := l.Pairwise (fun a b => a.1 < b.1)

theorem find_put (k j : K) (v : V) (l : List (K × V)) :
    find j (put k v l) = if j = k then some v else find j l := by
  induction l with
  | nil => simp [put, find]
  | cons p l ih =>
    obtain ⟨a, w⟩ := p
    unfold put
    split_ifs with h1 h2 h3 h4
    · simp [find, h2]
    · simp [find, h2]
    · subst h3; simp [find, h4]
    · subst h3; simp [find, h4]
    · simp only [find, ih]
      split_ifs <;> simp_all
    · simp only [find, ih]
      split_ifs <;> simp_all

theorem mem_put {k : K} {v : V} {l : List (K × V)} {p : K × V} (hp : p ∈ put k v l) :
    p = (k, v) ∨ p ∈ l := by
  induction l with
  | nil => exact Or.inl (by simpa [put] using hp)
  | cons q l ih =>
    obtain ⟨a, w⟩ := q
    unfold put at hp
    split_ifs at hp with h1 h2
    · simpa using hp
    · rcases List.mem_cons.mp hp with h | h
      · exact Or.inl h
      · exact Or.inr (List.mem_cons_of_mem _ h)
    · rcases List.mem_cons.mp hp with h | h
      · exact Or.inr (h ▸ List.mem_cons_self)
      · rcases ih h with h | h
        · exact Or.inl h
        · exact Or.inr (List.mem_cons_of_mem _ h)

theorem sorted_put {l : List (K × V)} (h : Sorted l) (k : K) (v : V) : Sorted (put k v l) := by
  induction l with
  | nil => simp [put, Sorted]
  | cons p l ih =>
    obtain ⟨a, w⟩ := p
    obtain ⟨ha, hl⟩ := List.pairwise_cons.mp h
    unfold put
    split_ifs with h1 h2
    · refine List.pairwise_cons.mpr ⟨?_, h⟩
      intro q hq
      rcases List.mem_cons.mp hq with rfl | hq
      · exact h1
      · exact h1.trans (ha q hq)
    · subst h2
      exact List.pairwise_cons.mpr ⟨ha, hl⟩
    · refine List.pairwise_cons.mpr ⟨?_, ih hl⟩
      intro q hq
      rcases mem_put hq with rfl | hq
      · exact lt_of_le_of_ne (not_lt.mp h1) (Ne.symm h2)
      · exact ha q hq

theorem find_eq_none {l : List (K × V)} {k : K} (h : ∀ p ∈ l, p.1 ≠ k) : find k l = none := by
  induction l with
  | nil => rfl
  | cons p l ih =>
    obtain ⟨a, w⟩ := p
    have hne : k ≠ a := fun e => h (a, w) List.mem_cons_self e.symm
    simp only [find, if_neg hne]
    exact ih fun q hq => h q (List.mem_cons_of_mem _ hq)

theorem find_of_lt_head {l : List (K × V)} {a k : K} (h : ∀ p ∈ l, a < p.1) (hk : k ≤ a) :
    find k l = none :=
  find_eq_none fun p hp e => absurd (h p hp) (not_lt.mpr (e ▸ hk))

theorem find_eq_some {l : List (K × V)} (hl : Sorted l) {k : K} {v : V} :
    find k l = some v ↔ (k, v) ∈ l := by
  induction l with
  | nil => simp [find]
  | cons p l ih =>
    obtain ⟨a, w⟩ := p
    obtain ⟨ha, hl⟩ := List.pairwise_cons.mp hl
    simp only [find, List.mem_cons, Prod.mk.injEq]
    split_ifs with h
    · subst h
      have hnot : (k, v) ∉ l := fun hm => absurd (ha _ hm) (lt_irrefl k)
      simp [hnot, eq_comm]
    · rw [ih hl]
      simp [h]

theorem find_filter {l : List (K × V)} (hl : Sorted l) (p : K → V → Bool) (k : K) :
    find k (l.filter fun e => p e.1 e.2) = (find k l).filter (p k) := by
  induction l with
  | nil => rfl
  | cons q l ih =>
    obtain ⟨a, w⟩ := q
    obtain ⟨ha, ht⟩ := List.pairwise_cons.mp hl
    simp only [List.filter_cons]
    by_cases hk : k = a
    · subst hk
      split_ifs with hp
      · simp [find, Option.filter, hp]
      · have hn : find k l = none := find_of_lt_head ha le_rfl
        rw [ih ht, hn]
        simp [find, Option.filter, hp]
    · split_ifs with hp
      · simp only [find, if_neg hk, ih ht]
      · simp only [find, if_neg hk, ih ht]

/-- The total of `f` over the entries. -/
def sum {K V : Type} (f : K → V → Nat) (l : List (K × V)) : Nat := (l.map fun e => f e.1 e.2).sum

@[simp] theorem sum_nil {K V : Type} (f : K → V → Nat) : sum f ([] : List (K × V)) = 0 := rfl

@[simp] theorem sum_cons {K V : Type} (f : K → V → Nat) (p : K × V) (l : List (K × V)) :
    sum f (p :: l) = f p.1 p.2 + sum f l := by simp [sum]

theorem sum_put {l : List (K × V)} (hl : Sorted l) (f : K → V → Nat) (k : K) (v : V) :
    sum f (put k v l) + (find k l).elim 0 (f k) = sum f l + f k v := by
  induction l with
  | nil => simp [put, find]
  | cons p l ih =>
    obtain ⟨a, w⟩ := p
    obtain ⟨ha, hl⟩ := List.pairwise_cons.mp hl
    unfold put
    split_ifs with h1 h2
    · have hn : find k l = none := find_of_lt_head ha h1.le
      simp only [find, if_neg h1.ne, hn, sum_cons, Option.elim_none]
      omega
    · subst h2
      simp only [find, if_true, sum_cons, Option.elim_some]
      omega
    · have := ih hl
      simp only [find, if_neg h2, sum_cons]
      omega

theorem sum_filter_add {K V : Type} (f : K → V → Nat) (p : K → V → Bool) (l : List (K × V)) :
    sum f (l.filter fun e => p e.1 e.2) + sum f (l.filter fun e => !p e.1 e.2) = sum f l := by
  induction l with
  | nil => rfl
  | cons q l ih =>
    simp only [List.filter_cons, sum_cons]
    by_cases hp : p q.1 q.2 = true
    · simp only [hp, if_true, Bool.not_true, sum_cons]
      simp only [Bool.false_eq_true, if_false]
      omega
    · simp only [Bool.not_eq_true] at hp
      simp only [hp, Bool.false_eq_true, if_false, Bool.not_false, if_true, sum_cons]
      omega

end OrdMap.Raw

/-- A finite map as a list of entries with strictly increasing keys. -/
structure OrdMap (K V : Type) [LinearOrder K] where
  entries : List (K × V)
  sorted : OrdMap.Raw.Sorted entries

namespace OrdMap

variable {K V : Type} [LinearOrder K]

def empty : OrdMap K V := ⟨[], List.Pairwise.nil⟩

def get (m : OrdMap K V) (k : K) : Option V := Raw.find k m.entries

def contains (m : OrdMap K V) (k : K) : Bool := (m.get k).isSome

def insert (m : OrdMap K V) (k : K) (v : V) : OrdMap K V :=
  ⟨Raw.put k v m.entries, Raw.sorted_put m.sorted k v⟩

/-- The entries that satisfy `p`. -/
def filter (m : OrdMap K V) (p : K → V → Bool) : OrdMap K V :=
  ⟨m.entries.filter fun e => p e.1 e.2, m.sorted.filter _⟩

def erase (m : OrdMap K V) (k : K) : OrdMap K V := m.filter fun j _ => decide (j ≠ k)

/-- Erase every key of `ks`, one after the other. -/
def eraseAll (m : OrdMap K V) (ks : List K) : OrdMap K V := ks.foldl erase m

/-- The entries with `lo ≤ key < hi`, in key order. -/
def range (m : OrdMap K V) (lo hi : K) : List (K × V) :=
  m.entries.filter fun e => decide (lo ≤ e.1) && decide (e.1 < hi)

def keys (m : OrdMap K V) : List K := m.entries.map Prod.fst

def size (m : OrdMap K V) : Nat := m.entries.length

/-- The total of `f` over all entries. -/
def sum (m : OrdMap K V) (f : K → V → Nat) : Nat := Raw.sum f m.entries

instance [DecidableEq V] : DecidableEq (OrdMap K V) := fun a b =>
  decidable_of_iff (a.entries = b.entries) ⟨fun h => by cases a; cases b; cases h; rfl, fun h => h ▸ rfl⟩

instance : Inhabited (OrdMap K V) := ⟨empty⟩

/-! ## Lookup -/

@[simp] theorem get_empty (k : K) : (empty : OrdMap K V).get k = none := rfl

@[simp, grind =] theorem get_insert (m : OrdMap K V) (k j : K) (v : V) :
    (m.insert k v).get j = if j = k then some v else m.get j :=
  Raw.find_put k j v m.entries

@[simp] theorem get_filter (m : OrdMap K V) (p : K → V → Bool) (k : K) :
    (m.filter p).get k = (m.get k).filter (p k) :=
  Raw.find_filter m.sorted p k

@[simp, grind =] theorem get_erase (m : OrdMap K V) (k j : K) :
    (m.erase k).get j = if j = k then none else m.get j := by
  rw [erase, get_filter]
  by_cases h : j = k
  · simp [h]
  · cases hj : m.get j <;> simp [h]

theorem get_eraseAll (m : OrdMap K V) (ks : List K) (j : K) :
    (m.eraseAll ks).get j = if j ∈ ks then none else m.get j := by
  induction ks generalizing m with
  | nil => simp [eraseAll]
  | cons k ks ih =>
    have h := ih (m.erase k)
    simp only [eraseAll, List.foldl_cons] at h ⊢
    rw [h, get_erase]
    by_cases h1 : j ∈ ks <;> by_cases h2 : j = k <;> simp [h1, h2]

@[simp] theorem contains_eq (m : OrdMap K V) (k : K) : m.contains k = (m.get k).isSome := rfl

theorem get_eq_some_iff {m : OrdMap K V} {k : K} {v : V} :
    m.get k = some v ↔ (k, v) ∈ m.entries := Raw.find_eq_some m.sorted

theorem mem_range_iff {m : OrdMap K V} {lo hi k : K} {v : V} :
    (k, v) ∈ m.range lo hi ↔ m.get k = some v ∧ lo ≤ k ∧ k < hi := by
  simp [range, get_eq_some_iff]

theorem mem_keys_iff {m : OrdMap K V} {k : K} : k ∈ m.keys ↔ ∃ v, m.get k = some v := by
  simp [keys, get_eq_some_iff]

theorem keys_nodup (m : OrdMap K V) : m.keys.Nodup := by
  have h : m.keys.Pairwise (· < ·) := List.pairwise_map.mpr m.sorted
  exact h.imp fun h => h.ne

theorem entries_nodup (m : OrdMap K V) : m.entries.Nodup :=
  m.sorted.imp fun h e => absurd (e ▸ h) (lt_irrefl _)

/-- Two maps with the same lookups are the same map. -/
theorem ext_get {m n : OrdMap K V} (h : ∀ k, m.get k = n.get k) : m = n := by
  have hmem : ∀ p, p ∈ m.entries ↔ p ∈ n.entries := by
    rintro ⟨k, v⟩
    rw [← get_eq_some_iff, ← get_eq_some_iff, h k]
  have hperm : m.entries.Perm n.entries :=
    (List.perm_ext_iff_of_nodup m.entries_nodup n.entries_nodup).mpr hmem
  have hle : ∀ a b : K × V, a ∈ m.entries → b ∈ n.entries → a.1 < b.1 → b.1 < a.1 → a = b :=
    fun a b _ _ h1 h2 => absurd (h1.trans h2) (lt_irrefl _)
  cases m; cases n
  congr
  exact hperm.eq_of_pairwise hle ‹_› ‹_›

theorem insert_get_self {m : OrdMap K V} {k : K} {v : V} (h : m.get k = some v) :
    m.insert k v = m := by
  apply ext_get
  intro j
  rw [get_insert]
  split_ifs with hj
  · rw [hj, h]
  · rfl

theorem erase_of_get_none {m : OrdMap K V} {k : K} (h : m.get k = none) : m.erase k = m := by
  apply ext_get
  intro j
  rw [get_erase]
  split_ifs with hj
  · rw [hj, h]
  · rfl

/-- Erasing the least key leaves the other entries. -/
theorem entries_erase_head {m : OrdMap K V} {k : K} {v : V} {l : List (K × V)}
    (h : m.entries = (k, v) :: l) : (m.erase k).entries = l := by
  obtain ⟨hk, _⟩ := List.pairwise_cons.mp (h ▸ m.sorted)
  show m.entries.filter _ = l
  rw [h, List.filter_cons, if_neg (by simp), List.filter_eq_self]
  intro p hp
  simpa using (hk p hp).ne'

theorem eraseAll_eq_filter (m : OrdMap K V) (ks : List K) :
    m.eraseAll ks = m.filter fun k _ => decide (k ∉ ks) := by
  apply ext_get
  intro j
  rw [get_eraseAll, get_filter]
  by_cases h : j ∈ ks
  · simp [h]
  · cases hj : m.get j <;> simp [h, Option.filter]

/-- Erasing the keys of the entries that satisfy `p` keeps the others. -/
theorem eraseAll_filter (m : OrdMap K V) (p : K → V → Bool) :
    m.eraseAll ((m.entries.filter fun e => p e.1 e.2).map Prod.fst) =
      m.filter fun k v => !p k v := by
  apply ext_get
  intro j
  have hmem : j ∈ (m.entries.filter fun e => p e.1 e.2).map Prod.fst ↔
      ∃ v, m.get j = some v ∧ p j v = true := by
    simp [get_eq_some_iff]
  rw [get_eraseAll, get_filter]
  cases hj : m.get j with
  | none => simp
  | some v =>
    rw [hj] at hmem
    by_cases hp : p j v = true
    · rw [if_pos (hmem.mpr ⟨v, rfl, hp⟩)]
      simp [Option.filter, hp]
    · have hn : ¬∃ w, some v = some w ∧ p j w = true := by
        rintro ⟨w, hw, hpw⟩
        exact hp (Option.some.inj hw ▸ hpw)
      rw [if_neg (mt hmem.mp hn)]
      simp [Option.filter, hp]

theorem range_eraseAll (m : OrdMap K V) (ks : List K) (lo hi : K) :
    (m.eraseAll ks).range lo hi = (m.range lo hi).filter fun e => decide (e.1 ∉ ks) := by
  rw [eraseAll_eq_filter]
  unfold range filter
  rw [List.filter_filter, List.filter_filter]
  exact List.filter_congr fun e _ => Bool.and_comm _ _

/-! ## Batches -/

/-- Write a value (`some`) or delete the key (`none`). -/
def assign (m : OrdMap K V) (k : K) : Option V → OrdMap K V
  | some v => m.insert k v
  | none => m.erase k

def assignAll (m : OrdMap K V) (items : List (K × Option V)) : OrdMap K V :=
  items.foldl (fun m e => m.assign e.1 e.2) m

theorem get_assign (m : OrdMap K V) (k j : K) (o : Option V) :
    (m.assign k o).get j = if j = k then o else m.get j := by
  cases o with
  | none => exact get_erase m k j
  | some v => exact get_insert m k j v

theorem assignAll_append (m : OrdMap K V) (items : List (K × Option V)) (k : K) (o : Option V) :
    m.assignAll (items ++ [(k, o)]) = (m.assignAll items).assign k o := by
  rw [assignAll, List.foldl_append]
  rfl

/-- A batch that reads its values from `f` makes the map agree with `f` on its keys. -/
theorem get_assignAll_map (m : OrdMap K V) (ks : List K) (f : K → Option V) (j : K) :
    (m.assignAll (ks.map fun k => (k, f k))).get j = if j ∈ ks then f j else m.get j := by
  induction ks generalizing m with
  | nil => simp [assignAll]
  | cons k ks ih =>
    have h := ih (m.assign k (f k))
    simp only [assignAll, List.map_cons, List.foldl_cons] at h ⊢
    rw [h, get_assign]
    by_cases h1 : j ∈ ks <;> by_cases h2 : j = k <;> simp [h1, h2]

/-- The map with the given entries, a later one replacing an earlier one. -/
def collect (l : List (K × V)) : OrdMap K V := l.foldl (fun m e => m.insert e.1 e.2) empty

theorem get_collect {l : List (K × V)} (hl : (l.map Prod.fst).Nodup) (k : K) (v : V) :
    (collect l).get k = some v ↔ (k, v) ∈ l := by
  induction l using List.reverseRecOn with
  | nil => simp [collect]
  | append_singleton l e ih =>
    rw [List.map_append, List.nodup_append] at hl
    have hback : collect (l ++ [e]) = (collect l).insert e.1 e.2 := by
      rw [collect, List.foldl_append]
      rfl
    rw [hback, get_insert, List.mem_append, List.mem_singleton]
    by_cases hk : k = e.1
    · rw [if_pos hk, Option.some_inj]
      have hnot : (k, v) ∉ l := by
        intro hmem
        refine hl.2.2 k (List.mem_map.mpr ⟨_, hmem, rfl⟩) e.1 ?_ hk
        exact List.mem_singleton_self _
      constructor
      · intro hv
        exact Or.inr (Prod.ext hk hv.symm)
      · rintro (hmem | rfl)
        · exact absurd hmem hnot
        · rfl
    · rw [if_neg hk, ih hl.1]
      constructor
      · exact Or.inl
      · rintro (hmem | rfl)
        · exact hmem
        · exact absurd rfl hk

/-- Collecting the entries of a map gives the map. -/
theorem collect_entries (m : OrdMap K V) : collect m.entries = m := by
  apply ext_get
  intro k
  ext v
  rw [get_collect m.keys_nodup, get_eq_some_iff]

/-! ## Totals -/

@[simp] theorem sum_empty (f : K → V → Nat) : (empty : OrdMap K V).sum f = 0 := rfl

theorem sum_insert (m : OrdMap K V) (f : K → V → Nat) (k : K) (v : V) :
    (m.insert k v).sum f + (m.get k).elim 0 (f k) = m.sum f + f k v :=
  Raw.sum_put m.sorted f k v

theorem sum_filter_add (m : OrdMap K V) (f : K → V → Nat) (p : K → V → Bool) :
    (m.filter p).sum f + (m.filter fun k v => !p k v).sum f = m.sum f :=
  Raw.sum_filter_add f p m.entries

theorem sum_congr {m : OrdMap K V} {f g : K → V → Nat}
    (h : ∀ k v, m.get k = some v → f k v = g k v) : m.sum f = m.sum g := by
  unfold sum Raw.sum
  congr 1
  exact List.map_congr_left fun e he => h e.1 e.2 (get_eq_some_iff.mpr he)

theorem sum_eq_zero {m : OrdMap K V} {f : K → V → Nat}
    (h : ∀ k v, m.get k = some v → f k v = 0) : m.sum f = 0 := by
  rw [sum_congr (g := fun _ _ => 0) h]
  simp [sum, Raw.sum]

theorem sum_le_sum {m : OrdMap K V} {f g : K → V → Nat} (h : ∀ k v, f k v ≤ g k v) :
    m.sum f ≤ m.sum g :=
  List.sum_le_sum fun e _ => h e.1 e.2

/-- Erasing a key takes exactly its weight away. -/
theorem sum_erase (m : OrdMap K V) (f : K → V → Nat) (k : K) :
    (m.erase k).sum f + (m.get k).elim 0 (f k) = m.sum f := by
  cases hk : m.get k with
  | none => rw [erase_of_get_none hk]; rfl
  | some v =>
    -- put the entry back: `insert` into the erased map restores `m`
    have hback : (m.erase k).insert k v = m := by
      apply ext_get
      intro j
      rw [get_insert, get_erase]
      split_ifs with hj
      · rw [hj, hk]
      · rfl
    have := sum_insert (m.erase k) f k v
    rw [hback, get_erase, if_pos rfl] at this
    simpa using this.symm

/-- Erasing distinct keys takes exactly their weights away. -/
theorem sum_eraseAll (m : OrdMap K V) (f : K → V → Nat) {ks : List K} (hks : ks.Nodup) :
    (m.eraseAll ks).sum f + (ks.map fun k => (m.get k).elim 0 (f k)).sum = m.sum f := by
  induction ks generalizing m with
  | nil => simp [eraseAll]
  | cons k ks ih =>
    obtain ⟨hk, hks⟩ := List.nodup_cons.mp hks
    have h1 := ih (m.erase k) hks
    have h2 := sum_erase m f k
    have hsame : (ks.map fun j => ((m.erase k).get j).elim 0 (f j)) =
        ks.map fun j => (m.get j).elim 0 (f j) := by
      refine List.map_congr_left fun j hj => ?_
      rw [get_erase, if_neg (fun e : j = k => hk (e ▸ hj))]
    rw [hsame] at h1
    simp only [eraseAll, List.foldl_cons, List.map_cons, List.sum_cons] at h1 ⊢
    omega

theorem le_sum_of_get {m : OrdMap K V} {k : K} {v : V} (h : m.get k = some v)
    (f : K → V → Nat) : f k v ≤ m.sum f := by
  have := sum_erase m f k
  rw [h, Option.elim_some] at this
  omega

theorem size_eq_sum (m : OrdMap K V) : m.size = m.sum fun _ _ => 1 := by
  simp [size, sum, Raw.sum]

theorem size_insert_new {m : OrdMap K V} {k : K} (h : m.get k = none) (v : V) :
    (m.insert k v).size = m.size + 1 := by
  have hs := sum_insert m (fun _ _ => 1) k v
  rw [h, Option.elim_none, Nat.add_zero] at hs
  rw [size_eq_sum, size_eq_sum, hs]

theorem size_insert_old {m : OrdMap K V} {k : K} {w : V} (h : m.get k = some w) (v : V) :
    (m.insert k v).size = m.size := by
  have hs := sum_insert m (fun _ _ => 1) k v
  rw [h, Option.elim_some] at hs
  rw [size_eq_sum, size_eq_sum]
  omega

theorem size_erase_old {m : OrdMap K V} {k : K} {w : V} (h : m.get k = some w) :
    (m.erase k).size + 1 = m.size := by
  have hs := sum_erase m (fun _ _ => 1) k
  rw [h, Option.elim_some] at hs
  rw [size_eq_sum, size_eq_sum, hs]

theorem size_insert_le (m : OrdMap K V) (k : K) (v : V) : (m.insert k v).size ≤ m.size + 1 := by
  cases h : m.get k with
  | none => exact (size_insert_new h v).le
  | some w => exact (size_insert_old h v).le.trans (Nat.le_succ _)

theorem size_erase_le (m : OrdMap K V) (k : K) : (m.erase k).size ≤ m.size :=
  List.length_filter_le _ _

theorem size_collect_le (l : List (K × V)) : (collect l).size ≤ l.length := by
  induction l using List.reverseRecOn with
  | nil => exact Nat.le_refl 0
  | append_singleton l e ih =>
    have hback : collect (l ++ [e]) = (collect l).insert e.1 e.2 := by
      rw [collect, List.foldl_append]
      rfl
    rw [hback, List.length_append, List.length_singleton]
    exact (size_insert_le _ _ _).trans (Nat.succ_le_succ ih)

/-! ## A property of all entries -/

def All (m : OrdMap K V) (p : K → V → Prop) : Prop := ∀ k v, m.get k = some v → p k v

section All

variable {m : OrdMap K V} {p : K → V → Prop}

theorem all_empty : (empty : OrdMap K V).All p := by
  intro k v h
  cases h

theorem All.insert (h : m.All p) {k : K} {v : V} (hv : p k v) : (m.insert k v).All p := by
  intro j w hj
  rw [get_insert] at hj
  split_ifs at hj with hk
  · rw [hk, ← Option.some.inj hj]
    exact hv
  · exact h j w hj

theorem All.erase (h : m.All p) (k : K) : (m.erase k).All p := by
  intro j w hj
  rw [get_erase] at hj
  split_ifs at hj
  exact h j w hj

theorem All.assign (h : m.All p) {k : K} {o : Option V} (ho : ∀ v, o = some v → p k v) :
    (m.assign k o).All p := by
  cases o with
  | none => exact h.erase k
  | some v => exact h.insert (ho v rfl)

theorem All.assignAll (h : m.All p) {items : List (K × Option V)}
    (hitems : ∀ k v, (k, some v) ∈ items → p k v) : (m.assignAll items).All p := by
  induction items generalizing m with
  | nil => exact h
  | cons e items ih =>
    refine ih (h.assign fun v hv => ?_) fun k v hmem => hitems k v (List.mem_cons_of_mem _ hmem)
    exact hitems e.1 v (hv ▸ List.mem_cons_self)

theorem all_collect {l : List (K × V)} (h : ∀ e ∈ l, p e.1 e.2) : (collect l).All p := by
  induction l using List.reverseRecOn with
  | nil => exact all_empty
  | append_singleton l e ih =>
    have hback : collect (l ++ [e]) = (collect l).insert e.1 e.2 := by
      rw [collect, List.foldl_append]
      rfl
    rw [hback]
    refine All.insert (ih fun x hx => h x (List.mem_append_left _ hx)) ?_
    exact h e (List.mem_append_right _ (List.mem_singleton_self e))

end All

end OrdMap
