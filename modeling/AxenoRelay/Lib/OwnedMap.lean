/-
  Maps whose keys have an owner.

  Every key is an owner, the separator `c` and a rest, and no owner contains `c`
  or its successor. Then an owner's entries are a key range and also a filter
  (`range_eq_filter`), and each owner has a total of its own (`ownedSum`), which an
  update changes only for the owner of the updated key.
-/
import AxenoRelay.Lib.OrdMap
import AxenoRelay.Lib.SepKey

namespace SepKey

variable {V : Type} {c c' : Char}

/-- What stands before the first separator. -/
def owner (c : Char) (k : String) : Option String := (splitOnce c k).map Prod.fst

/-- Does `a` own the key `k`? -/
def ownedBy (c : Char) (a k : String) : Bool := decide (owner c k = some a)

/-- Every key was made from an owner without the separator and its successor. -/
def Owned (c c' : Char) (m : OrdMap String V) : Prop :=
  ∀ k v, m.get k = some v →
    ∃ b x : String, Free c c' b.toList ∧ k = b ++ String.singleton c ++ x

theorem Free.not_mem {a : String} (h : Free c c' a.toList) : c ∉ a.toList :=
  fun hc => (h c hc).1 rfl

theorem ownedBy_key {b : String} (hb : c ∉ b.toList) (a x : String) :
    ownedBy c a (b ++ String.singleton c ++ x) = decide (b = a) := by
  rw [ownedBy, owner, splitOnce_append hb, Option.map_some]
  exact decide_eq_decide.mpr Option.some_inj

/-- The entries of one owner are those in its key range. -/
theorem range_eq_filter (hs : Succ c c') {m : OrdMap String V} (hm : Owned c c' m) {a : String}
    (ha : Free c c' a.toList) :
    m.range (a ++ String.singleton c) (a ++ String.singleton c') =
      m.entries.filter fun e => ownedBy c a e.1 := by
  unfold OrdMap.range
  refine List.filter_congr fun e he => ?_
  obtain ⟨b, x, hb, hk⟩ := hm e.1 e.2 (OrdMap.get_eq_some_iff.mpr he)
  have hbounds := mem_bounds_iff hs ha hb x
  rw [hk, ownedBy_key hb.not_mem, ← Bool.decide_and]
  exact decide_eq_decide.mpr (hbounds.trans eq_comm)

/-! ## Totals by owner -/

/-- The total of `w` over the entries of owner `a`. -/
def ownedSum (c : Char) (w : V → Nat) (a : String) (m : OrdMap String V) : Nat :=
  m.sum fun k v => if ownedBy c a k then w v else 0

theorem sum_ownedBy (w : V → Nat) (a : String) (l : List (String × V)) :
    ((l.filter fun e => ownedBy c a e.1).map fun e => w e.2).sum =
      (l.map fun e => if ownedBy c a e.1 then w e.2 else 0).sum := by
  induction l with
  | nil => rfl
  | cons e l ih =>
    rw [List.filter_cons, List.map_cons, List.sum_cons, ← ih]
    split_ifs <;> simp

/-- The weight of an owner's key range. -/
theorem sum_range (hs : Succ c c') {m : OrdMap String V} (hm : Owned c c' m) {a : String}
    (ha : Free c c' a.toList) (w : V → Nat) :
    ((m.range (a ++ String.singleton c) (a ++ String.singleton c')).map fun e => w e.2).sum =
      ownedSum c w a m := by
  rw [range_eq_filter hs hm ha]
  exact sum_ownedBy w a m.entries

theorem ite_key {b : String} (hb : c ∉ b.toList) (a x : String) (n : Nat) :
    (if ownedBy c a (b ++ String.singleton c ++ x) = true then n else 0) =
      if a = b then n else 0 := by
  rw [ownedBy_key hb]
  by_cases h : a = b
  · rw [if_pos h, h, if_pos (by simp)]
  · rw [if_neg h, if_neg (by simpa using fun e : b = a => h e.symm)]

theorem elim_key {b : String} (hb : c ∉ b.toList) (w : V → Nat) (a x : String) (o : Option V) :
    (o.elim 0 fun v => if ownedBy c a (b ++ String.singleton c ++ x) = true then w v else 0) =
      if a = b then o.elim 0 w else 0 := by
  cases o with
  | none => simp
  | some v => exact ite_key hb a x (w v)

theorem ownedSum_insert (w : V → Nat) {b : String} (hb : c ∉ b.toList) (a x : String)
    (m : OrdMap String V) (v : V) :
    ownedSum c w a (m.insert (b ++ String.singleton c ++ x) v) +
        (if a = b then (m.get (b ++ String.singleton c ++ x)).elim 0 w else 0) =
      ownedSum c w a m + if a = b then w v else 0 := by
  have h := OrdMap.sum_insert m (fun k v => if ownedBy c a k then w v else 0)
    (b ++ String.singleton c ++ x) v
  rw [elim_key hb, ite_key hb] at h
  exact h

theorem ownedSum_erase (w : V → Nat) {b : String} (hb : c ∉ b.toList) (a x : String)
    (m : OrdMap String V) :
    ownedSum c w a (m.erase (b ++ String.singleton c ++ x)) +
        (if a = b then (m.get (b ++ String.singleton c ++ x)).elim 0 w else 0) =
      ownedSum c w a m := by
  have h := OrdMap.sum_erase m (fun k v => if ownedBy c a k then w v else 0)
    (b ++ String.singleton c ++ x)
  rw [elim_key hb] at h
  exact h

/-- What a filter keeps and what it drops add up. -/
theorem ownedSum_filter (w : V → Nat) (a : String) (m : OrdMap String V)
    (p : String → V → Bool) :
    ownedSum c w a (m.filter fun k v => !p k v) + ownedSum c w a (m.filter p) =
      ownedSum c w a m := by
  rw [Nat.add_comm]
  exact OrdMap.sum_filter_add m _ p

/-- The entries of one owner, by owner. -/
theorem ownedSum_ownedBy (w : V → Nat) (a n : String) (m : OrdMap String V) :
    ownedSum c w n (m.filter fun k _ => ownedBy c a k) =
      if n = a then ownedSum c w a m else 0 := by
  by_cases hna : n = a
  · subst hna
    have h := ownedSum_filter (c := c) w n m fun k _ => ownedBy c n k
    have h0 : ownedSum c w n (m.filter fun k _ => !ownedBy c n k) = 0 := by
      refine OrdMap.sum_eq_zero fun k v hk => ?_
      rw [OrdMap.get_filter, Option.filter_eq_some_iff] at hk
      rw [if_neg (by simpa using hk.2)]
    rw [if_pos rfl]
    omega
  · rw [if_neg hna]
    refine OrdMap.sum_eq_zero fun k v hk => ?_
    rw [OrdMap.get_filter, Option.filter_eq_some_iff] at hk
    have hk2 : owner c k = some a := by simpa [ownedBy] using hk.2
    rw [if_neg]
    simp [ownedBy, hk2, Ne.symm hna]

end SepKey
