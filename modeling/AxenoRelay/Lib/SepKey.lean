/-
  Keys made of an owner, a separator and a rest, in lexicographic order.

  If no owner contains the separator `c` or its successor `c'`, then the keys of
  owner `a` are exactly those between `a ++ c` and `a ++ c'`
  (`mem_bounds_iff`), also when one owner is a prefix of another: the order is
  decided at the first place where the owners differ or one of them ends. The
  first separator gives the owner back (`splitOnce_append`).
-/
import Mathlib.Data.String.Basic
import Mathlib.Tactic

namespace SepKey

/-! ## Lists over a linear order -/

section Lists

variable {α : Type} [LinearOrder α]

/-- `c'` comes right after `c`. -/
def Succ (c c' : α) : Prop := c < c' ∧ ∀ d, c < d → c' ≤ d

/-- No letter of `a` is the separator or its successor. -/
def Free (c c' : α) (a : List α) : Prop := ∀ d ∈ a, d ≠ c ∧ d ≠ c'

theorem cons_le_cons {a b : α} {l m : List α} : a :: l ≤ b :: m ↔ a < b ∨ a = b ∧ l ≤ m := by
  rw [← not_lt, List.cons_lt_cons_iff, ← not_lt]
  constructor
  · intro h
    rcases lt_trichotomy a b with hab | hab | hab
    · exact Or.inl hab
    · exact Or.inr ⟨hab, fun hl => h (Or.inr ⟨hab.symm, hl⟩)⟩
    · exact absurd (Or.inl hab) h
  · rintro (h | ⟨rfl, h⟩) (h' | ⟨h', hl⟩)
    · exact absurd (h.trans h') (lt_irrefl a)
    · exact absurd h' h.ne'
    · exact lt_irrefl a h'
    · exact h hl

theorem mem_bounds_iff_list {c c' : α} (hs : Succ c c') {a b : List α} (ha : Free c c' a)
    (hb : Free c c' b) (x : List α) :
    (a ++ [c] ≤ b ++ c :: x ∧ b ++ c :: x < a ++ [c']) ↔ a = b := by
  induction a generalizing b with
  | nil =>
    cases b with
    | nil =>
      simp only [List.nil_append, cons_le_cons, List.cons_lt_cons_iff, iff_true]
      exact ⟨Or.inr ⟨trivial, not_lt.mp (List.not_lt_nil x)⟩, Or.inl hs.1⟩
    | cons d b =>
      -- `d` would have to lie strictly between `c` and `c'`
      obtain ⟨h1, h2⟩ := hb d List.mem_cons_self
      simp only [List.nil_append, List.cons_append, cons_le_cons, List.cons_lt_cons_iff,
        List.not_lt_nil, and_false, or_false, reduceCtorEq, iff_false, not_and, not_lt]
      rintro (h | ⟨h, -⟩)
      · exact hs.2 d h
      · exact absurd h.symm h1
  | cons e a ih =>
    obtain ⟨h1, h2⟩ := ha e List.mem_cons_self
    have ha' : Free c c' a := fun d hd => ha d (List.mem_cons_of_mem _ hd)
    cases b with
    | nil =>
      simp only [List.cons_append, List.nil_append, cons_le_cons, List.cons_lt_cons_iff,
        reduceCtorEq, iff_false, not_and]
      rintro (h | ⟨h, -⟩) (h' | ⟨h', -⟩)
      · exact absurd (h.trans h') (lt_irrefl e)
      · exact h1 h'.symm
      · exact h1 h
      · exact h1 h
    | cons d b =>
      have hb' : Free c c' b := fun d hd => hb d (List.mem_cons_of_mem _ hd)
      simp only [List.cons_append, cons_le_cons, List.cons_lt_cons_iff, List.cons.injEq]
      constructor
      · rintro ⟨h | ⟨rfl, h⟩, h' | ⟨h'', h'⟩⟩
        · exact absurd (h.trans h') (lt_irrefl e)
        · exact absurd h'' (ne_of_gt h)
        · exact absurd h' (lt_irrefl _)
        · exact ⟨rfl, (ih ha' hb').mp ⟨h, h'⟩⟩
      · rintro ⟨rfl, rfl⟩
        obtain ⟨h, h'⟩ := (ih ha' hb').mpr rfl
        exact ⟨Or.inr ⟨rfl, h⟩, Or.inr ⟨rfl, h'⟩⟩

/-- Split at the first `c`. -/
def splitList (c : α) : List α → Option (List α × List α)
  | [] => none
  | d :: l => if d = c then some ([], l) else (splitList c l).map fun p => (d :: p.1, p.2)

theorem splitList_append {c : α} {a : List α} (ha : c ∉ a) (x : List α) :
    splitList c (a ++ c :: x) = some (a, x) := by
  induction a with
  | nil => simp [splitList]
  | cons d a ih =>
    have hd : d ≠ c := fun e => ha (e ▸ List.mem_cons_self)
    have ha' : c ∉ a := fun h => ha (List.mem_cons_of_mem _ h)
    simp [splitList, hd, ih ha']

theorem splitList_eq_some {c : α} {l a x : List α}
    (h : splitList c l = some (a, x)) : c ∉ a ∧ l = a ++ c :: x := by
  induction l generalizing a with
  | nil => cases h
  | cons d l ih =>
    rw [splitList] at h
    split_ifs at h with hd
    · cases h
      exact ⟨List.not_mem_nil, by rw [hd, List.nil_append]⟩
    · obtain ⟨⟨a', x'⟩, hsplit, heq⟩ := Option.map_eq_some_iff.mp h
      cases heq
      obtain ⟨hc, rfl⟩ := ih hsplit
      refine ⟨fun hmem => ?_, rfl⟩
      rcases List.mem_cons.mp hmem with heq | hmem
      · exact hd heq.symm
      · exact hc hmem

end Lists

/-! ## Strings -/

/-- `str::split_once` with a character. -/
def splitOnce (c : Char) (s : String) : Option (String × String) :=
  (splitList c s.toList).map fun p => (String.ofList p.1, String.ofList p.2)

theorem splitOnce_append {c : Char} {a : String} (ha : c ∉ a.toList) (x : String) :
    splitOnce c (a ++ String.singleton c ++ x) = some (a, x) := by
  have h := splitList_append ha x.toList
  simp [splitOnce, h]

/-- The keys of owner `a` lie between `a ++ c` and `a ++ c'`, and no others do. -/
theorem mem_bounds_iff {c c' : Char} (hs : Succ c c') {a b : String} (ha : Free c c' a.toList)
    (hb : Free c c' b.toList) (x : String) :
    (a ++ String.singleton c ≤ b ++ String.singleton c ++ x ∧
      b ++ String.singleton c ++ x < a ++ String.singleton c') ↔ a = b := by
  have h := mem_bounds_iff_list hs ha hb x.toList
  rw [String.le_iff_toList_le, String.lt_iff_toList_lt, ← String.toList_inj]
  simpa using h

/-- Keys with separator-free owners are equal only if owner and rest are. -/
theorem key_inj {c : Char} {a b : String} (ha : c ∉ a.toList) (hb : c ∉ b.toList) {x y : String}
    (h : a ++ String.singleton c ++ x = b ++ String.singleton c ++ y) : a = b ∧ x = y := by
  have h1 := splitOnce_append ha x
  rw [h, splitOnce_append hb y] at h1
  simpa [eq_comm] using h1

end SepKey
