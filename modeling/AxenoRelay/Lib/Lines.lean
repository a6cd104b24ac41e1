/-
  A text that is read line by line: its lines, and what is left of a list when the margin at
  both ends is taken off.

  `strip_eq_iff` says what stripping does without saying how: the list is a margin, a core
  whose ends are not margin, and a margin. `lines_unlines` is the round trip.
-/
import Mathlib.Data.List.DropRight
import Mathlib.Tactic

namespace Lines

variable {α : Type}

section Margin

variable {p : α → Bool} {l m : List α}

/-- `l` without the elements at both ends that satisfy `p`. -/
def strip (p : α → Bool) (l : List α) : List α := (l.dropWhile p).rdropWhile p

/-- No element of `l` is other than margin. -/
def Margin (p : α → Bool) (l : List α) : Prop := ∀ c ∈ l, p c = true

/-- No end of `l` is margin. -/
def Bare (p : α → Bool) (l : List α) : Prop :=
  (∀ c ∈ l.head?, p c = false) ∧ ∀ c ∈ l.getLast?, p c = false

instance (p : α → Bool) (l : List α) : Decidable (Bare p l) :=
  decidable_of_iff ((l.head?.all fun c => !p c) && l.getLast?.all fun c => !p c) (by
    simp [Bare, Option.all_eq_true])

theorem rdropWhile_append_margin {b : List α} (hb : Margin p b)
    (hm : ∀ c ∈ m.getLast?, p c = false) : (m ++ b).rdropWhile p = m := by
  have hdrop : (b.reverse ++ m.reverse).dropWhile p = m.reverse.dropWhile p :=
    List.dropWhile_append_of_pos fun c hc => hb c (List.mem_reverse.mp hc)
  have hself : m.rdropWhile p = m := by
    rw [List.rdropWhile_eq_self_iff]
    intro hne
    have hlast := hm (m.getLast hne) (List.getLast?_eq_some_getLast hne)
    simp [hlast]
  unfold List.rdropWhile at hself ⊢
  rw [List.reverse_append, hdrop, hself]

theorem strip_append {a b : List α} (ha : Margin p a) (hb : Margin p b) (hm : Bare p m) :
    strip p (a ++ m ++ b) = m := by
  unfold strip
  rw [List.append_assoc, List.dropWhile_append_of_pos ha]
  cases m with
  | nil =>
    have hnil : b.dropWhile p = [] := List.dropWhile_eq_nil_iff.mpr hb
    rw [List.nil_append, hnil, List.rdropWhile_nil]
  | cons c m =>
    have hc : p c = false := hm.1 c rfl
    have hdrop : (c :: m ++ b).dropWhile p = c :: m ++ b := by simp [hc]
    rw [hdrop, rdropWhile_append_margin hb hm.2]

theorem strip_bare (l : List α) : Bare p (strip p l) := by
  refine ⟨fun c hc => ?_, fun c hc => ?_⟩
  · have hne : strip p l ≠ [] := List.ne_nil_of_mem (List.mem_of_mem_head? hc)
    obtain ⟨b, hb⟩ : strip p l <+: l.dropWhile p := List.rdropWhile_prefix p _
    have hhead : (l.dropWhile p).head? = some c := by
      rw [← hb, List.head?_append_of_ne_nil _ hne]
      exact hc
    have h := List.head?_dropWhile_not p l
    rw [hhead] at h
    simpa using h
  · obtain ⟨hne, hlast⟩ := List.mem_getLast?_eq_getLast hc
    have h := List.rdropWhile_last_not p (l.dropWhile p) hne
    rw [hlast]
    exact Bool.eq_false_of_not_eq_true h

theorem strip_decomposes (l : List α) :
    ∃ a b, Margin p a ∧ Margin p b ∧ l = a ++ strip p l ++ b := by
  refine ⟨l.takeWhile p, (l.dropWhile p).rtakeWhile p, fun c hc => List.mem_takeWhile_imp hc,
    fun c hc => List.mem_rtakeWhile_imp hc, ?_⟩
  unfold strip
  rw [List.append_assoc, List.rdropWhile_append_rtakeWhile, List.takeWhile_append_dropWhile]

/-- What is left when the margin is taken off. -/
theorem strip_eq_iff : strip p l = m ↔
    Bare p m ∧ ∃ a b, Margin p a ∧ Margin p b ∧ l = a ++ m ++ b := by
  constructor
  · rintro rfl
    exact ⟨strip_bare l, strip_decomposes l⟩
  · rintro ⟨hm, a, b, ha, hb, rfl⟩
    exact strip_append ha hb hm

end Margin

section Lines

variable [DecidableEq α] {nl cr : α}

/-- A line without the `cr` that its ending may have begun with. -/
def endLine (cr : α) (l : List α) : List α := if l.getLast? = some cr then l.dropLast else l

/-- The lines of a text of which `cur` has been read since the last `nl`. A `cr` before the
    `nl` belongs to the ending, and the last line need not have one. -/
def linesFrom (nl cr : α) (cur : List α) : List α → List (List α)
  | [] => if cur.isEmpty then [] else [cur]
  | c :: l => if c = nl then endLine cr cur :: linesFrom nl cr [] l else linesFrom nl cr (cur ++ [c]) l

def lines (nl cr : α) (l : List α) : List (List α) := linesFrom nl cr [] l

theorem linesFrom_append {a : List α} (ha : nl ∉ a) (cur l : List α) :
    linesFrom nl cr cur (a ++ l) = linesFrom nl cr (cur ++ a) l := by
  induction a generalizing cur with
  | nil => simp
  | cons c a ih =>
    have hc : c ≠ nl := fun h => ha (h ▸ List.mem_cons_self)
    have ha' : nl ∉ a := fun h => ha (List.mem_cons_of_mem _ h)
    rw [List.cons_append, linesFrom, if_neg hc, ih ha', List.append_assoc, List.singleton_append]

theorem lines_line {a : List α} (ha : nl ∉ a) (l : List α) :
    lines nl cr (a ++ nl :: l) = endLine cr a :: lines nl cr l := by
  unfold lines
  rw [linesFrom_append ha, List.nil_append, linesFrom, if_pos rfl]

/-- Lines that are written out one after the other are read back. -/
theorem lines_unlines {ls : List (List α)} (h : ∀ a ∈ ls, nl ∉ a ∧ cr ∉ a.getLast?) :
    lines nl cr (ls.flatMap fun a => a ++ [nl]) = ls := by
  induction ls with
  | nil => rfl
  | cons a ls ih =>
    obtain ⟨ha, hcr⟩ := h a List.mem_cons_self
    have hend : endLine cr a = a := if_neg hcr
    rw [List.flatMap_cons, List.append_assoc, List.singleton_append, lines_line ha, hend,
      ih fun b hb => h b (List.mem_cons_of_mem _ hb)]

end Lines

end Lines
