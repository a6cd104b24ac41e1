/-
  The order of strings is the order of their bytes.

  Two different characters have encodings that differ at a place both have, and the
  smaller character has the smaller byte there (`encode_below`): the lengths tell in the
  first byte, and for equal lengths the bytes are digits, most significant first. So
  comparing characters and comparing UTF-8 bytes is the same (`lt_iff_bytes_lt`).
-/
import Mathlib.Data.String.Basic
import Mathlib.Tactic

namespace Utf8

open String

/-- `l` and `m` differ at a place they both have, where `l` is smaller. -/
def Below (l m : List UInt8) : Prop :=
  ∃ p x s y t, l = p ++ x :: s ∧ m = p ++ y :: t ∧ x < y

theorem Below.cons {l m : List UInt8} (h : Below l m) (z : UInt8) : Below (z :: l) (z :: m) := by
  obtain ⟨p, x, s, y, t, rfl, rfl, hxy⟩ := h
  exact ⟨z :: p, x, s, y, t, rfl, rfl, hxy⟩

/-- What follows does not matter. -/
theorem Below.append {l m : List UInt8} (h : Below l m) (r r' : List UInt8) : l ++ r < m ++ r' := by
  obtain ⟨p, x, s, y, t, rfl, rfl, hxy⟩ := h
  induction p with
  | nil => exact List.cons_lt_cons_iff.mpr (Or.inl hxy)
  | cons z p ih => exact List.cons_lt_cons_iff.mpr (Or.inr ⟨rfl, ih⟩)

theorem below_head {a b : Nat} {s t : List UInt8} (hb : b < 256) (h : a < b) :
    Below (UInt8.ofNat a :: s) (UInt8.ofNat b :: t) := by
  refine ⟨[], _, s, _, t, rfl, rfl, ?_⟩
  rw [UInt8.lt_iff_toNat_lt, UInt8.toNat_ofNat', UInt8.toNat_ofNat', Nat.mod_eq_of_lt hb,
    Nat.mod_eq_of_lt (h.trans hb)]
  exact h

/-- The first number decides, or the rest does. -/
theorem below_cons {a b : Nat} {s t : List UInt8} (hb : b < 256) (hle : a ≤ b)
    (h : a = b → Below s t) : Below (UInt8.ofNat a :: s) (UInt8.ofNat b :: t) := by
  rcases Nat.lt_or_eq_of_le hle with hlt | rfl
  · exact below_head hb hlt
  · exact (h rfl).cons _

theorem encode_below {c d : Char} (h : c < d) : Below (utf8EncodeChar c) (utf8EncodeChar d) := by
  have hlt : c.val.toNat < d.val.toNat := h
  have hd : d.val.toNat < 0x110000 := by
    rcases d.valid with h | ⟨_, h⟩ <;> omega
  unfold utf8EncodeChar
  generalize c.val.toNat = v at hlt
  generalize d.val.toNat = w at hlt hd
  dsimp only
  -- the cases left have `c` no longer than `d`
  split_ifs <;> first | omega | skip
  · exact below_head (by omega) hlt
  · exact below_head (by omega) (by omega)
  · exact below_head (by omega) (by omega)
  · exact below_head (by omega) (by omega)
  · refine below_cons (by omega) (by omega) fun h₁ => ?_
    exact below_head (by omega) (by omega)
  · exact below_head (by omega) (by omega)
  · exact below_head (by omega) (by omega)
  · refine below_cons (by omega) (by omega) fun h₁ => ?_
    refine below_cons (by omega) (by omega) fun h₂ => ?_
    exact below_head (by omega) (by omega)
  · exact below_head (by omega) (by omega)
  · refine below_cons (by omega) (by omega) fun h₁ => ?_
    refine below_cons (by omega) (by omega) fun h₂ => ?_
    refine below_cons (by omega) (by omega) fun h₃ => ?_
    exact below_head (by omega) (by omega)

theorem append_lt_append_iff (p : List UInt8) {l m : List UInt8} : p ++ l < p ++ m ↔ l < m := by
  induction p with
  | nil => rfl
  | cons z p ih =>
    rw [List.cons_append, List.cons_append, List.cons_lt_cons_iff, ih]
    simp

/-- The bytes of a list of characters. -/
def encode (l : List Char) : List UInt8 := l.flatMap utf8EncodeChar

theorem encode_lt_iff {l m : List Char} : encode l < encode m ↔ l < m := by
  induction l generalizing m with
  | nil =>
    cases m with
    | nil => exact iff_of_false (List.not_lt_nil _) (List.not_lt_nil _)
    | cons d m =>
      refine iff_of_true ?_ (List.nil_lt_cons _ _)
      unfold encode
      rw [List.flatMap_nil, List.flatMap_cons]
      cases hd : utf8EncodeChar d with
      | nil => exact absurd hd utf8EncodeChar_ne_nil
      | cons x s => exact List.nil_lt_cons _ _
  | cons c l ih =>
    cases m with
    | nil => exact iff_of_false (List.not_lt_nil _) (List.not_lt_nil _)
    | cons d m =>
      unfold encode at *
      rw [List.flatMap_cons, List.flatMap_cons, List.cons_lt_cons_iff]
      rcases lt_trichotomy c d with hcd | rfl | hcd
      · exact iff_of_true ((encode_below hcd).append _ _) (Or.inl hcd)
      · rw [append_lt_append_iff, ih]
        simp
      · refine iff_of_false (List.lt_asymm ((encode_below hcd).append _ _)) ?_
        rintro (h | ⟨rfl, -⟩)
        · exact lt_asymm h hcd
        · exact lt_irrefl c hcd

/-- The bytes of a string. -/
def bytesOf (s : String) : List UInt8 := s.toByteArray.data.toList

theorem bytesOf_eq (s : String) : bytesOf s = encode s.toList := by
  unfold bytesOf encode
  rw [← String.utf8Encode_toList, List.utf8Encode, List.toList_data_toByteArray]

theorem lt_iff_bytes_lt {s t : String} : bytesOf s < bytesOf t ↔ s < t := by
  rw [bytesOf_eq, bytesOf_eq, encode_lt_iff, String.lt_iff_toList_lt]

end Utf8
