/-
  Proof of work: what `verify_pow` accepts, and for whom.

  The byte loop of `pow_hash_ok` compares the digest, read as a big-endian number, with a
  power of two (`powBits_iff`), so a nonce is accepted exactly if its window is current
  and the digest of `id:window:rest` is small (`verifyPow_iff`). The hashed text can be
  read back, for the id and the window hold no colon (`pow_exact`).
-/
import Mathlib
import AxenoRelay.Util

namespace AxenoRelay

open SepKey

/-! ## Leading zero bits -/

/-- The number that bytes stand for, most significant first. -/
def bigEndian : List UInt8 → Nat
  | [] => 0
  | b :: l => b.toNat * 256 ^ l.length + bigEndian l

theorem bigEndian_lt (l : List UInt8) : bigEndian l < 256 ^ l.length := by
  induction l with
  | nil => exact Nat.one_pos
  | cons b l ih =>
    have hb : b.toNat + 1 ≤ 256 := b.toNat_lt
    calc bigEndian (b :: l) < b.toNat * 256 ^ l.length + 256 ^ l.length := Nat.add_lt_add_left ih _
      _ = (b.toNat + 1) * 256 ^ l.length := (Nat.succ_mul _ _).symm
      _ ≤ 256 * 256 ^ l.length := Nat.mul_le_mul_right _ hb
      _ = 256 ^ (b :: l).length := by rw [List.length_cons, Nat.pow_succ, Nat.mul_comm]

/-- A first byte below `2 ^ k` is a number below `2 ^ k` times the rest's range. -/
theorem bigEndian_cons_lt {b : UInt8} {l : List UInt8} {n : Nat} :
    bigEndian (b :: l) < n * 256 ^ l.length ↔ b.toNat < n := by
  have hl := bigEndian_lt l
  unfold bigEndian
  constructor
  · intro h
    by_contra hge
    have hmul := Nat.mul_le_mul_right (256 ^ l.length) (Nat.le_of_not_lt hge)
    omega
  · intro h
    have hmul : (b.toNat + 1) * 256 ^ l.length ≤ n * 256 ^ l.length := Nat.mul_le_mul_right _ h
    rw [Nat.succ_mul] at hmul
    omega

/-- The byte loop: the first `bits` bits are zero. -/
theorem powBits_iff {bits : Nat} {l : List UInt8} (h : bits ≤ 8 * l.length) :
    powBits bits l = true ↔ bigEndian l < 2 ^ (8 * l.length - bits) := by
  induction l generalizing bits with
  | nil => exact iff_of_true rfl (Nat.two_pow_pos _)
  | cons b l ih =>
    have hbytes : ∀ n, 256 ^ n = 2 ^ (8 * n) := fun n => by rw [Nat.pow_mul]
    rw [List.length_cons] at h ⊢
    unfold powBits
    split_ifs with h0 h8 hb
    · -- no bits are asked for
      have hlt := bigEndian_lt (b :: l)
      rw [hbytes, List.length_cons] at hlt
      rw [h0]
      exact iff_of_true rfl hlt
    · -- a whole byte is not zero
      refine iff_of_false not_false (Nat.not_lt.mpr ?_)
      have hpos : 1 ≤ b.toNat := by
        rw [Nat.one_le_iff_ne_zero]
        exact fun e => hb (UInt8.toNat_inj.mp e)
      calc 2 ^ (8 * (l.length + 1) - bits) ≤ 2 ^ (8 * l.length) :=
            Nat.pow_le_pow_right (by decide) (by omega)
        _ = 1 * 256 ^ l.length := by rw [hbytes, Nat.one_mul]
        _ ≤ b.toNat * 256 ^ l.length := Nat.mul_le_mul_right _ hpos
        _ ≤ bigEndian (b :: l) := Nat.le_add_right _ _
    · -- a whole byte is zero
      have hzero : b.toNat = 0 := by
        rw [not_not.mp hb]
        rfl
      have hexp : 8 * (l.length + 1) - bits = 8 * l.length - (bits - 8) := by omega
      rw [ih (by omega), bigEndian, hzero, Nat.zero_mul, Nat.zero_add, hexp]
    · -- the rest of the bits are in this byte
      have hexp : 8 * (l.length + 1) - bits = (8 - bits) + 8 * l.length := by omega
      rw [hexp, Nat.pow_add, ← hbytes, bigEndian_cons_lt, beq_iff_eq, Nat.shiftRight_eq_div_pow,
        Nat.div_eq_zero_iff]
      exact or_iff_right (Nat.two_pow_pos _).ne'

/-! ## The nonce -/

/-- The text that is hashed. -/
def powInput (id : String) (window : Nat) (rest : String) : String :=
  id ++ ":" ++ toString window ++ ":" ++ rest

/-- The nonce names a current window, and the digest has its leading zeros. -/
def PowPaid (C : Crates) (now : Nat) (id nonce : String) : Prop :=
  ∃ t r w, splitOnce ':' nonce = some (t, r) ∧ parseU64 t.toList = some w ∧
    (w = now / 1000 / 600 ∨ w = now / 1000 / 600 - 1) ∧
    bigEndian (C.sha256 (powInput id w r)) < 2 ^ (256 - powLeadingZeroBits)

theorem verifyPow_iff {C : Crates} (hC : ∀ s, (C.sha256 s).length = 32) (now : Nat)
    (id nonce : String) : verifyPow C now id nonce = true ↔ PowPaid C now id nonce := by
  have hbits : ∀ s, powHashOk (C.sha256 s) = true ↔
      bigEndian (C.sha256 s) < 2 ^ (256 - powLeadingZeroBits) := by
    intro s
    have hlen : powLeadingZeroBits ≤ 8 * (C.sha256 s).length := by
      rw [hC]
      decide
    rw [powHashOk, powBits_iff hlen, hC]
  unfold verifyPow PowPaid
  cases hsplit : splitOnce ':' nonce with
  | none => simp
  | some p =>
    obtain ⟨t, r⟩ := p
    dsimp only
    cases hparse : parseU64 t.toList with
    | none => simp [hparse]
    | some w =>
      dsimp only
      split_ifs with hwin
      · refine iff_of_false not_false ?_
        rintro ⟨t', r', w', hs, hp, hw, -⟩
        cases hs
        rw [hparse] at hp
        cases hp
        exact hw.elim hwin.1 hwin.2
      · rw [hbits]
        constructor
        · intro h
          refine ⟨t, r, w, rfl, hparse, ?_, h⟩
          by_contra hne
          exact hwin (not_or.mp hne)
        · rintro ⟨t', r', w', hs, hp, -, h⟩
          cases hs
          rw [hparse] at hp
          cases hp
          exact h

theorem colon_not_mem_toString (n : Nat) : ':' ∉ (toString n).toList := by
  intro h
  rw [Nat.toString_eq_repr, Nat.toList_repr] at h
  have hdigit := Nat.isDigit_of_mem_toDigits (b := 10) (by decide) (by decide) h
  exact absurd hdigit (by decide)

/-- The text determines what it was made from. -/
theorem powInput_inj {id id' : String} (hid : ':' ∉ id.toList) (hid' : ':' ∉ id'.toList)
    {w w' : Nat} {r r' : String} (h : powInput id w r = powInput id' w' r') :
    id = id' ∧ w = w' ∧ r = r' := by
  have hassoc : ∀ (i : String) (n : Nat) (s : String), powInput i n s =
      i ++ String.singleton ':' ++ (toString n ++ String.singleton ':' ++ s) := by
    intro i n s
    simp only [powInput, String.append_assoc]
    rfl
  rw [hassoc, hassoc] at h
  obtain ⟨hids, hrest⟩ := key_inj hid hid' h
  obtain ⟨hws, hrs⟩ := key_inj (colon_not_mem_toString w) (colon_not_mem_toString w') hrest
  exact ⟨hids, Nat.repr_injective hws, hrs⟩

/-- An id that a handler demands work for. -/
def PowId (id : String) : Prop := validRecipientId id = true ∨ validBundleId id = true

theorem colon_not_mem_of_powId {id : String} (h : PowId id) : ':' ∉ id.toList := by
  have hfree : Free ':' ';' id.toList := h.elim free_of_validRecipientId free_of_validBundleId
  exact fun hmem => (hfree ':' hmem).1 rfl

/-- The check is exact, and work is bound to one id and one window. -/
theorem pow_exact (C : Crates) (hC : ∀ s, (C.sha256 s).length = 32) (now : Nat)
    (id nonce : String) :
    (verifyPow C now id nonce = true ↔ PowPaid C now id nonce) ∧
      ∀ a b w w' r r', PowId a → PowId b → powInput a w r = powInput b w' r' →
        a = b ∧ w = w' ∧ r = r' := by
  refine ⟨verifyPow_iff hC now id nonce, fun a b w w' r r' ha hb h => ?_⟩
  exact powInput_inj (colon_not_mem_of_powId ha) (colon_not_mem_of_powId hb) h

/-- A digest of zeros pays for any nonce of the current window. -/
theorem pow_exact_sample :
    let C : Crates := ⟨fun _ => List.replicate 32 0, fun _ => "", fun _ => none, fun _ => ""⟩
    (verifyPow C 1200000 "bundle-0123456789" "2:x" = true ↔
        PowPaid C 1200000 "bundle-0123456789" "2:x") ∧
      ∀ a b w w' r r', PowId a → PowId b → powInput a w r = powInput b w' r' →
        a = b ∧ w = w' ∧ r = r' :=
  pow_exact ⟨fun _ => List.replicate 32 0, fun _ => "", fun _ => none, fun _ => ""⟩
    (fun _ => rfl) 1200000 "bundle-0123456789" "2:x"

end AxenoRelay
