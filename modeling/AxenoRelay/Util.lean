/-
  `util.rs`: time, hashing, input validation and proof-of-work.

  `str::len` counts bytes, so it is `String.utf8ByteSize` here. The validators
  test bytes; every byte they accept is ASCII, so testing characters accepts the
  same strings. SHA-256 and hex come from crates and are fields of `Crates`.
-/
import AxenoRelay.Lib.SepKey
import AxenoRelay.Config

namespace AxenoRelay

/-- `str::len`. -/
def len (s : String) : Nat := s.utf8ByteSize

/-- `str::as_bytes`. -/
def bytes (s : String) : List UInt8 := s.toByteArray.data.toList

/-- `char::is_whitespace`: the code points with the property White_Space. -/
def isWhitespace (c : Char) : Bool :=
  [0x9, 0xA, 0xB, 0xC, 0xD, 0x20, 0x85, 0xA0, 0x1680, 0x2000, 0x2001, 0x2002, 0x2003, 0x2004,
    0x2005, 0x2006, 0x2007, 0x2008, 0x2009, 0x200A, 0x2028, 0x2029, 0x202F, 0x205F,
    0x3000].contains c.toNat

/-- `str::trim`. -/
def trim (s : String) : String :=
  String.ofList ((s.toList.dropWhile isWhitespace).reverse.dropWhile isWhitespace).reverse

/-- Functions of the crates the relay links: `sha2`, `hex` and `base64`. -/
structure Crates where
  sha256 : String → List UInt8
  hexEncode : List UInt8 → String
  decodeB64 : String → Option (List UInt8)
  encodeB64 : List UInt8 → String

/-- `now_activity_ms` at clock `now`. -/
def nowActivityMs (now : Nat) : Nat := now - now % mailboxActivityGranularityMs

def tokenHash (C : Crates) (token : String) : String := C.hexEncode (C.sha256 token)

/-- The byte-wise comparison of `ct_eq`, over strings of equal length. -/
def ctFold (a b : List UInt8) : UInt8 := (a.zip b).foldl (fun acc p => acc ||| (p.1 ^^^ p.2)) 0

def ctEq (a b : String) : Bool :=
  if len a ≠ len b then false else ctFold (bytes a) (bytes b) == 0

/-- `atomic_sub_saturating`: the value the counter gets. -/
def atomicSubSaturating (counter val : Nat) : Nat := counter - val

/-- `is_ascii_alphanumeric`, or `-`, or `_`. -/
def idChar (c : Char) : Bool :=
  ('a' ≤ c && c ≤ 'z') || ('A' ≤ c && c ≤ 'Z') || ('0' ≤ c && c ≤ '9') || c == '-' || c == '_'

def validRecipientId (id : String) : Bool :=
  "mbx_".toList.isPrefixOf id.toList && (36 ≤ len id && len id ≤ 128) && id.toList.all idChar

def validBundleId (id : String) : Bool := (16 ≤ len id && len id ≤ 128) && id.toList.all idChar

def validToken (token : String) : Bool :=
  (16 ≤ len token && len token ≤ 128) && token.toList.all idChar

/-- The byte loop of `pow_hash_ok`, with `bits` leading zero bits still to see. -/
def powBits : Nat → List UInt8 → Bool
  | _, [] => true
  | bits, byte :: hash =>
    if bits = 0 then true
    else if 8 ≤ bits then
      if byte ≠ 0 then false else powBits (bits - 8) hash
    else byte.toNat >>> (8 - bits) == 0

def powHashOk (hash : List UInt8) : Bool := powBits powLeadingZeroBits hash

/-- `str::parse::<u64>`: an optional `+`, then digits, below 2^64. -/
def parseU64 (cs : List Char) : Option Nat :=
  let ds := match cs with
    | '+' :: r => r
    | r => r
  if ds.isEmpty || !ds.all Char.isDigit then none
  else
    let n := ds.foldl (fun n c => 10 * n + (c.toNat - '0'.toNat)) 0
    if n < 2 ^ 64 then some n else none

/-- `verify_pow` at clock `now` (milliseconds). -/
def verifyPow (C : Crates) (now : Nat) (recipientId nonce : String) : Bool :=
  let currentWindow := now / 1000 / 600
  match SepKey.splitOnce ':' nonce with
  | none => false
  | some (tsStr, noncePart) =>
    match parseU64 tsStr.toList with
    | none => false
    | some tsWindow =>
      if tsWindow ≠ currentWindow ∧ tsWindow ≠ currentWindow - 1 then false
      else
        let input := recipientId ++ ":" ++ toString tsWindow ++ ":" ++ noncePart
        powHashOk (C.sha256 input)

/-! ## Facts the rest of the development uses -/

theorem ctFold_acc (l : List (UInt8 × UInt8)) (acc : UInt8) :
    l.foldl (fun acc p => acc ||| (p.1 ^^^ p.2)) acc = 0 ↔
      acc = 0 ∧ ∀ p ∈ l, p.1 = p.2 := by
  induction l generalizing acc with
  | nil => simp only [List.foldl_nil, List.not_mem_nil, false_imp_iff, implies_true, and_true]
  | cons p l ih =>
    rw [List.foldl_cons, ih, UInt8.or_eq_zero_iff, UInt8.xor_eq_zero_iff, List.forall_mem_cons,
      and_assoc]

theorem zip_all_eq_iff {α : Type} {a b : List α} (hl : a.length = b.length) :
    (∀ p ∈ a.zip b, p.1 = p.2) ↔ a = b := by
  induction a generalizing b with
  | nil => simp [List.length_eq_zero_iff.mp hl.symm]
  | cons x a ih =>
    cases b with
    | nil => simp at hl
    | cons y b =>
      rw [List.zip_cons_cons, List.forall_mem_cons, ih (by simpa using hl), List.cons.injEq]

theorem idChar_ne_sep {c : Char} (h : idChar c = true) : c ≠ ':' ∧ c ≠ ';' := by
  constructor <;> rintro rfl <;> exact absurd h (by decide)

theorem colon_succ : SepKey.Succ ':' ';' := by
  refine ⟨by decide, fun d hd => ?_⟩
  have h1 : ':'.toNat < d.toNat := hd
  have h2 : ';'.toNat ≤ d.toNat := h1
  exact h2

/-- An id over the accepted alphabet has neither the key separator nor its successor. -/
theorem free_of_idChar {id : String} (h : id.toList.all idChar = true) :
    SepKey.Free ':' ';' id.toList :=
  fun c hc => idChar_ne_sep (List.all_eq_true.mp h c hc)

theorem free_of_validRecipientId {id : String} (h : validRecipientId id = true) :
    SepKey.Free ':' ';' id.toList := by
  unfold validRecipientId at h
  exact free_of_idChar (Bool.and_eq_true_iff.mp h).2

theorem free_of_validBundleId {id : String} (h : validBundleId id = true) :
    SepKey.Free ':' ';' id.toList := by
  unfold validBundleId at h
  exact free_of_idChar (Bool.and_eq_true_iff.mp h).2

/-- `ct_eq` is equality. -/
theorem ctEq_iff (a b : String) : ctEq a b = true ↔ a = b := by
  have hbytes : bytes a = bytes b ↔ a = b :=
    ⟨fun h => String.toByteArray_inj.mp (ByteArray.ext (Array.toList_inj.mp h)), fun h => h ▸ rfl⟩
  unfold ctEq
  split_ifs with hl
  · simp only [false_iff]
    exact fun h => hl (h ▸ rfl)
  · have hlen : (bytes a).length = (bytes b).length := not_not.mp hl
    rw [beq_iff_eq, ctFold, ctFold_acc, zip_all_eq_iff hlen, hbytes]
    exact and_iff_right rfl

end AxenoRelay
