/-
  The settings that a `.env` file reaches the relay with.

  The setup script writes one `NAME=value` line for each setting. Such a file is read back
  line by line (`settings_setupFile`), so the start finds every variable that was not set
  before with the value that was written, the limits of `FileConfig::from_env` are the ones
  written in decimal, and the secret for the keys is the one in the file.
-/
import AxenoRelay.Startup.Dotenv

namespace AxenoRelay

/-! ## The file of the setup script -/

def settingLine (x : String × String) : List Char := x.1.toList ++ '=' :: x.2.toList

/-- One line for each setting, as `echo` writes it. -/
def setupFile (l : List (String × String)) : String :=
  String.ofList ((l.map settingLine).flatMap fun a => a ++ [newline])

/-- A name of letters, digits, `-` and `_`, and a value that can stand on a line as it is. -/
structure PlainSetting (x : String × String) : Prop where
  nonempty : x.1 ≠ ""
  name : x.1.toList.all idChar = true
  bare : Lines.Bare isWhitespace x.2.toList
  line : newline ∉ x.2.toList
  text : nul ∉ x.2.toList
  unquoted : ¬(2 ≤ len x.2 ∧ (Enclosed doubleQuote x.2 ∨ Enclosed singleQuote x.2))

theorem idChar_plain {c : Char} (h : idChar c = true) :
    isWhitespace c = false ∧ c ≠ '=' ∧ c ≠ '#' ∧ c ≠ ' ' ∧ c ≠ newline ∧ c ≠ nul := by
  have hwhite : ∀ d, isWhitespace d = true → idChar d = false := by
    intro d hd
    have hmem := List.elem_iff.mp hd
    have hval : ∀ n ∈ [0x9, 0xA, 0xB, 0xC, 0xD, 0x20, 0x85, 0xA0, 0x1680, 0x2000, 0x2001,
        0x2002, 0x2003, 0x2004, 0x2005, 0x2006, 0x2007, 0x2008, 0x2009, 0x200A, 0x2028, 0x2029,
        0x202F, 0x205F, 0x3000], idChar (Char.ofNat n) = false := by decide
    have := hval _ hmem
    rwa [Char.ofNat_toNat] at this
  refine ⟨?_, ?_, ?_, ?_, ?_, ?_⟩
  · by_contra hc
    rw [hwhite c (eq_true_of_ne_false hc)] at h
    cases h
  all_goals
    rintro rfl
    exact absurd h (by decide)

theorem PlainSetting.names {x : String × String} (hx : PlainSetting x) :
    (⟨false, [], [], [], [], [], by simp [Lines.Margin]⟩ : Layout).Names x.1 := by
  have hchar := fun c hc => idChar_plain (List.all_eq_true.mp hx.name c hc)
  refine ⟨hx.nonempty, ⟨fun c hc => ?_, fun c hc => ?_⟩, fun h => (hchar _ h).2.1 rfl,
    fun _ => ⟨fun h => ?_, fun h => ?_⟩⟩
  · exact (hchar c (List.mem_of_mem_head? hc)).1
  · exact (hchar c (List.mem_of_mem_getLast? hc)).1
  · exact (hchar _ (List.mem_of_mem_head? h)).2.2.1 rfl
  · rw [List.append_nil] at h
    exact (hchar ' ' (h.subset (by decide))).2.2.2.1 rfl

theorem PlainSetting.dotenvLine {x : String × String} (hx : PlainSetting x) :
    dotenvLine (String.ofList (settingLine x)) = some x :=
  dotenvLine_write hx.names (Spells.bare hx.bare hx.unquoted) (by
    rw [String.toList_ofList]
    simp [settingLine, Layout.write, Layout.word])

theorem PlainSetting.one_line {x : String × String} (hx : PlainSetting x) :
    newline ∉ settingLine x ∧ carriageReturn ∉ (settingLine x).getLast? := by
  have hchar := fun c hc => idChar_plain (List.all_eq_true.mp hx.name c hc)
  refine ⟨fun h => ?_, fun h => ?_⟩
  · rcases List.mem_append.mp h with h | h
    · exact (hchar _ h).2.2.2.2.1 rfl
    · rcases List.mem_cons.mp h with h | h
      · exact absurd h (by decide)
      · exact hx.line h
  · have hne : '=' :: x.2.toList ≠ [] := List.cons_ne_nil _ _
    rw [settingLine, List.getLast?_append_of_ne_nil _ hne] at h
    by_cases hnil : x.2.toList = []
    · rw [hnil] at h
      have heq : some '=' = some (carriageReturn) := h
      exact absurd heq (by decide)
    · rw [List.getLast?_cons_of_ne_nil hnil] at h
      exact absurd (hx.bare.2 _ h) (by decide)

/-- The settings of a file of the setup script are those that it was written for. -/
theorem settings_setupFile {l : List (String × String)} (hl : ∀ x ∈ l, PlainSetting x) :
    settings (setupFile l) = l := by
  have hlines : lines (setupFile l) = (l.map settingLine).map String.ofList := by
    unfold lines setupFile
    rw [String.toList_ofList, Lines.lines_unlines]
    intro a ha
    obtain ⟨x, hx, rfl⟩ := List.mem_map.mp ha
    exact (hl x hx).one_line
  rw [settings, hlines]
  clear hlines
  induction l with
  | nil => rfl
  | cons x l ih =>
    rw [List.map_cons, List.map_cons, List.filterMap_cons_some (hl x List.mem_cons_self).dotenvLine,
      ih fun y hy => hl y (List.mem_cons_of_mem _ hy)]

theorem setupFile_loads {l : List (String × String)} (hl : ∀ x ∈ l, PlainSetting x) (env : Environ) :
    ∃ env', loadDotenv (some (setupFile l)) env = some env' ∧
      ∀ key, env'.varOs key = (env.varOs key).or ((l.lookup key).map some) := by
  have hfile : loadDotenv (some (setupFile l)) env = l.foldlM setIfUnset env := by
    unfold loadDotenv
    dsimp only
    rw [dotenvLoop_eq]
    exact congrArg (List.foldlM setIfUnset env) (settings_setupFile hl)
  have hnamed : ∀ x ∈ l, Nameable x := fun x hx => ⟨(hl x hx).names.nonempty, (hl x hx).names.free⟩
  cases h : l.foldlM setIfUnset env with
  | none =>
    obtain ⟨key, value, -, hlook, hnul⟩ := (foldlM_setIfUnset_none hnamed env).mp h
    have hmem : (key, value) ∈ l := by
      obtain ⟨l₁, l₂, rfl, -⟩ := List.lookup_eq_some_iff.mp hlook
      exact List.mem_append_right _ List.mem_cons_self
    have hx := hl _ hmem
    rcases hnul with hkey | hvalue
    · exact absurd rfl (idChar_plain (List.all_eq_true.mp hx.name _ hkey)).2.2.2.2.2
    · exact absurd hvalue hx.text
  | some env' => exact ⟨env', hfile.trans h, foldlM_setIfUnset_some h⟩

/-! ## What the start reads -/

/-- The variables of `relay_encryption_key`, in an environment. -/
def Environ.secrets (env : Environ) (readToString : String → Option String) : SecretEnv where
  axenoKey := env.var "AXENO_KEY"
  axenoKeyFile := env.var "AXENO_KEY_FILE"
  readToString := readToString

/-- Limits that an operator can ask for: a limit of zero is not one. -/
structure Limits where
  maxFileMib : Nat
  maxTotalFileMib : Nat
  fileTtlHours : Nat
  maxFileTransfers : Nat
  fit : ∀ n ∈ [maxFileMib, maxTotalFileMib, fileTtlHours, maxFileTransfers], 0 < n ∧ n < 2 ^ 64

namespace Limits

/-- The limits as settings, in decimal. -/
def settings (L : Limits) : List (String × String) :=
  [("AXENO_MAX_FILE_MIB", toString L.maxFileMib),
    ("AXENO_MAX_TOTAL_FILE_MIB", toString L.maxTotalFileMib),
    ("AXENO_FILE_TTL_HOURS", toString L.fileTtlHours),
    ("AXENO_MAX_FILE_TRANSFERS", toString L.maxFileTransfers)]

/-- The configuration that was asked for, as far as it can be had. -/
def config (L : Limits) : FileConfig :=
  let maxFileBytes := min (L.maxFileMib * (1024 * 1024)) (2 ^ 64 - 1)
  { maxFileBytes
    maxTotalFileBytes := max (min (L.maxTotalFileMib * (1024 * 1024)) (2 ^ 64 - 1)) maxFileBytes
    fileTtlMs := min (L.fileTtlHours * (60 * 60 * 1000)) (2 ^ 64 - 1)
    maxTransfers := L.maxFileTransfers
    maxChunks := max 1 (min ((maxFileBytes + minFileChunkBytes - 1) / minFileChunkBytes)
      (2 ^ 32 - 1)) }

end Limits

theorem isDigit_plain {c : Char} (h : c.isDigit = true) : isWhitespace c = false ∧ c ≠ '+' := by
  refine ⟨(idChar_plain ?_).1, ?_⟩
  · unfold idChar
    have hrange : '0' ≤ c ∧ c ≤ '9' := Char.isDigit_iff_toNat.mp h
    simp [hrange]
  · rintro rfl
    exact absurd h (by decide)

theorem parseU64_toString {n : Nat} (hn : n < 2 ^ 64) : parseU64 (toString n).toList = some n := by
  have hdigits : (toString n).toList = Nat.toDigits 10 n := Nat.toList_repr
  have hall : ∀ c ∈ Nat.toDigits 10 n, c.isDigit = true :=
    fun c hc => Nat.isDigit_of_mem_toDigits (by decide) (by decide) hc
  have hfold : (Nat.toDigits 10 n).foldl (fun n c => 10 * n + (c.toNat - '0'.toNat)) 0 = n := by
    rw [← Nat.ofDigitChars_eq_foldl, Nat.ofDigitChars_ten_toDigits]
  rw [hdigits]
  unfold parseU64
  dsimp only
  split
  · rename_i r heq
    exact absurd rfl (isDigit_plain (hall '+' (heq ▸ List.mem_cons_self))).2
  · have hsome : ¬((Nat.toDigits 10 n).isEmpty || !(Nat.toDigits 10 n).all Char.isDigit) = true := by
      rw [List.all_eq_true.mpr hall]
      simp [Nat.toDigits_ne_nil]
    rw [if_neg hsome, hfold, if_pos hn]

theorem trim_toString (n : Nat) : trim (toString n) = toString n := by
  have hdigits : (toString n).toList = Nat.toDigits 10 n := Nat.toList_repr
  have hwhite : ∀ c ∈ (toString n).toList, isWhitespace c = false := by
    intro c hc
    rw [hdigits] at hc
    exact (isDigit_plain (Nat.isDigit_of_mem_toDigits (by decide) (by decide) hc)).1
  rw [trim_eq_iff, Lines.strip_eq_iff]
  exact ⟨⟨fun c hc => hwhite c (List.mem_of_mem_head? hc),
    fun c hc => hwhite c (List.mem_of_mem_getLast? hc)⟩, [], [], fun c hc => absurd hc
    List.not_mem_nil, fun c hc => absurd hc List.not_mem_nil, by simp⟩

/-- A positive number in decimal is read back. -/
theorem envU64_toString {env : String → Option String} {key : String} {n : Nat} (default : Nat)
    (hkey : env key = some (toString n)) (hn : 0 < n ∧ n < 2 ^ 64) : envU64 env key default = n := by
  unfold envU64
  rw [hkey]
  dsimp only
  rw [trim_toString, parseU64_toString hn.2, Option.filter_some, if_pos (decide_eq_true hn.1)]
  rfl

theorem Limits.config_eq {L : Limits} {env : String → Option String}
    (h : ∀ x ∈ L.settings, env x.1 = some x.2) : FileConfig.fromEnv env = L.config := by
  have hfit := L.fit
  simp only [Limits.settings, List.forall_mem_cons] at h hfit
  obtain ⟨h1, h2, h3, h4, -⟩ := h
  obtain ⟨f1, f2, f3, f4, -⟩ := hfit
  unfold FileConfig.fromEnv Limits.config saturatingMul
  rw [envU64_toString _ h1 f1, envU64_toString _ h2 f2, envU64_toString _ h3 f3,
    envU64_toString _ h4 f4]

theorem lookupKey_of_var {env : Environ} {k : String} (hk : k ≠ "")
    (h : env.var "AXENO_KEY" = some k) (readToString : String → Option String)
    (keyFile : Option String) : lookupKey (env.secrets readToString) keyFile = .found k := by
  have hconf : configuredKey (env.secrets readToString) = .found k := by
    unfold configuredKey Environ.secrets
    dsimp only
    rw [h]
    exact if_neg hk
  unfold lookupKey
  rw [hconf]

/-- An environment in which nothing is set. -/
def bareEnviron : Environ := ⟨fun _ => none, fun _ h => absurd rfl h, fun _ _ h => by cases h⟩

/-- Limits in another order than the relay reads them, and a secret. -/
def sampleSettings : List (String × String) :=
  [("AXENO_MAX_FILE_TRANSFERS", "7"), ("AXENO_FILE_TTL_HOURS", "48"), ("AXENO_KEY", "a secret"),
    ("AXENO_MAX_TOTAL_FILE_MIB", "1"), ("AXENO_MAX_FILE_MIB", "2")]

end AxenoRelay
