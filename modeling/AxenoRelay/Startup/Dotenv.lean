/-
  `load_dotenv`: the settings of a `.env` file go into the environment before the start.

  A file is a text, if it can be read as one. The environment has for every variable that is
  set the value, which need not be a text. No name or value that the system can hold has a NUL
  in it, and `set_var` panics on one that does, which here ends the load with `none`.

  `dotenvLine_iff` says which lines set something, `load_dotenv_exact` what a file does to an
  environment: what is set stays, and of two lines for one name the first one counts.
-/
import AxenoRelay.Lib.Lines
import AxenoRelay.FileStore.Upload
import AxenoRelay.Startup.Basic

namespace AxenoRelay

/-! ## The environment -/

def nul : Char := Char.ofNat 0

/-- The process environment. A value that is no text is `some none`. -/
structure Environ where
  varOs : String → Option (Option String)
  names : ∀ key, varOs key ≠ none → nul ∉ key.toList
  values : ∀ key value, varOs key = some (some value) → nul ∉ value.toList

/-- `std::env::var`. -/
def Environ.var (env : Environ) (key : String) : Option String := (env.varOs key).join

/-- `std::env::set_var` accepts the pair. -/
def Settable (key value : String) : Prop :=
  key ≠ "" ∧ '=' ∉ key.toList ∧ nul ∉ key.toList ∧ nul ∉ value.toList

instance (key value : String) : Decidable (Settable key value) :=
  inferInstanceAs (Decidable (_ ∧ _))

/-- `std::env::set_var` of a pair that it accepts. -/
def Environ.set (env : Environ) (key value : String) (h : Settable key value) : Environ where
  varOs := fun k => if k = key then some (some value) else env.varOs k
  names := fun k hk => by
    split_ifs at hk with heq
    · exact heq ▸ h.2.2.1
    · exact env.names k hk
  values := fun k v hv => by
    split_ifs at hv with heq
    · cases hv
      exact h.2.2.2
    · exact env.values k v hv

/-! ## The file -/

def newline : Char := Char.ofNat 10
def carriageReturn : Char := Char.ofNat 13
def doubleQuote : Char := Char.ofNat 34
def singleQuote : Char := Char.ofNat 39

/-- `str::lines`. -/
def lines (s : String) : List String :=
  (Lines.lines newline carriageReturn s.toList).map String.ofList

/-- The value begins and ends with `q`. -/
def Enclosed (q : Char) (value : String) : Prop :=
  value.toList.head? = some q ∧ value.toList.getLast? = some q

instance (q : Char) (value : String) : Decidable (Enclosed q value) :=
  inferInstanceAs (Decidable (_ ∧ _))

/-- The value without matching quotes around it. -/
def unquote (value : String) : String :=
  if 2 ≤ len value ∧ (Enclosed doubleQuote value ∨ Enclosed singleQuote value) then
    String.ofList value.toList.tail.dropLast
  else value

/-- `strip_prefix`, or else the text as it is. -/
def stripPrefix (p : String) (s : String) : String :=
  if p.toList.isPrefixOf s.toList then String.ofList (s.toList.drop p.toList.length) else s

/-- The loop body of `load_dotenv` up to the variable that it would set. -/
def dotenvLine (line : String) : Option (String × String) :=
  let line := trim line
  if line = "" ∨ line.toList.head? = some '#' then none
  else
    match SepKey.splitOnce '=' (stripPrefix "export " line) with
    | none => none
    | some (key, value) => if trim key = "" then none else some (trim key, unquote (trim value))

/-- The rest of the loop body. -/
def setIfUnset (env : Environ) (x : String × String) : Option Environ :=
  match env.varOs x.1 with
  | some _ => some env
  | none => if h : Settable x.1 x.2 then some (env.set x.1 x.2 h) else none

/-- The loop of `load_dotenv`. -/
def dotenvLoop : List String → Environ → Option Environ
  | [], env => some env
  | line :: ls, env =>
    match dotenvLine line with
    | none => dotenvLoop ls env
    | some x => (setIfUnset env x).bind (dotenvLoop ls)

/-- `load_dotenv` on the contents of `.env`, if there is such a file and it is a text. -/
def loadDotenv (file : Option String) (env : Environ) : Option Environ :=
  match file with
  | none => some env
  | some contents => dotenvLoop (lines contents) env

/-! ## What a line sets -/

theorem trim_toList (s : String) : (trim s).toList = Lines.strip isWhitespace s.toList := by
  unfold trim
  rw [String.toList_ofList]
  rfl

theorem trim_eq_iff (s t : String) : trim s = t ↔ Lines.strip isWhitespace s.toList = t.toList := by
  rw [← String.toList_inj, trim_toList]

/-- A way to write `value`: as it is, if nothing at its ends would be taken off, or in quotes. -/
inductive Spells (value : String) : String → Prop
  | bare : Lines.Bare isWhitespace value.toList →
      ¬(2 ≤ len value ∧ (Enclosed doubleQuote value ∨ Enclosed singleQuote value)) →
      Spells value value
  | quoted (q : Char) : q = doubleQuote ∨ q = singleQuote →
      Spells value (String.ofList (q :: (value.toList ++ [q])))

theorem length_le_len (s : String) : s.toList.length ≤ len s := by
  induction h : s.toList generalizing s with
  | nil => exact Nat.zero_le _
  | cons c l ih =>
    have hs : s = String.singleton c ++ String.ofList l := by
      rw [← String.toList_inj, h]
      simp
    have htail := ih (String.ofList l) String.toList_ofList
    have hpos := Char.utf8Size_pos c
    rw [hs, len, String.utf8ByteSize_append, String.utf8ByteSize_singleton, List.length_cons]
    unfold len at htail
    omega

theorem quote_not_whitespace {q : Char} (hq : q = doubleQuote ∨ q = singleQuote) :
    isWhitespace q = false := by
  rcases hq with rfl | rfl <;> decide

theorem len_quote {q : Char} (hq : q = doubleQuote ∨ q = singleQuote) :
    len (String.ofList [q]) = 1 := by
  rcases hq with rfl | rfl <;> decide

/-- A text that begins and ends with `q` and is longer than that has a value in between. -/
theorem enclosed_eq {q : Char} {text : String} (hq : q = doubleQuote ∨ q = singleQuote)
    (hlen : 2 ≤ len text) (h : Enclosed q text) :
    text = String.ofList (q :: (text.toList.tail.dropLast ++ [q])) := by
  rw [← String.toList_inj, String.toList_ofList]
  obtain ⟨hhead, hlast⟩ := h
  cases htext : text.toList with
  | nil =>
    rw [htext] at hhead
    cases hhead
  | cons c l =>
    rw [htext] at hhead hlast
    cases hhead
    cases l with
    | nil =>
      have hone : text = String.ofList [q] := by rw [← String.toList_inj, htext, String.toList_ofList]
      rw [hone, len_quote hq] at hlen
      omega
    | cons d l =>
      have hlast' : (d :: l).getLast? = some q := by simpa using hlast
      rw [List.tail_cons, List.dropLast_append_getLast? q hlast']

theorem Spells.ends_bare {value text : String} (h : Spells value text) :
    Lines.Bare isWhitespace text.toList := by
  cases h with
  | bare hb _ => exact hb
  | quoted q hq =>
    rw [String.toList_ofList]
    refine ⟨fun c hc => ?_, fun c hc => ?_⟩
    · cases hc
      exact quote_not_whitespace hq
    · rw [← List.cons_append, List.getLast?_concat] at hc
      cases hc
      exact quote_not_whitespace hq

theorem unquote_quoted {q : Char} (hq : q = doubleQuote ∨ q = singleQuote) (value : String) :
    unquote (String.ofList (q :: (value.toList ++ [q]))) = value := by
  have hlen : 2 ≤ len (String.ofList (q :: (value.toList ++ [q]))) := by
    have h := length_le_len (String.ofList (q :: (value.toList ++ [q])))
    rw [String.toList_ofList, List.length_cons, List.length_append, List.length_singleton] at h
    omega
  have henc : Enclosed q (String.ofList (q :: (value.toList ++ [q]))) := by
    unfold Enclosed
    rw [String.toList_ofList]
    exact ⟨rfl, by rw [← List.cons_append, List.getLast?_concat]⟩
  have hquoted : ∀ s, Enclosed q s → Enclosed doubleQuote s ∨ Enclosed singleQuote s := by
    intro s hs
    rcases hq with rfl | rfl
    · exact Or.inl hs
    · exact Or.inr hs
  unfold unquote
  rw [if_pos ⟨hlen, hquoted _ henc⟩, String.toList_ofList,
    List.tail_cons, List.dropLast_concat, String.ofList_toList]

theorem unquote_eq_iff {value text : String} (hb : Lines.Bare isWhitespace text.toList) :
    unquote text = value ↔ Spells value text := by
  constructor
  · rintro rfl
    by_cases h : 2 ≤ len text ∧ (Enclosed doubleQuote text ∨ Enclosed singleQuote text)
    · have hval : unquote text = String.ofList text.toList.tail.dropLast := if_pos h
      have hspell : ∀ q, q = doubleQuote ∨ q = singleQuote → Enclosed q text →
          Spells (unquote text) text := by
        intro q hq henc
        have htext := enclosed_eq hq h.1 henc
        have hsp : Spells (unquote text) _ := Spells.quoted q hq
        rw [hval, String.toList_ofList, ← htext, ← hval] at hsp
        exact hsp
      exact h.2.elim (hspell _ (Or.inl rfl)) (hspell _ (Or.inr rfl))
    · have hval : unquote text = text := if_neg h
      rw [hval]
      exact Spells.bare hb h
  · intro hsp
    cases hsp with
    | bare _ hno => exact if_neg hno
    | quoted q hq => exact unquote_quoted hq value

/-- Where the white space of a line stands, and whether the line says `export`. -/
structure Layout where
  exported : Bool
  lead : List Char
  before : List Char
  after : List Char
  gap : List Char
  trail : List Char
  white : ∀ m ∈ [lead, before, after, gap, trail], Lines.Margin isWhitespace m

namespace Layout

def word (L : Layout) : List Char := if L.exported then "export ".toList else []

/-- The line that gives `key` the value spelled `text`. -/
def write (L : Layout) (key text : String) : List Char :=
  L.lead ++ (L.word ++ (L.before ++ (key.toList ++ L.after ++ '=' ::
    (L.gap ++ (text.toList ++ L.trail)))))

/-- `key` is a name that a line with this layout can set. Without `export`, a line must not
    look like a comment or like an export. -/
structure Names (L : Layout) (key : String) : Prop where
  nonempty : key ≠ ""
  bare : Lines.Bare isWhitespace key.toList
  free : '=' ∉ key.toList
  plain : L.exported = false →
    key.toList.head? ≠ some '#' ∧ ¬"export ".toList <+: key.toList ++ L.after

end Layout

theorem prefix_of_prefix_append {α : Type} {p k r : List α} {c : α} (hc : c ∉ p)
    (h : p <+: k ++ c :: r) : p <+: k := by
  have hk : k ++ [c] <+: k ++ c :: r := ⟨r, by simp⟩
  rcases List.prefix_or_prefix_of_prefix h hk with h | h
  · rcases List.prefix_concat_iff.mp h with rfl | h
    · exact absurd (List.mem_append_right _ (List.mem_singleton.mpr rfl)) hc
    · exact h
  · exact absurd (h.subset (List.mem_append_right _ (List.mem_singleton.mpr rfl))) hc

theorem white_ne_eq {m : List Char} (hm : Lines.Margin isWhitespace m) : '=' ∉ m :=
  fun h => absurd (hm _ h) (by decide)

/-- White space before the name is part of the margin of the line, unless there is a word. -/
theorem Layout.head_part (L : Layout) {key : String} (hk : L.Names key) :
    ∃ a b, Lines.Margin isWhitespace a ∧ Lines.Margin isWhitespace b ∧
      (L.exported = false → b = []) ∧ L.lead ++ (L.word ++ L.before) = a ++ (L.word ++ b) ∧
      ∀ c ∈ (L.word ++ (b ++ key.toList)).head?, isWhitespace c = false := by
  have hlead : Lines.Margin isWhitespace L.lead := L.white _ (by simp)
  have hbefore : Lines.Margin isWhitespace L.before := L.white _ (by simp)
  by_cases hexp : L.exported = true
  · refine ⟨L.lead, L.before, hlead, hbefore, fun h => ?_, rfl, fun c hc => ?_⟩
    · rw [hexp] at h
      cases h
    · rw [word, if_pos hexp] at hc
      cases hc
      decide
  · have hword : L.word = [] := if_neg hexp
    refine ⟨L.lead ++ L.before, [], fun c hc => ?_, fun c hc => absurd hc List.not_mem_nil,
      fun _ => rfl, by simp [hword], fun c hc => ?_⟩
    · exact (List.mem_append.mp hc).elim (hlead c) (hbefore c)
    · rw [hword, List.nil_append, List.nil_append] at hc
      exact hk.bare.1 c hc

/-- White space after `=` is part of the margin of the line if the value is empty. -/
theorem Layout.tail_part (L : Layout) {text : String}
    (ht : Lines.Bare isWhitespace text.toList) :
    ∃ g f, Lines.Margin isWhitespace g ∧ Lines.Margin isWhitespace f ∧
      L.gap ++ (text.toList ++ L.trail) = g ++ (text.toList ++ f) ∧
      ∀ c ∈ ('=' :: (g ++ text.toList)).getLast?, isWhitespace c = false := by
  have hgap : Lines.Margin isWhitespace L.gap := L.white _ (by simp)
  have htrail : Lines.Margin isWhitespace L.trail := L.white _ (by simp)
  by_cases hnil : text.toList = []
  · refine ⟨[], L.gap ++ L.trail, fun c hc => absurd hc List.not_mem_nil, fun c hc => ?_, ?_,
      fun c hc => ?_⟩
    · exact (List.mem_append.mp hc).elim (hgap c) (htrail c)
    · simp [hnil]
    · rw [hnil] at hc
      cases hc
      decide
  · refine ⟨L.gap, L.trail, hgap, htrail, rfl, fun c hc => ht.2 c ?_⟩
    rw [← List.cons_append, List.getLast?_append_of_ne_nil _ hnil] at hc
    exact hc

theorem stripPrefix_toList (p s : String) : (stripPrefix p s).toList =
    if p.toList <+: s.toList then s.toList.drop p.toList.length else s.toList := by
  unfold stripPrefix
  by_cases h : p.toList <+: s.toList
  · rw [if_pos (List.isPrefixOf_iff_prefix.mpr h), if_pos h, String.toList_ofList]
  · have hno : ¬p.toList.isPrefixOf s.toList = true := fun hp => h (List.isPrefixOf_iff_prefix.mp hp)
    rw [if_neg hno, if_neg h]

theorem dotenvLine_write {L : Layout} {key value text line : String} (hk : L.Names key)
    (hs : Spells value text) (hline : line.toList = L.write key text) :
    dotenvLine line = some (key, value) := by
  obtain ⟨a, b, ha, hb, hbare, hhead, hfirst⟩ := L.head_part hk
  obtain ⟨g, f, hg, hf, htail, hlast⟩ := L.tail_part hs.ends_bare
  have hafter : Lines.Margin isWhitespace L.after := L.white _ (by simp)
  -- the line without its margin
  let rest := b ++ (key.toList ++ L.after) ++ '=' :: (g ++ text.toList)
  have hcore : line.toList = a ++ (L.word ++ rest) ++ f := by
    have hsplit : L.write key text = L.lead ++ (L.word ++ L.before) ++
        (key.toList ++ L.after ++ '=' :: (L.gap ++ (text.toList ++ L.trail))) := by
      simp [Layout.write]
    rw [hline, hsplit, hhead, htail]
    simp [rest]
  have hends : Lines.Bare isWhitespace (L.word ++ rest) := by
    have hne : key.toList ≠ [] := fun h => hk.nonempty (String.toList_eq_nil_iff.mp h)
    have hparts : L.word ++ rest =
        L.word ++ (b ++ key.toList) ++ (L.after ++ '=' :: (g ++ text.toList)) := by
      simp [rest]
    rw [hparts]
    refine ⟨fun c hc => hfirst c ?_, fun c hc => hlast c ?_⟩
    · rw [List.head?_append_of_ne_nil _ (by simp [hne])] at hc
      exact hc
    · rw [← List.append_assoc, List.getLast?_append_of_ne_nil _ (List.cons_ne_nil _ _)] at hc
      exact hc
  have htrim : (trim line).toList = L.word ++ rest := by
    rw [trim_toList, Lines.strip_eq_iff]
    exact ⟨hends, a, f, ha, hf, hcore⟩
  have hstrip : (stripPrefix "export " (trim line)).toList = rest := by
    rw [stripPrefix_toList, htrim]
    cases hexp : L.exported with
    | true =>
      have hword : L.word = "export ".toList := if_pos hexp
      rw [hword, if_pos (List.prefix_append _ _), List.drop_left]
    | false =>
      have hword : L.word = [] := by
        rw [Layout.word, hexp]
        rfl
      have hno : ¬"export ".toList <+: rest := by
        intro h
        have hpre := prefix_of_prefix_append (by decide) h
        rw [hbare hexp, List.nil_append] at hpre
        exact (hk.plain hexp).2 hpre
      rw [hword, List.nil_append, if_neg hno]
  have hsplit : SepKey.splitOnce '=' (stripPrefix "export " (trim line)) =
      some (String.ofList (b ++ (key.toList ++ L.after)), String.ofList (g ++ text.toList)) := by
    have hfree : '=' ∉ b ++ (key.toList ++ L.after) := by
      intro h
      rcases List.mem_append.mp h with h | h
      · exact white_ne_eq hb h
      · rcases List.mem_append.mp h with h | h
        · exact hk.free h
        · exact white_ne_eq hafter h
    rw [SepKey.splitOnce, hstrip, SepKey.splitList_append hfree, Option.map_some]
  have hkey : trim (String.ofList (b ++ (key.toList ++ L.after))) = key := by
    rw [trim_eq_iff, String.toList_ofList, ← List.append_assoc]
    exact Lines.strip_append hb hafter hk.bare
  have htext : trim (String.ofList (g ++ text.toList)) = text := by
    rw [trim_eq_iff, String.toList_ofList, Lines.strip_eq_iff]
    exact ⟨hs.ends_bare, g, [], hg, fun c hc => absurd hc List.not_mem_nil, by simp⟩
  have hskip : ¬(trim line = "" ∨ (trim line).toList.head? = some '#') := by
    rw [← String.toList_eq_nil_iff, htrim]
    rintro (h | h)
    · simp [rest] at h
    · cases hexp : L.exported with
      | true =>
        rw [Layout.word, hexp] at h
        have he : some 'e' = some '#' := h
        exact absurd he (by decide)
      | false =>
        have hne : key.toList ≠ [] := fun h => hk.nonempty (String.toList_eq_nil_iff.mp h)
        have hword : L.word = [] := by
          rw [Layout.word, hexp]
          rfl
        have hhd : (L.word ++ rest).head? = key.toList.head? := by
          simp only [rest, hword, hbare hexp, List.nil_append, List.append_assoc]
          exact List.head?_append_of_ne_nil _ hne
        exact (hk.plain hexp).1 (hhd ▸ h)
  unfold dotenvLine
  simp only [if_neg hskip, hsplit, hkey, if_neg hk.nonempty, htext]
  rw [(unquote_eq_iff hs.ends_bare).mpr hs]

theorem splitOnce_eq_some {s a x : String} (h : SepKey.splitOnce '=' s = some (a, x)) :
    '=' ∉ a.toList ∧ s.toList = a.toList ++ '=' :: x.toList := by
  obtain ⟨⟨a', x'⟩, hsplit, heq⟩ := Option.map_eq_some_iff.mp h
  cases heq
  rw [String.toList_ofList, String.toList_ofList]
  exact SepKey.splitList_eq_some hsplit

theorem margin_append {a b : List Char} (ha : Lines.Margin isWhitespace a)
    (hb : Lines.Margin isWhitespace b) : Lines.Margin isWhitespace (a ++ b) :=
  fun c hc => (List.mem_append.mp hc).elim (ha c) (hb c)

/-- A bare text does not begin with white space. -/
theorem margin_nil_of_bare {b l : List Char} (hb : Lines.Margin isWhitespace b)
    (h : Lines.Bare isWhitespace (b ++ l)) : b = [] := by
  cases b with
  | nil => rfl
  | cons c b =>
    have hwhite := hb c List.mem_cons_self
    rw [h.1 c rfl] at hwhite
    cases hwhite

theorem exists_layout {line key value : String} (h : dotenvLine line = some (key, value)) :
    ∃ (L : Layout) (text : String), L.Names key ∧ Spells value text ∧
      line.toList = L.write key text := by
  unfold dotenvLine at h
  simp only at h
  split_ifs at h with hskip
  obtain ⟨hne, hhash⟩ := not_or.mp hskip
  cases hsplit : SepKey.splitOnce '=' (stripPrefix "export " (trim line)) with
  | none =>
    rw [hsplit] at h
    cases h
  | some kv =>
    obtain ⟨k₀, v₀⟩ := kv
    rw [hsplit] at h
    dsimp only at h
    split_ifs at h with hempty
    cases h
    obtain ⟨hfree, hbody⟩ := splitOnce_eq_some hsplit
    obtain ⟨hbare, a, f, ha, hf, hline⟩ := Lines.strip_eq_iff.mp (trim_toList line).symm
    obtain ⟨hkey, b, c, hb, hc, hk₀⟩ := Lines.strip_eq_iff.mp (trim_toList k₀).symm
    obtain ⟨htext, d, g, hd, hg, hv₀⟩ := Lines.strip_eq_iff.mp (trim_toList v₀).symm
    rw [stripPrefix_toList] at hbody
    have hspell : Spells (unquote (trim v₀)) (trim v₀) := (unquote_eq_iff htext).mp rfl
    -- the line behind its margin and the word
    obtain ⟨exported, hexported⟩ : ∃ exported : Bool,
        exported = true ↔ "export ".toList <+: (trim line).toList :=
      ⟨decide _, decide_eq_true_iff⟩
    have hword : (trim line).toList =
        (if exported then "export ".toList else []) ++ (k₀.toList ++ '=' :: v₀.toList) := by
      by_cases hpre : "export ".toList <+: (trim line).toList
      · rw [if_pos hpre] at hbody
        rw [if_pos (hexported.mpr hpre), ← hbody]
        obtain ⟨r, hr⟩ := hpre
        rw [← hr, List.drop_left]
      · rw [if_neg hpre] at hbody
        rw [if_neg (mt hexported.mp hpre), ← hbody, List.nil_append]
    have hwhite : ∀ m ∈ [a, b, c, d, g ++ f], Lines.Margin isWhitespace m := by
      simp only [List.forall_mem_cons]
      exact ⟨ha, hb, hc, hd, margin_append hg hf, fun m hm => absurd hm List.not_mem_nil⟩
    refine ⟨⟨exported, a, b, c, d, g ++ f, hwhite⟩, trim v₀, ⟨hempty, hkey, ?_, ?_⟩, hspell, ?_⟩
    · intro hmem
      rw [hk₀] at hfree
      exact hfree (List.mem_append_left _ (List.mem_append_right _ hmem))
    · intro hexp
      have hplain : ¬exported = true := Bool.eq_false_iff.mp hexp
      rw [if_neg hplain, List.nil_append, hk₀] at hword
      have hnil : b = [] := by
        rw [hword, List.append_assoc, List.append_assoc] at hbare
        exact margin_nil_of_bare hb hbare
      rw [hnil, List.nil_append] at hword
      refine ⟨fun hcomment => hhash ?_, fun hpre => hplain (hexported.mpr ?_)⟩
      · have hkne : (trim k₀).toList ≠ [] := fun h => hempty (String.toList_eq_nil_iff.mp h)
        rw [hword, List.append_assoc, List.head?_append_of_ne_nil _ hkne]
        exact hcomment
      · rw [hword]
        exact hpre.trans (List.prefix_append _ _)
    · unfold Layout.write Layout.word
      dsimp only
      rw [hline, hword, hk₀, hv₀]
      simp only [List.append_assoc, List.cons_append]

/-- The lines that set a variable, and what they set it to. -/
theorem dotenvLine_iff (line key value : String) : dotenvLine line = some (key, value) ↔
    ∃ (L : Layout) (text : String), L.Names key ∧ Spells value text ∧
      line.toList = L.write key text :=
  ⟨exists_layout, fun ⟨_, _, hk, hs, hline⟩ => dotenvLine_write hk hs hline⟩

/-! ## What a file does -/

/-- The variables that the lines name, with their values, in order. -/
def settings (contents : String) : List (String × String) :=
  (lines contents).filterMap dotenvLine

theorem dotenvLoop_eq (ls : List String) (env : Environ) :
    dotenvLoop ls env = (ls.filterMap dotenvLine).foldlM setIfUnset env := by
  induction ls generalizing env with
  | nil => rfl
  | cons line ls ih =>
    rw [dotenvLoop]
    cases hline : dotenvLine line with
    | none => rw [List.filterMap_cons_none hline, ih]
    | some x =>
      rw [List.filterMap_cons_some hline, List.foldlM_cons]
      dsimp only
      rw [funext ih]
      rfl

/-- A name as `load_dotenv` gives it to `set_var`. -/
def Nameable (x : String × String) : Prop := x.1 ≠ "" ∧ '=' ∉ x.1.toList

theorem nameable_of_settings {contents : String} {x : String × String}
    (hx : x ∈ settings contents) : Nameable x := by
  obtain ⟨line, -, hline⟩ := List.mem_filterMap.mp hx
  obtain ⟨L, text, hk, -, -⟩ := exists_layout hline
  exact ⟨hk.nonempty, hk.free⟩

theorem Nameable.settable {x : String × String} (hx : Nameable x) :
    Settable x.1 x.2 ↔ ¬(nul ∈ x.1.toList ∨ nul ∈ x.2.toList) := by
  unfold Settable
  rw [not_or]
  exact ⟨fun h => h.2.2, fun h => ⟨hx.1, hx.2, h⟩⟩

/-- Some line sets a variable that is not set yet to a value that `set_var` panics on. -/
def Panics (l : List (String × String)) (env : Environ) : Prop :=
  ∃ key value, env.varOs key = none ∧ l.lookup key = some value ∧
    (nul ∈ key.toList ∨ nul ∈ value.toList)

theorem lookup_cons_ne {l : List (String × String)} {x : String × String} {key : String}
    (h : key ≠ x.1) : (x :: l).lookup key = l.lookup key := by
  rw [List.lookup_cons, beq_false_of_ne h]

/-- A line for a variable that is set does not count. -/
theorem panics_cons_set {l : List (String × String)} {env : Environ} {x : String × String}
    (hx : env.varOs x.1 ≠ none) : Panics (x :: l) env ↔ Panics l env := by
  refine exists_congr fun key => exists_congr fun value => and_congr_right fun hkey => ?_
  have hne : key ≠ x.1 := fun h => hx (h ▸ hkey)
  rw [lookup_cons_ne hne]

/-- A line that is carried out takes the later ones for its variable out of account. -/
theorem panics_set {l : List (String × String)} {env : Environ} {x : String × String}
    (h : Settable x.1 x.2) : Panics l (env.set x.1 x.2 h) ↔ Panics (x :: l) env := by
  refine exists_congr fun key => exists_congr fun value => ?_
  by_cases hkey : key = x.1
  · subst hkey
    rw [List.lookup_cons_self]
    refine iff_of_false (fun hp => ?_) fun hp => ?_
    · have hset : (env.set x.1 x.2 h).varOs x.1 = some (some x.2) := if_pos rfl
      rw [hset] at hp
      cases hp.1
    · cases hp.2.1
      exact hp.2.2.elim h.2.2.1 h.2.2.2
  · have hset : (env.set x.1 x.2 h).varOs key = env.varOs key := if_neg hkey
    rw [hset, lookup_cons_ne hkey]

theorem foldlM_setIfUnset_none {l : List (String × String)} (hl : ∀ x ∈ l, Nameable x) (env : Environ) :
    l.foldlM setIfUnset env = none ↔ Panics l env := by
  induction l generalizing env with
  | nil =>
    refine iff_of_false (fun h => Option.some_ne_none env h) ?_
    rintro ⟨key, value, -, hlook, -⟩
    cases hlook
  | cons x l ih =>
    have ih' := ih fun y hy => hl y (List.mem_cons_of_mem _ hy)
    have hx : Nameable x := hl x List.mem_cons_self
    rw [List.foldlM_cons, setIfUnset]
    cases hvar : env.varOs x.1 with
    | some w =>
      have hset : env.varOs x.1 ≠ none := by simp [hvar]
      rw [panics_cons_set hset]
      exact ih' env
    | none =>
      dsimp only
      split_ifs with h
      · rw [← panics_set h]
        exact ih' (env.set x.1 x.2 h)
      · refine iff_of_true rfl ⟨x.1, x.2, hvar, List.lookup_cons_self, ?_⟩
        exact not_not.mp (mt hx.settable.mpr h)

/-- What is set stays, and otherwise the first line for a variable counts. -/
theorem foldlM_setIfUnset_some {l : List (String × String)} {env env' : Environ}
    (h : l.foldlM setIfUnset env = some env') (key : String) :
    env'.varOs key = (env.varOs key).or ((l.lookup key).map some) := by
  induction l generalizing env with
  | nil =>
    cases h
    simp
  | cons x l ih =>
    rw [List.foldlM_cons, setIfUnset] at h
    cases hvar : env.varOs x.1 with
    | some w =>
      rw [hvar] at h
      rw [ih h]
      by_cases hkey : key = x.1
      · rw [hkey, hvar, Option.some_or, Option.some_or]
      · rw [lookup_cons_ne hkey]
    | none =>
      rw [hvar] at h
      dsimp only at h
      by_cases hs : Settable x.1 x.2
      · rw [dif_pos hs] at h
        rw [ih h]
        by_cases hkey : key = x.1
        · subst hkey
          have hset : (env.set x.1 x.2 hs).varOs x.1 = some (some x.2) := if_pos rfl
          rw [hset, hvar, List.lookup_cons_self]
          rfl
        · have hset : (env.set x.1 x.2 hs).varOs key = env.varOs key := if_neg hkey
          rw [hset, lookup_cons_ne hkey]
      · rw [dif_neg hs] at h
        cases h

/-- What a `.env` file does: it panics just if some first line for a variable that is not set
    has a NUL in it, and otherwise sets these variables and no others. -/
theorem load_dotenv_exact (contents : String) (env : Environ) :
    (loadDotenv (some contents) env = none ↔ Panics (settings contents) env) ∧
      ∀ env', loadDotenv (some contents) env = some env' → ∀ key,
        env'.varOs key = (env.varOs key).or (((settings contents).lookup key).map some) := by
  unfold loadDotenv
  dsimp only
  rw [dotenvLoop_eq]
  exact ⟨foldlM_setIfUnset_none (fun _ hx => nameable_of_settings hx) env,
    fun env' h => foldlM_setIfUnset_some h⟩

end AxenoRelay
