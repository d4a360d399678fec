import FaultTolerance.Proofs.Literal.Decimals
import Mathlib.Data.Bool.AllAny

/-! Floating-point literals. `IsFloating` is their grammar, in decimal and in hexadecimal notation, with
the type suffix apart. A literal of either notation has a mark that no integer has in its radix, so it
is written as a text: without underscores, and in decimal notation without the suffix. In hexadecimal
notation, where the letters of a suffix may be digits, the suffix stays (`ofNumber_floating`). -/
namespace FaultTolerance.Literal
set_option autoImplicit false

/-! ## Grammar -/

inductive Notation where
  | decimal | hexadecimal
  deriving DecidableEq, Repr

def floatSuffixes : List (List Char) := [[], ['f'], ['F'], ['d'], ['D']]

/-- The mark of an exponent, then digits in base ten that may have a sign. -/
inductive IsExponent (marks : List Char) : List Char → Prop
  | of {mark : Char} {digits : List Char} (hmark : mark ∈ marks) (sign : Sign)
      (hdigits : IsRow 10 digits) : IsExponent marks (mark :: (sign.text ++ digits))

/-- Digits with a point among them. On one of its sides there may be none. -/
inductive IsPointed (radix : Nat) : List Char → Prop
  | whole {whole fraction : List Char} (hwhole : IsRow radix whole)
      (hfraction : fraction = [] ∨ IsRow radix fraction) :
      IsPointed radix (whole ++ '.' :: fraction)
  | fraction {fraction : List Char} (hfraction : IsRow radix fraction) :
      IsPointed radix ('.' :: fraction)

/-- `IsFloating n cs suffix`: the text `cs` and `suffix` behind it are a floating-point literal. -/
inductive IsFloating : Notation → List Char → List Char → Prop
  | pointed {cs exponent suffix : List Char} (hcs : IsPointed 10 cs)
      (hexponent : exponent = [] ∨ IsExponent ['e', 'E'] exponent) (hsuffix : suffix ∈ floatSuffixes) :
      IsFloating .decimal (cs ++ exponent) suffix
  | scaled {cs exponent suffix : List Char} (hcs : IsRow 10 cs)
      (hexponent : IsExponent ['e', 'E'] exponent) (hsuffix : suffix ∈ floatSuffixes) :
      IsFloating .decimal (cs ++ exponent) suffix
  /-- Digits alone are no integer by their suffix only. -/
  | typed {cs suffix : List Char} (hcs : IsRow 10 cs) (hsuffix : suffix ∈ floatSuffixes)
      (hne : suffix ≠ []) : IsFloating .decimal cs suffix
  /-- The exponent cannot be left out, which keeps a suffix apart from the digits. -/
  | hexadecimal {x : Char} {cs exponent suffix : List Char} (hx : x = 'x' ∨ x = 'X')
      (hcs : IsRow 16 cs ∨ IsPointed 16 cs) (hexponent : IsExponent ['p', 'P'] exponent)
      (hsuffix : suffix ∈ floatSuffixes) :
      IsFloating .hexadecimal ('0' :: x :: (cs ++ exponent)) suffix

theorem eq_of_mem_floatSuffixes {suffix : List Char} (h : suffix ∈ floatSuffixes) :
    suffix = [] ∨ ∃ c ∈ ['f', 'F', 'd', 'D'], suffix = [c] := by
  simpa [floatSuffixes] using h

/-! ## First and last characters -/

/-- Whether a text begins with a digit or a point. -/
def BeginsPlainly (cs : List Char) : Prop := ∃ c rest, cs = c :: rest ∧ (digitValue c < 16 ∨ c = '.')

/-- Whether a text ends with a decimal digit or a point. -/
def EndsPlainly (cs : List Char) : Prop := ∃ front c, cs = front ++ [c] ∧ (digitValue c < 10 ∨ c = '.')

theorem BeginsPlainly.append {cs : List Char} (h : BeginsPlainly cs) (rest : List Char) :
    BeginsPlainly (cs ++ rest) := by
  obtain ⟨c, more, rfl, hc⟩ := h
  exact ⟨c, more ++ rest, rfl, hc⟩

theorem EndsPlainly.append {cs : List Char} (h : EndsPlainly cs) (front : List Char) :
    EndsPlainly (front ++ cs) := by
  obtain ⟨more, c, rfl, hc⟩ := h
  exact ⟨front ++ more, c, (List.append_assoc ..).symm, hc⟩

theorem EndsPlainly.cons {cs : List Char} (h : EndsPlainly cs) (c : Char) : EndsPlainly (c :: cs) :=
  h.append [c]

theorem IsRow.beginsPlainly {radix : Nat} (hradix : radix ≤ 16) {cs : List Char} (h : IsRow radix cs) :
    BeginsPlainly cs := by
  cases cs with
  | nil => exact absurd rfl h.nonempty
  | cons c rest =>
    have hc : c ≠ '_' := fun he => h.first (congrArg some he)
    have hlt := h.plain c (List.mem_filter.mpr ⟨List.mem_cons_self, decide_eq_true hc⟩)
    exact ⟨c, rest, rfl, .inl (hlt.trans_le hradix)⟩

theorem IsRow.endsPlainly {cs : List Char} (h : IsRow 10 cs) : EndsPlainly cs := by
  have hlast : cs.getLast h.nonempty ≠ '_' :=
    fun he => h.last ((List.getLast?_eq_some_getLast h.nonempty).trans (congrArg some he))
  have hmem : cs.getLast h.nonempty ∈ digitsOf cs :=
    List.mem_filter.mpr ⟨List.getLast_mem h.nonempty, decide_eq_true hlast⟩
  exact ⟨cs.dropLast, cs.getLast h.nonempty, (List.dropLast_concat_getLast h.nonempty).symm,
    .inl (h.plain _ hmem)⟩

theorem IsExponent.endsPlainly {marks cs : List Char} (h : IsExponent marks cs) : EndsPlainly cs := by
  cases h with
  | @of mark digits _ sign hdigits => exact (hdigits.endsPlainly.append sign.text).cons mark

theorem IsPointed.beginsPlainly {radix : Nat} (hradix : radix ≤ 16) {cs : List Char}
    (h : IsPointed radix cs) : BeginsPlainly cs := by
  cases h with
  | @whole whole fraction hwhole _ => exact (hwhole.beginsPlainly hradix).append ('.' :: fraction)
  | @fraction fraction _ => exact ⟨'.', fraction, rfl, .inr rfl⟩

theorem IsPointed.endsPlainly {cs : List Char} (h : IsPointed 10 cs) : EndsPlainly cs := by
  cases h with
  | @whole whole fraction _ hfraction =>
    rcases hfraction with rfl | hfraction
    · exact ⟨whole, '.', rfl, .inr rfl⟩
    · exact (hfraction.endsPlainly.cons '.').append whole
  | fraction hfraction => exact hfraction.endsPlainly.cons '.'

section
variable {n : Notation} {cs suffix : List Char}

theorem IsFloating.beginsPlainly (h : IsFloating n cs suffix) : BeginsPlainly cs := by
  cases h with
  | pointed hcs _ _ => exact (hcs.beginsPlainly (by omega)).append _
  | scaled hcs _ _ => exact (hcs.beginsPlainly (by omega)).append _
  | typed hcs _ _ => exact hcs.beginsPlainly (by omega)
  | hexadecimal _ _ _ _ => exact ⟨'0', _, rfl, .inl (by decide)⟩

theorem IsFloating.endsPlainly (h : IsFloating n cs suffix) : EndsPlainly cs := by
  cases h with
  | @pointed cs exponent _ hcs hexponent _ =>
    rcases hexponent with rfl | hexponent
    · rw [List.append_nil]
      exact hcs.endsPlainly
    · exact hexponent.endsPlainly.append cs
  | @scaled cs _ _ _ hexponent _ => exact hexponent.endsPlainly.append cs
  | typed hcs _ _ => exact hcs.endsPlainly
  | @hexadecimal x cs _ _ _ _ hexponent _ =>
    exact ((hexponent.endsPlainly.append cs).cons x).cons '0'

theorem IsFloating.suffix_mem (h : IsFloating n cs suffix) : suffix ∈ floatSuffixes := by
  cases h <;> assumption

end

/-! ## The characters in between -/

def WrittenWith (radix : Nat) (others cs : List Char) : Prop :=
  ∀ c ∈ cs, digitValue c < radix ∨ c ∈ others

theorem WrittenWith.append {radix : Nat} {others cs ds : List Char} (h : WrittenWith radix others cs)
    (h' : WrittenWith radix others ds) : WrittenWith radix others (cs ++ ds) :=
  fun c hc => (List.mem_append.mp hc).elim (h c) (h' c)

theorem WrittenWith.cons {radix : Nat} {others cs : List Char} {c : Char} (hc : c ∈ others)
    (h : WrittenWith radix others cs) : WrittenWith radix others (c :: cs) :=
  List.forall_mem_cons.mpr ⟨.inr hc, h⟩

/-- The characters of a decimal literal that are no digits. -/
def decimalMarks : List Char := ['_', '.', 'e', 'E', '+', '-', 'f', 'F', 'd', 'D']

theorem IsRow.writtenWith {cs : List Char} (h : IsRow 10 cs) : WrittenWith 10 decimalMarks cs := by
  intro c hc
  by_cases hunderscore : c = '_'
  · rw [hunderscore]
    exact .inr (by decide)
  · exact .inl (h.plain c (List.mem_filter.mpr ⟨hc, decide_eq_true hunderscore⟩))

theorem IsPointed.writtenWith {cs : List Char} (h : IsPointed 10 cs) :
    WrittenWith 10 decimalMarks cs := by
  have hpoint : '.' ∈ decimalMarks := by decide
  cases h with
  | whole hwhole hfraction =>
    rcases hfraction with rfl | hfraction
    · exact hwhole.writtenWith.append (.cons hpoint nofun)
    · exact hwhole.writtenWith.append (.cons hpoint hfraction.writtenWith)
  | fraction hfraction => exact .cons hpoint hfraction.writtenWith

theorem IsExponent.writtenWith {cs : List Char} (h : IsExponent ['e', 'E'] cs) :
    WrittenWith 10 decimalMarks cs := by
  have hmarks : ['e', 'E'] ⊆ decimalMarks := by decide
  cases h with
  | of hmark sign hdigits =>
    have hsign : WrittenWith 10 decimalMarks sign.text := by
      intro c hc
      cases sign <;> simp_all [Sign.text, decimalMarks]
    exact .cons (hmarks hmark) (hsign.append hdigits.writtenWith)

theorem writtenWith_suffix {suffix : List Char} (h : suffix ∈ floatSuffixes) :
    WrittenWith 10 decimalMarks suffix := by
  have hletters : ['f', 'F', 'd', 'D'] ⊆ decimalMarks := by decide
  rcases eq_of_mem_floatSuffixes h with rfl | ⟨c, hc, rfl⟩
  · exact nofun
  · exact .cons (hletters hc) nofun

theorem IsFloating.writtenWith {cs suffix : List Char} (h : IsFloating .decimal cs suffix) :
    WrittenWith 10 decimalMarks (cs ++ suffix) := by
  refine WrittenWith.append ?_ (writtenWith_suffix h.suffix_mem)
  cases h with
  | pointed hcs hexponent _ =>
    rcases hexponent with rfl | hexponent
    · exact hcs.writtenWith.append nofun
    · exact hcs.writtenWith.append hexponent.writtenWith
  | scaled hcs hexponent _ => exact hcs.writtenWith.append hexponent.writtenWith
  | typed hcs _ _ => exact hcs.writtenWith

theorem IsFloating.exists_mark {cs suffix : List Char} (h : IsFloating .decimal cs suffix) :
    ∃ c ∈ cs ++ suffix, c ∈ ['.', 'e', 'E', 'f', 'F', 'd', 'D'] := by
  have hexponents : ['e', 'E'] ⊆ ['.', 'e', 'E', 'f', 'F', 'd', 'D'] := by decide
  cases h with
  | pointed hcs _ _ =>
    refine ⟨'.', ?_, by decide⟩
    cases hcs <;> simp
  | scaled _ hexponent _ =>
    cases hexponent with
    | @of mark _ hmark _ _ => exact ⟨mark, by simp, hexponents hmark⟩
  | typed _ hsuffix hne =>
    have hletters : ['f', 'F', 'd', 'D'] ⊆ ['.', 'e', 'E', 'f', 'F', 'd', 'D'] := by decide
    obtain ⟨c, hc, rfl⟩ := (eq_of_mem_floatSuffixes hsuffix).resolve_left hne
    exact ⟨c, List.mem_append_right _ List.mem_cons_self, hletters hc⟩

/-! ## No integers -/

theorem readDigits?_eq_none {radix : Nat} {cs : List Char} {c : Char} (hc : c ∈ cs)
    (hdigit : digit? radix c = none) (n : Nat) : readDigits? radix n cs = none := by
  induction cs generalizing n with
  | nil => cases hc
  | cons d cs ih =>
    rw [readDigits?]
    rcases List.mem_cons.mp hc with rfl | hc
    · rw [hdigit, Option.bind_none]
    · exact Option.bind_eq_none_iff.mpr fun m _ => ih hc _

theorem natural?_eq_none {radix : Nat} {cs : List Char} {c : Char} (hc : c ∈ cs)
    (hdigit : digit? radix c = none) : natural? radix cs = none := by
  rw [natural?, readDigits?_eq_none hc hdigit, ite_self]

theorem digit?_decimalMark {radix : Nat} (hradix : radix ≤ 10) {c : Char}
    (hc : c ∈ ['.', 'e', 'E', 'f', 'F', 'd', 'D']) : digit? radix c = none := by
  simp only [List.mem_cons, List.not_mem_nil, or_false] at hc
  rcases hc with rfl | rfl | rfl | rfl | rfl | rfl | rfl
  · exact if_neg (lt_irrefl radix)
  all_goals exact if_neg (by simp; omega)

theorem digit?_hexadecimalMark {c : Char} (hc : c ∈ ['p', 'P']) : digit? 16 c = none := by
  have hall : ∀ c ∈ ['p', 'P'], digit? 16 c = none :=
    List.all_iff_forall_prop.mp (by decide)
  exact hall c hc

/-- Only a text with a letter for its radix is read in another one than eight or ten. -/
theorem splitRadix_of_notMem {cs : List Char} (h : ∀ c ∈ ['x', 'X', 'b', 'B'], c ∉ cs) :
    splitRadix cs = (10, cs) ∨ ∃ rest, cs = '0' :: rest ∧ splitRadix cs = (8, rest) := by
  unfold splitRadix
  split
  · exact absurd (by simp) (h 'x' (by decide))
  · exact absurd (by simp) (h 'X' (by decide))
  · exact absurd (by simp) (h 'b' (by decide))
  · exact absurd (by simp) (h 'B' (by decide))
  · exact .inr ⟨_, rfl, rfl⟩
  · exact .inl rfl

section
variable {n : Notation} {cs suffix : List Char}

theorem digitsOf_suffix (h : suffix ∈ floatSuffixes) : digitsOf suffix = suffix := by
  have hall : ∀ suffix ∈ floatSuffixes, digitsOf suffix = suffix := by decide
  exact hall suffix h

/-- In the radix that a literal announces, one of its characters is no digit. -/
theorem IsFloating.splitRadix (h : IsFloating n cs suffix) :
    ∃ radix digits, Literal.splitRadix (digitsOf cs ++ suffix) = (radix, digits) ∧
      (radix = 16 ↔ n = .hexadecimal) ∧ ∃ c ∈ digits, digit? radix c = none := by
  cases n with
  | decimal =>
    have hcleaned : digitsOf cs ++ suffix = digitsOf (cs ++ suffix) := by
      rw [digitsOf_append, digitsOf_suffix h.suffix_mem]
    have hradixLetter : ∀ c ∈ ['x', 'X', 'b', 'B'], c ∉ digitsOf (cs ++ suffix) := by
      intro c hc hmem
      have hwritten := h.writtenWith c (List.mem_filter.mp hmem).1
      have hall : ∀ c ∈ ['x', 'X', 'b', 'B'], ¬(digitValue c < 10 ∨ c ∈ decimalMarks) :=
        List.all_iff_forall_prop.mp (by decide)
      exact hall c hc hwritten
    obtain ⟨c, hc, hmark⟩ := h.exists_mark
    have hkept : c ∈ digitsOf (cs ++ suffix) := by
      have hall : ∀ c ∈ ['.', 'e', 'E', 'f', 'F', 'd', 'D'], c ≠ '_' :=
        List.all_iff_forall_prop.mp (by decide)
      exact List.mem_filter.mpr ⟨hc, decide_eq_true (hall c hmark)⟩
    rw [hcleaned]
    rcases splitRadix_of_notMem hradixLetter with hten | ⟨rest, hcons, height⟩
    · exact ⟨10, _, hten, by decide, c, hkept, digit?_decimalMark (by omega) hmark⟩
    · have hzero : c ≠ '0' := by
        rintro rfl
        exact absurd hmark (by decide)
      rw [hcons, List.mem_cons] at hkept
      exact ⟨8, rest, height, by decide, c, hkept.resolve_left hzero,
        digit?_decimalMark (by omega) hmark⟩
  | hexadecimal =>
    cases h with
    | @hexadecimal x cs exponent _ hx _ hexponent _ =>
      have hdigits : digitsOf ('0' :: x :: (cs ++ exponent)) = '0' :: x :: digitsOf (cs ++ exponent) := by
        rw [digitsOf_cons (by decide), digitsOf_cons (by rcases hx with rfl | rfl <;> decide)]
      refine ⟨16, digitsOf (cs ++ exponent) ++ suffix, ?_, by decide, ?_⟩
      · rw [hdigits]
        rcases hx with rfl | rfl <;> rfl
      · cases hexponent with
        | @of mark digits hmark sign _ =>
          have hne : mark ≠ '_' := by
            rintro rfl
            exact absurd hmark (by decide)
          refine ⟨mark, ?_, digit?_hexadecimalMark hmark⟩
          rw [digitsOf_append, digitsOf_cons hne]
          simp

theorem splitLong_self {front : List Char} {c : Char} (hc : c ∉ ['l', 'L']) :
    splitLong (front ++ [c]) = (front ++ [c], false) := by
  simp only [List.mem_cons, List.not_mem_nil, or_false] at hc
  simp [splitLong, hc]

/-- What is left of a literal without its underscores, by its last character. -/
theorem IsFloating.cases_last (h : IsFloating n cs suffix) :
    (suffix = [] ∧ ∃ front c, digitsOf cs = front ++ [c] ∧ (digitValue c < 10 ∨ c = '.')) ∨
      (digitsOf cs ≠ [] ∧ ∃ c ∈ ['f', 'F', 'd', 'D'], suffix = [c]) := by
  obtain ⟨front, c, rfl, hc⟩ := h.endsPlainly
  have hne : c ≠ '_' := by
    rintro rfl
    rcases hc with hc | hc
    · exact absurd hc (by decide)
    · exact absurd hc (by decide)
  have hdigits : digitsOf (front ++ [c]) = digitsOf front ++ [c] := by
    rw [digitsOf_append, digitsOf_cons hne]
    rfl
  rcases eq_of_mem_floatSuffixes h.suffix_mem with hnil | hletter
  · exact .inl ⟨hnil, digitsOf front, c, hdigits, hc⟩
  · exact .inr ⟨by simp [hdigits], hletter⟩

theorem IsFloating.first (h : IsFloating n cs suffix) :
    ∃ c rest, digitsOf cs = c :: rest ∧ c ≠ '+' ∧ c ≠ '-' := by
  obtain ⟨c, rest, rfl, hc⟩ := h.beginsPlainly
  have hne : ∀ s ∈ ['_', '+', '-'], c ≠ s := by
    have hall : ∀ s ∈ ['_', '+', '-'], ¬(digitValue s < 16 ∨ s = '.') :=
      List.all_iff_forall_prop.mp (by decide)
    rintro s hs rfl
    exact hall c hs hc
  exact ⟨c, digitsOf rest, digitsOf_cons (hne '_' (by decide)) rest, hne '+' (by decide),
    hne '-' (by decide)⟩

theorem not_suffix_of_plain {c : Char} (hc : digitValue c < 10 ∨ c = '.') :
    c ∉ ['l', 'L', 'f', 'F', 'd', 'D'] := by
  intro hsuffix
  have hall : ∀ c ∈ ['l', 'L', 'f', 'F', 'd', 'D'], ¬(digitValue c < 10 ∨ c = '.') :=
    List.all_iff_forall_prop.mp (by decide)
  exact hall c hsuffix hc

theorem IsFloating.splitLong (h : IsFloating n cs suffix) :
    Literal.splitLong (digitsOf cs ++ suffix) = (digitsOf cs ++ suffix, false) := by
  rcases h.cases_last with ⟨rfl, front, c, hdigits, hc⟩ | ⟨_, c, hc, rfl⟩
  · have hlong : ['l', 'L'] ⊆ ['l', 'L', 'f', 'F', 'd', 'D'] := by decide
    rw [List.append_nil, hdigits]
    exact splitLong_self fun hmem => not_suffix_of_plain hc (hlong hmem)
  · have hall : ∀ c ∈ ['f', 'F', 'd', 'D'], c ∉ ['l', 'L'] :=
      List.all_iff_forall_prop.mp (by decide)
    exact splitLong_self (hall c hc)

theorem IsFloating.integer? (h : IsFloating n cs suffix) (negative : Bool) :
    Literal.integer? negative (digitsOf cs ++ suffix) = none := by
  obtain ⟨radix, digits, hradix, -, c, hc, hdigit⟩ := h.splitRadix
  simp only [Literal.integer?, h.splitLong, hradix, natural?_eq_none hc hdigit, Option.bind_none]

/-! ## What is written -/

theorem IsFloating.dropTypeSuffix (h : IsFloating n cs suffix) (front : List Char) :
    Literal.dropTypeSuffix (n = .hexadecimal) (front ++ (digitsOf cs ++ suffix)) =
      front ++ (digitsOf cs ++ if n = .decimal then [] else suffix) := by
  rcases h.cases_last with ⟨rfl, rest, c, hdigits, hc⟩ | ⟨hne, c, hc, rfl⟩
  · have hplain : ∀ hexadecimal, isTypeSuffix hexadecimal c = false := by
      intro hexadecimal
      have hnone := not_suffix_of_plain hc
      simp only [List.mem_cons, List.not_mem_nil, or_false, not_or] at hnone
      simp [isTypeSuffix, hnone]
    rw [ite_self, List.append_nil, hdigits, ← List.append_assoc]
    exact dropTypeSuffix_kept (hplain _) (front ++ rest)
  · rw [← List.append_assoc]
    cases n with
    | decimal =>
      have hall : ∀ c ∈ ['f', 'F', 'd', 'D'], isTypeSuffix false c = true :=
        List.all_iff_forall_prop.mp (by decide)
      rw [if_pos rfl, List.append_nil]
      exact dropTypeSuffix_dropped (hall c hc) (List.append_ne_nil_of_right_ne_nil front hne)
    | hexadecimal =>
      have hall : ∀ c ∈ ['f', 'F', 'd', 'D'], isTypeSuffix true c = false :=
        List.all_iff_forall_prop.mp (by decide)
      rw [if_neg (by decide), ← List.append_assoc]
      exact dropTypeSuffix_kept (hall c hc) (front ++ digitsOf cs)

theorem IsFloating.ofNumber (h : IsFloating n cs suffix) (sign : Sign) :
    Literal.ofNumber (.ofList (sign.text ++ cs ++ suffix)) =
      .ofList (sign.text ++ (digitsOf cs ++ if n = .decimal then [] else suffix)) := by
  have hclean : List.filter (· ≠ '_') (sign.text ++ cs ++ suffix) =
      sign.text ++ (digitsOf cs ++ suffix) := digitsOf_signed (digitsOf_suffix h.suffix_mem) sign cs
  have hsplit : splitSign (sign.text ++ (digitsOf cs ++ suffix)) =
      (decide (sign = .minus), digitsOf cs ++ suffix) := by
    obtain ⟨c, rest, hcons, hplus, hminus⟩ := h.first
    rw [hcons]
    exact splitSign_text sign hplus hminus (rest ++ suffix)
  obtain ⟨radix, digits, hradix, hsixteen, -⟩ := h.splitRadix
  simp only [Literal.ofNumber, String.toList_ofList, hclean, hsplit, h.integer?, hradix, hsixteen,
    h.dropTypeSuffix]

/-- A floating-point literal is no integer, and is written as its text without underscores. In decimal
notation the suffix goes too, in hexadecimal notation it stays. -/
theorem ofNumber_floating (h : IsFloating n cs suffix) (sign : Sign) :
    (∀ negative, Literal.integer? negative (digitsOf cs ++ suffix) = none) ∧
    ofNumber (.ofList (sign.text ++ cs ++ suffix)) =
      .ofList (sign.text ++ (digitsOf cs ++ if n = .decimal then [] else suffix)) ∧
    (ofNumber (.ofList (sign.text ++ cs ++ suffix)) = .ofList (sign.text ++ digitsOf cs) ↔
      n = .decimal ∨ suffix = []) := by
  refine ⟨h.integer?, h.ofNumber sign, ?_⟩
  rw [h.ofNumber sign, String.ofList_inj, List.append_cancel_left_eq,
    List.append_right_eq_self]
  cases n <;> simp

/-- The two literals differ in their notation. The first has a leading zero and would be no octal
number; the last letter of the second would be a digit if an exponent were not in front of it. -/
theorem ofNumber_floating_notations :
    (IsFloating .decimal "00_9.5_0e+1_0".toList ['F'] ∧
      ofNumber "-00_9.5_0e+1_0F" = "-009.50e+10") ∧
    (IsFloating .hexadecimal "0x1_F.8p-1_2".toList ['d'] ∧
      ofNumber "0x1_F.8p-1_2d" = "0x1F.8p-12d" ∧ ofNumber "0x1_F.8p-1_2d" ≠ "0x1F.8p-12") := by
  have hdecimal : IsFloating .decimal "00_9.5_0e+1_0".toList ['F'] := by
    have hwhole : IsRow 10 "00_9".toList := by decide
    have hfraction : IsRow 10 "5_0".toList := by decide
    have hexponent : IsExponent ['e', 'E'] "e+1_0".toList := .of (by decide) .plus (by decide)
    exact .pointed (.whole hwhole (.inr hfraction)) (.inr hexponent) (by decide)
  have hhexadecimal : IsFloating .hexadecimal "0x1_F.8p-1_2".toList ['d'] := by
    have hwhole : IsRow 16 "1_F".toList := by decide
    have hfraction : IsRow 16 "8".toList := by decide
    have hexponent : IsExponent ['p', 'P'] "p-1_2".toList := .of (by decide) .minus (by decide)
    exact .hexadecimal (.inl rfl) (.inr (.whole hwhole (.inr hfraction))) hexponent (by decide)
  have hkept := (ofNumber_floating hhexadecimal .unsigned).2
  refine ⟨⟨hdecimal, (ofNumber_floating hdecimal .minus).2.1⟩, hhexadecimal, hkept.1, ?_⟩
  intro hdropped
  exact absurd (hkept.2.mp hdropped) (by decide)

end

end FaultTolerance.Literal
