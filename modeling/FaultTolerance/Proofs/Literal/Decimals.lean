import FaultTolerance.Proofs.Literal.Integers

/-! Decimal literals of any magnitude, whether or not their type has them. What is written denotes
the number that stands in the source, with its sign, except at one magnitude of each type: that of
its smallest number, which only a minus may reach (`ofNumber_decimal`). -/
namespace FaultTolerance.Literal
set_option autoImplicit false

/-! ## Numerals -/

/-- Whether a text is a decimal numeral, perhaps with a sign, for a number. -/
def Denotes (text : String) (z : Int) : Prop :=
  ∃ (sign : Sign) (cs : List Char), text = .ofList (sign.text ++ cs) ∧ cs ≠ [] ∧ IsPlain 10 cs ∧
    z = sign.applied (rowValue 10 cs : Int)

/-- The numeral that is printed for a number denotes it. -/
theorem denotes_toString (z : Int) : Denotes (toString z) z := by
  have hprinted (n : Nat) : Nat.repr n = .ofList (Nat.toDigits 10 n) := Nat.repr_eq_ofList_toDigits
  cases z with
  | ofNat n =>
    refine ⟨.unsigned, Nat.toDigits 10 n, ?_, Nat.toDigits_ne_nil, isPlain_toDigits n, ?_⟩
    · exact hprinted n
    · rw [rowValue_toDigits]
      rfl
  | negSucc n =>
    refine ⟨.minus, Nat.toDigits 10 (n + 1), ?_, Nat.toDigits_ne_nil, isPlain_toDigits (n + 1), ?_⟩
    · have htext : toString (Int.negSucc n) = "-" ++ Nat.repr (n + 1) := rfl
      rw [htext, hprinted, Sign.text, String.ofList_append]
    · rw [rowValue_toDigits]
      rfl

/-! ## Literals -/

/-- Whether a text is a decimal literal without its sign and its suffix. No octal one is: a zero in
front stands alone. -/
inductive IsDecimal : List Char → Prop
  | row {c : Char} {cs : List Char} (hc : c ≠ '_') (hplain : IsPlain 10 (digitsOf (c :: cs)))
      (hzero : c ≠ '0' ∨ cs = []) : IsDecimal (c :: cs)

theorem IsDecimal.reads {cs : List Char} (h : IsDecimal cs) :
    Reads 10 (rowValue 10 cs) (digitsOf cs) := by
  cases h with
  | row hc hplain hzero => exact reads_decimal hc hzero hplain

theorem IsDecimal.plain {cs : List Char} (h : IsDecimal cs) : IsPlain 10 (digitsOf cs) := by
  cases h with
  | row _ hplain _ => exact hplain

theorem IsDecimal.splitRadix {cs : List Char} (h : IsDecimal cs) (hpos : rowValue 10 cs ≠ 0)
    (suffix : List Char) : (Literal.splitRadix (digitsOf cs ++ suffix)).1 = 10 := by
  cases h with
  | @row c cs hc hplain hzero =>
    have hne : c ≠ '0' := by
      rintro rfl
      rcases hzero with hzero | rfl
      · exact hzero rfl
      · exact hpos rfl
    rw [digitsOf_cons hc, List.cons_append, splitRadix_decimal hne]

/-! ## Values out of range -/

theorem dropTypeSuffix_kept {hexadecimal : Bool} {c : Char} (hc : isTypeSuffix hexadecimal c = false)
    (front : List Char) : dropTypeSuffix hexadecimal (front ++ [c]) = front ++ [c] := by
  simp [dropTypeSuffix, hc]

theorem dropTypeSuffix_dropped {hexadecimal : Bool} {c : Char} (hc : isTypeSuffix hexadecimal c = true)
    {front : List Char} (hne : front ≠ []) :
    dropTypeSuffix hexadecimal (front ++ [c]) = front := by
  have hlength : 0 < front.length := List.length_pos_iff.mpr hne
  simp [dropTypeSuffix, hc, hlength]

theorem dropTypeSuffix_digit {c : Char} (hc : digitValue c < 10) (front : List Char) :
    dropTypeSuffix false (front ++ [c]) = front ++ [c] := by
  have hne : ∀ s ∈ ['l', 'L', 'f', 'F', 'd', 'D'], c ≠ s := by
    rintro s hs rfl
    exact absurd (le_digitValue_of_mem (by decide) hs) (not_le.mpr hc)
  exact dropTypeSuffix_kept (by simpa [isTypeSuffix, and_assoc] using hne) front

theorem dropTypeSuffix_long {c : Char} (hc : c = 'l' ∨ c = 'L') {front : List Char}
    (hne : front ≠ []) : dropTypeSuffix false (front ++ [c]) = front :=
  dropTypeSuffix_dropped (by rcases hc with rfl | rfl <;> rfl) hne

/-- A number that has no value keeps its digits and loses its suffix. -/
theorem dropTypeSuffix_suffix {w : Width} {cs suffix : List Char} (hsuffix : suffix ∈ w.suffixes)
    (hne : cs ≠ []) (hplain : IsPlain 10 cs) (front : List Char) :
    dropTypeSuffix false (front ++ (cs ++ suffix)) = front ++ cs := by
  cases w with
  | int =>
    rw [Width.suffixes, List.mem_singleton] at hsuffix
    rw [hsuffix, List.append_nil, ← List.dropLast_concat_getLast hne, ← List.append_assoc]
    exact dropTypeSuffix_digit (hplain _ (List.getLast_mem hne)) (front ++ cs.dropLast)
  | long =>
    have hfront : front ++ cs ≠ [] := List.append_ne_nil_of_right_ne_nil front hne
    rw [← List.append_assoc]
    simp only [Width.suffixes, List.mem_cons, List.not_mem_nil, or_false] at hsuffix
    rcases hsuffix with rfl | rfl
    · exact dropTypeSuffix_long (.inl rfl) hfront
    · exact dropTypeSuffix_long (.inr rfl) hfront

theorem IsDecimal.denotes {cs : List Char} (h : IsDecimal cs) (sign : Sign) :
    Denotes (.ofList (sign.text ++ digitsOf cs)) (sign.applied (rowValue 10 cs : Int)) := by
  obtain ⟨c, rest, hcs, -⟩ := h.reads.first
  refine ⟨sign, digitsOf cs, rfl, ?_, h.plain, ?_⟩
  · simp [hcs]
  · rw [rowValue_digitsOf]

/-- The bits of a number in range stand for it; those of the smallest number's magnitude stand for
the smallest number, whatever the sign. -/
theorem toInt_applied {w : Width} {n : Nat} (hn : n ≤ 2 ^ (w.bits - 1)) (sign : Sign) :
    (sign.applied (BitVec.ofNat w.bits n)).toInt =
      if sign ≠ .minus ∧ n = 2 ^ (w.bits - 1) then -(n : Int) else sign.applied (n : Int) := by
  have hhalf : ((2 ^ w.bits : Nat) : Int) / 2 = (2 ^ (w.bits - 1) : Nat) ∧
      (((2 ^ w.bits : Nat) : Int) + 1) / 2 = (2 ^ (w.bits - 1) : Nat) := by cases w <;> decide
  rw [← bmod_applied]
  split_ifs with hboundary
  · obtain ⟨hsign, rfl⟩ := hboundary
    cases w <;> cases sign <;> first | exact absurd rfl hsign | decide
  · have hpos : 0 < 2 ^ (w.bits - 1) := Nat.two_pow_pos _
    have hrange : -((2 ^ (w.bits - 1) : Nat) : Int) ≤ sign.applied (n : Int) ∧
        sign.applied (n : Int) < (2 ^ (w.bits - 1) : Nat) := by
      cases sign with
      | unsigned | plus =>
        have hne : n ≠ 2 ^ (w.bits - 1) := fun he => hboundary ⟨by decide, he⟩
        simp only [Sign.applied]
        omega
      | minus =>
        simp only [Sign.applied]
        omega
    exact Int.bmod_eq_of_le (by rw [hhalf.1]; exact hrange.1) (by rw [hhalf.2]; exact hrange.2)

/-- A decimal literal that is out of range is written with the digits it has, and any decimal literal
is written as a numeral for the number that stands in the source. One magnitude in each type is the
exception: that of the smallest number is written as the smallest number where no minus stands. -/
theorem ofNumber_decimal (sign : Sign) {w : Width} {cs suffix : List Char}
    (hdecimal : IsDecimal cs) (hsuffix : suffix ∈ w.suffixes) :
    (2 ^ (w.bits - 1) < rowValue 10 cs →
      ofNumber (.ofList (sign.text ++ cs ++ suffix)) = .ofList (sign.text ++ digitsOf cs)) ∧
    Denotes (ofNumber (.ofList (sign.text ++ cs ++ suffix)))
      (if sign ≠ .minus ∧ rowValue 10 cs = 2 ^ (w.bits - 1) then -(rowValue 10 cs : Int)
      else sign.applied (rowValue 10 cs : Int)) := by
  have hnumber := hdecimal.reads.ofNumber hsuffix sign
  have hpower : 2 ^ (w.bits - 1) < 2 ^ w.bits := by cases w <;> decide
  by_cases hrange : 2 ^ (w.bits - 1) < rowValue 10 cs
  · have hkept : ofNumber (.ofList (sign.text ++ cs ++ suffix)) = .ofList (sign.text ++ digitsOf cs) := by
      have hradix := hdecimal.splitRadix (Nat.zero_lt_of_lt hrange).ne' suffix
      obtain ⟨c, rest, hcs, -⟩ := hdecimal.reads.first
      have hne : digitsOf cs ≠ [] := by simp [hcs]
      rw [hnumber, if_pos (.inr ⟨rfl, hrange⟩), hradix]
      exact congrArg String.ofList (dropTypeSuffix_suffix hsuffix hne hdecimal.plain sign.text)
    refine ⟨fun _ => hkept, ?_⟩
    rw [hkept, if_neg fun hboundary => hrange.ne hboundary.2.symm]
    exact hdecimal.denotes sign
  · have hfits : ¬(2 ^ w.bits ≤ rowValue 10 cs ∨ 10 = 10 ∧ 2 ^ (w.bits - 1) < rowValue 10 cs) := by
      rintro (hwide | ⟨-, hout⟩)
      · exact hrange (hpower.trans_le hwide)
      · exact hrange hout
    refine ⟨fun hout => absurd hout hrange, ?_⟩
    rw [hnumber, if_neg hfits, toInt_applied (not_lt.mp hrange)]
    exact denotes_toString _

/-- A number beyond the range of `long` keeps its digits and its sign. The magnitude of the smallest
`int` is written with a minus that the source does not have. -/
theorem ofNumber_decimal_boundary :
    (IsDecimal "9_223_372_036_854_775_809".toList ∧ ['L'] ∈ Width.long.suffixes ∧
      ofNumber "+9_223_372_036_854_775_809L" = "+9223372036854775809") ∧
    (IsDecimal "2_147_483_648".toList ∧ [] ∈ Width.int.suffixes ∧
      ofNumber "2_147_483_648" = "-2147483648" ∧ Denotes "-2147483648" (-2147483648)) := by
  have hbeyond : IsDecimal "9_223_372_036_854_775_809".toList :=
    .row (by decide) (by decide) (.inl (by decide))
  have hsmallest : IsDecimal "2_147_483_648".toList :=
    .row (by decide) (by decide) (.inl (by decide))
  have hlong : ['L'] ∈ Width.long.suffixes := by decide
  have hint : [] ∈ Width.int.suffixes := by decide
  have hkept := (ofNumber_decimal .plus hbeyond hlong).1 (by decide)
  have hnegative := (ofNumber_decimal .unsigned hsmallest hint).2
  rw [if_pos (by decide)] at hnegative
  exact ⟨⟨hbeyond, hlong, hkept⟩, hsmallest, hint, by decide, hnegative⟩

end FaultTolerance.Literal
