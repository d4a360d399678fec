import FaultTolerance.Proofs.Literal.Digits
import Mathlib.Data.Int.Basic

/-! Integer literals with their signs. `IsNumeral` says which texts are numerals of a radix,
`Width.Admits` which magnitudes a type has literals for, and the value of a signed literal is a bit
pattern of its width read in two's complement. That value is what is written for the literal
(`ofNumber_integer`). -/
namespace FaultTolerance.Literal
set_option autoImplicit false

/-! ## Signs -/

/-- The sign in front of a literal, if there is one. -/
inductive Sign where
  | unsigned | plus | minus
  deriving DecidableEq, Repr

namespace Sign

def text : Sign → List Char
  | .unsigned => []
  | .plus => ['+']
  | .minus => ['-']

/-- What the sign makes of a value. -/
def applied {α : Type} [Neg α] : Sign → α → α
  | .minus, x => -x
  | _, x => x

end Sign

theorem splitSign_text (sign : Sign) {c : Char} (hplus : c ≠ '+') (hminus : c ≠ '-')
    (cs : List Char) : splitSign (sign.text ++ c :: cs) = (decide (sign = .minus), c :: cs) := by
  cases sign with
  | unsigned =>
    unfold splitSign
    split
    · simp_all [Sign.text]
    · simp_all [Sign.text]
    · rfl
  | plus => rfl
  | minus => rfl

/-! ## Types -/

/-- The types that have integer literals. -/
inductive Width where
  | int | long
  deriving DecidableEq, Repr

namespace Width

def bits : Width → Nat
  | .int => 32
  | .long => 64

/-- What may follow the digits of a literal. -/
def suffixes : Width → List (List Char)
  | .int => [[]]
  | .long => [['l'], ['L']]

/-- Whether there is a literal of the type for a magnitude. Only a decimal one that is negated may
reach the magnitude of the smallest number; in any other radix a literal is a bit pattern. -/
def Admits (w : Width) (sign : Sign) (radix magnitude : Nat) : Prop :=
  if radix = 10 then
    magnitude < 2 ^ (w.bits - 1) ∨ (sign = .minus ∧ magnitude = 2 ^ (w.bits - 1))
  else magnitude < 2 ^ w.bits

instance {w : Width} {sign : Sign} {radix magnitude : Nat} :
    Decidable (w.Admits sign radix magnitude) :=
  inferInstanceAs (Decidable (if radix = 10 then magnitude < 2 ^ (w.bits - 1) ∨
    (sign = .minus ∧ magnitude = 2 ^ (w.bits - 1)) else magnitude < 2 ^ w.bits))

end Width

/-! ## Numerals -/

/-- `IsNumeral radix cs n`: the text `cs` is a numeral of that radix for the number `n`. -/
inductive IsNumeral : Nat → List Char → Nat → Prop
  | zero : IsNumeral 10 ['0'] 0
  | decimal {cs : List Char} (hrow : IsRow 10 cs) (hzero : cs.head? ≠ some '0') :
      IsNumeral 10 cs (rowValue 10 cs)
  /-- A zero in front of more digits announces octal ones. -/
  | octal {cs : List Char} (hrow : IsRow 8 ('0' :: cs)) (hmore : cs ≠ []) :
      IsNumeral 8 ('0' :: cs) (rowValue 8 ('0' :: cs))
  | hexadecimal {x : Char} {cs : List Char} (hx : x = 'x' ∨ x = 'X') (hrow : IsRow 16 cs) :
      IsNumeral 16 ('0' :: x :: cs) (rowValue 16 cs)
  | binary {b : Char} {cs : List Char} (hb : b = 'b' ∨ b = 'B') (hrow : IsRow 2 cs) :
      IsNumeral 2 ('0' :: b :: cs) (rowValue 2 cs)

/-! ## Reading a numeral -/

/-- Whether a text ends with a digit. -/
def EndsInDigit (cs : List Char) : Prop := ∃ front c, cs = front ++ [c] ∧ digitValue c < 16

/-- Whether a text without underscores is read as digits of a radix that stand for `n`. -/
structure Reads (radix n : Nat) (cs : List Char) : Prop where
  digits : ∃ digits, splitRadix cs = (radix, digits) ∧ natural? radix digits = some n
  first : ∃ c rest, cs = c :: rest ∧ digitValue c < 16
  last : EndsInDigit cs

theorem endsInDigit_of_plain {radix : Nat} (hradix : radix ≤ 16) {cs : List Char} (hne : cs ≠ [])
    (h : IsPlain radix cs) : EndsInDigit cs := by
  have hlast := (h (cs.getLast hne) (List.getLast_mem hne)).trans_le hradix
  exact ⟨cs.dropLast, cs.getLast hne, (List.dropLast_concat_getLast hne).symm, hlast⟩

theorem EndsInDigit.cons {cs : List Char} (h : EndsInDigit cs) (c : Char) : EndsInDigit (c :: cs) := by
  obtain ⟨front, d, rfl, hd⟩ := h
  exact ⟨c :: front, d, rfl, hd⟩

theorem IsRow.endsInDigit {radix : Nat} (hradix : radix ≤ 16) {cs : List Char} (h : IsRow radix cs) :
    EndsInDigit (digitsOf cs) := endsInDigit_of_plain hradix (digitsOf_ne_nil h.nonempty h.last) h.plain

theorem splitRadix_decimal {c : Char} (hc : c ≠ '0') (cs : List Char) :
    splitRadix (c :: cs) = (10, c :: cs) := by
  unfold splitRadix
  split <;> simp_all

theorem splitRadix_single (c : Char) : splitRadix [c] = (10, [c]) := by
  unfold splitRadix
  split <;> simp_all

theorem splitRadix_octal {c : Char} (hc : digitValue c < 8) (cs : List Char) :
    splitRadix ('0' :: c :: cs) = (8, c :: cs) := by
  have hne : ∀ m ∈ ['x', 'X', 'b', 'B'], c ≠ m := by
    rintro m hm rfl
    exact absurd (le_digitValue_of_mem (by decide) hm) (not_le.mpr hc)
  unfold splitRadix
  split <;> simp_all

/-- A decimal row that starts with a digit is read as its number. -/
theorem reads_decimal {c : Char} {cs : List Char} (hc : c ≠ '_') (hzero : c ≠ '0' ∨ cs = [])
    (hplain : IsPlain 10 (digitsOf (c :: cs))) :
    Reads 10 (rowValue 10 (c :: cs)) (digitsOf (c :: cs)) := by
  have hcons : digitsOf (c :: cs) = c :: digitsOf cs := digitsOf_cons hc cs
  have hne : digitsOf (c :: cs) ≠ [] := by simp [hcons]
  have hlt : digitValue c < 10 := hplain c (hcons ▸ List.mem_cons_self)
  have hnumber := natural?_of_plain (by omega) hne hplain
  rw [rowValue_digitsOf] at hnumber
  refine ⟨⟨digitsOf (c :: cs), ?_, hnumber⟩, ⟨c, digitsOf cs, hcons, by omega⟩,
    endsInDigit_of_plain (by omega) hne hplain⟩
  rcases hzero with hc | rfl
  · rw [hcons, splitRadix_decimal hc]
  · rw [hcons]
    exact splitRadix_single c

/-- A numeral is read as its number, whatever underscores it has. -/
theorem IsNumeral.reads {radix n : Nat} {cs : List Char} (h : IsNumeral radix cs n) :
    Reads radix n (digitsOf cs) := by
  cases h with
  | zero =>
    have hzero : Reads 10 (rowValue 10 ['0']) (digitsOf ['0']) :=
      reads_decimal (by decide) (.inr rfl) (by decide)
    exact hzero
  | decimal hrow hzero =>
    cases cs with
    | nil => exact absurd rfl hrow.nonempty
    | cons c cs =>
      exact reads_decimal (fun he => hrow.first (congrArg some he))
        (.inl fun he => hzero (congrArg some he)) hrow.plain
  | @octal cs hrow hmore =>
    have hlast : cs.getLast? ≠ some '_' := by
      rw [← List.getLast?_cons_of_ne_nil hmore]
      exact hrow.last
    have hne : digitsOf cs ≠ [] := digitsOf_ne_nil hmore hlast
    have hzero : digitsOf ('0' :: cs) = '0' :: digitsOf cs := digitsOf_cons (by decide) cs
    have hplain : IsPlain 8 (digitsOf cs) := by
      have hall := hrow.plain
      rw [hzero] at hall
      exact (List.forall_mem_cons.mp hall).2
    refine ⟨⟨digitsOf cs, ?_, ?_⟩, ⟨'0', digitsOf cs, hzero, by decide⟩, hrow.endsInDigit (by omega)⟩
    · rw [hzero]
      cases hcs : digitsOf cs with
      | nil => exact absurd hcs hne
      | cons c rest =>
        rw [hcs] at hplain
        exact splitRadix_octal (hplain c List.mem_cons_self) rest
    · rw [natural?_of_plain (by omega) hne hplain, rowValue_digitsOf, rowValue_zero_cons]
  | @hexadecimal x cs hx hrow =>
    have hdigits : digitsOf ('0' :: x :: cs) = '0' :: x :: digitsOf cs := by
      rw [digitsOf_cons (by decide), digitsOf_cons (by rcases hx with rfl | rfl <;> decide)]
    rw [hdigits]
    refine ⟨⟨digitsOf cs, ?_, hrow.natural? (by omega)⟩, ⟨'0', x :: digitsOf cs, rfl, by decide⟩,
      ((hrow.endsInDigit (by omega)).cons x).cons '0'⟩
    rcases hx with rfl | rfl <;> rfl
  | @binary b cs hb hrow =>
    have hdigits : digitsOf ('0' :: b :: cs) = '0' :: b :: digitsOf cs := by
      rw [digitsOf_cons (by decide), digitsOf_cons (by rcases hb with rfl | rfl <;> decide)]
    rw [hdigits]
    refine ⟨⟨digitsOf cs, ?_, hrow.natural? (by omega)⟩, ⟨'0', b :: digitsOf cs, rfl, by decide⟩,
      ((hrow.endsInDigit (by omega)).cons b).cons '0'⟩
    rcases hb with rfl | rfl <;> rfl

/-! ## Values -/

theorem splitLong_suffix {w : Width} {cs suffix : List Char} (h : EndsInDigit cs)
    (hsuffix : suffix ∈ w.suffixes) : splitLong (cs ++ suffix) = (cs, decide (w = .long)) := by
  cases w with
  | int =>
    obtain ⟨front, c, rfl, hc⟩ := h
    have hsmall : c ≠ 'l' := fun he => absurd (he ▸ hc) (by decide)
    have hcapital : c ≠ 'L' := fun he => absurd (he ▸ hc) (by decide)
    rw [Width.suffixes, List.mem_singleton] at hsuffix
    subst hsuffix
    simp [splitLong, hsmall, hcapital]
  | long =>
    simp only [Width.suffixes, List.mem_cons, List.not_mem_nil, or_false] at hsuffix
    rcases hsuffix with rfl | rfl <;> simp [splitLong]

/-- What a text has for its value that is read as the number `n`: none where the number is too
great for the width, else the pattern that `n` or its negation leaves there. -/
theorem Reads.integer? {w : Width} {radix n : Nat} {cs suffix : List Char} (h : Reads radix n cs)
    (hsuffix : suffix ∈ w.suffixes) (sign : Sign) :
    Literal.integer? (decide (sign = .minus)) (cs ++ suffix) =
      if 2 ^ w.bits ≤ n ∨ (radix = 10 ∧ 2 ^ (w.bits - 1) < n) then none
      else some (Int.bmod (sign.applied (n : Int)) (2 ^ w.bits)) := by
  obtain ⟨⟨digits, hradix, hn⟩, -, hlast⟩ := h
  have hsign : (if sign = .minus then -(n : Int) else n) = sign.applied (n : Int) := by
    cases sign <;> rfl
  have hwidth : (if w = .long then 64 else 32) = w.bits := by cases w <;> rfl
  have hhalf : 2 ^ w.bits / 2 = 2 ^ (w.bits - 1) := by cases w <;> rfl
  simp only [Literal.integer?, splitLong_suffix hlast hsuffix, hradix, hn, Option.bind_some,
    decide_eq_true_eq, hsign, hwidth, Nat.pow_eq, hhalf, ge_iff_le, gt_iff_lt]

/-- The pattern that is left is the one of the signed bits. -/
theorem bmod_applied (sign : Sign) (w : Width) (n : Nat) :
    Int.bmod (sign.applied (n : Int)) (2 ^ w.bits) =
      (sign.applied (BitVec.ofNat w.bits n)).toInt := by
  cases sign with
  | unsigned => exact (BitVec.toInt_ofNat n).symm
  | plus => exact (BitVec.toInt_ofNat n).symm
  | minus =>
    have hneg : -BitVec.ofNat w.bits n = BitVec.ofInt w.bits (-(n : Int)) := by
      rw [BitVec.ofInt_neg, BitVec.ofInt_natCast]
    rw [Sign.applied, Sign.applied, hneg, BitVec.toInt_ofInt]

/-! ## Literals -/

theorem Width.digitsOf_suffix {w : Width} {suffix : List Char} (h : suffix ∈ w.suffixes) :
    digitsOf suffix = suffix := by
  have hall : ∀ w : Width, ∀ suffix ∈ w.suffixes, digitsOf suffix = suffix := by
    rintro (_ | _) <;> decide
  exact hall w suffix h

theorem digitsOf_signed {suffix : List Char} (hsuffix : digitsOf suffix = suffix) (sign : Sign)
    (cs : List Char) :
    digitsOf (sign.text ++ cs ++ suffix) = sign.text ++ (digitsOf cs ++ suffix) := by
  have hsign : digitsOf sign.text = sign.text := by cases sign <;> rfl
  rw [digitsOf_append, digitsOf_append, hsign, hsuffix, List.append_assoc]

/-- What is written for a signed number: its value where it has one, else its text without
separators and without the suffix. -/
theorem Reads.ofNumber {w : Width} {radix n : Nat} {cs suffix : List Char}
    (h : Reads radix n (digitsOf cs)) (hsuffix : suffix ∈ w.suffixes) (sign : Sign) :
    Literal.ofNumber (.ofList (sign.text ++ cs ++ suffix)) =
      if 2 ^ w.bits ≤ n ∨ (radix = 10 ∧ 2 ^ (w.bits - 1) < n) then
        .ofList (dropTypeSuffix ((splitRadix (digitsOf cs ++ suffix)).1 = 16)
          (sign.text ++ (digitsOf cs ++ suffix)))
      else toString (sign.applied (BitVec.ofNat w.bits n)).toInt := by
  obtain ⟨c, rest, hcs, hc⟩ := h.first
  have hplus : c ≠ '+' := fun he => absurd (he ▸ hc) (by decide)
  have hminus : c ≠ '-' := fun he => absurd (he ▸ hc) (by decide)
  have hclean : List.filter (· ≠ '_') (sign.text ++ cs ++ suffix) =
      sign.text ++ (digitsOf cs ++ suffix) := digitsOf_signed (w.digitsOf_suffix hsuffix) sign cs
  have hsplit : splitSign (sign.text ++ (digitsOf cs ++ suffix)) =
      (decide (sign = .minus), digitsOf cs ++ suffix) := by
    rw [hcs]
    exact splitSign_text sign hplus hminus (rest ++ suffix)
  simp only [Literal.ofNumber, String.toList_ofList, hclean, hsplit, h.integer? hsuffix,
    bmod_applied]
  split_ifs <;> rfl

/-- An integer literal is written as the decimal numeral of its value: the magnitude, at the width
of the literal's type, with the sign that stands in front applied to the bits. -/
theorem ofNumber_integer {sign : Sign} {w : Width} {radix n : Nat} {cs suffix : List Char}
    (hnumeral : IsNumeral radix cs n) (hsuffix : suffix ∈ w.suffixes)
    (hadmits : w.Admits sign radix n) :
    ofNumber (.ofList (sign.text ++ cs ++ suffix)) =
      toString (sign.applied (BitVec.ofNat w.bits n)).toInt := by
  have hfits : ¬(2 ^ w.bits ≤ n ∨ (radix = 10 ∧ 2 ^ (w.bits - 1) < n)) := by
    unfold Width.Admits at hadmits
    cases w <;> simp only [Width.bits] at hadmits ⊢ <;> split_ifs at hadmits <;> omega
  rw [hnumeral.reads.ofNumber hsuffix, if_neg hfits]

/-- A bit pattern with underscores and leading zeros that is its own negation. -/
theorem ofNumber_integer_smallest :
    IsNumeral 16 "0x00_8000__0000_0000_0000".toList (2 ^ 63) ∧
      Width.long.Admits .minus 16 (2 ^ 63) ∧
      ofNumber "-0x00_8000__0000_0000_0000L" = "-9223372036854775808" := by
  have hvalue : rowValue 16 "00_8000__0000_0000_0000".toList = 2 ^ 63 := by decide
  have hnumeral : IsNumeral 16 "0x00_8000__0000_0000_0000".toList (2 ^ 63) :=
    hvalue ▸ IsNumeral.hexadecimal (.inl rfl) (by decide)
  have hadmits : Width.long.Admits .minus 16 (2 ^ 63) := by decide
  exact ⟨hnumeral, hadmits,
    (ofNumber_integer hnumeral (by decide) hadmits).trans (by decide)⟩

end FaultTolerance.Literal
