import FaultTolerance.Literal
import Mathlib.Data.Nat.Digits.Defs
import Mathlib.Tactic.Ring

/-! Rows of digits, and the numbers they stand for by the places of their digits (`rowValue`). Reading a
row from the left gives its number (`natural?_of_plain`), and the numeral that is printed for a number
is a row that stands for it (`rowValue_toDigits`). -/
namespace FaultTolerance.Literal
set_option autoImplicit false

/-! ## Digits -/

/-- The digits by value. The letters among them may also be capitals. -/
def smallDigits : List Char :=
  ['0', '1', '2', '3', '4', '5', '6', '7', '8', '9', 'a', 'b', 'c', 'd', 'e', 'f']

def capitalDigits : List Char :=
  ['0', '1', '2', '3', '4', '5', '6', '7', '8', '9', 'A', 'B', 'C', 'D', 'E', 'F']

/-- The value of a digit; sixteen for a character that is none. -/
def digitValue (c : Char) : Nat := min (smallDigits.idxOf c) (capitalDigits.idxOf c)

theorem mem_digits_of_lt {c : Char} (h : digitValue c < 16) : c ∈ smallDigits ++ capitalDigits := by
  rw [List.mem_append]
  exact (min_lt_iff.mp h).imp List.idxOf_lt_length_iff.mp List.idxOf_lt_length_iff.mp

theorem digit?_eq_digitValue {radix : Nat} {c : Char} (hradix : radix ≤ 16)
    (h : digitValue c < radix) : digit? radix c = some (digitValue c) := by
  have hall : (smallDigits ++ capitalDigits).all fun c => digit? 16 c = some (digitValue c) := by
    decide
  have hdigit : digit? 16 c = some (digitValue c) :=
    of_decide_eq_true (List.all_eq_true.mp hall c (mem_digits_of_lt (h.trans_le hradix)))
  unfold digit? at hdigit ⊢
  simp only [Option.ite_none_right_eq_some, Option.some.injEq] at hdigit
  simp only [Option.ite_none_right_eq_some, Option.some.injEq]
  split_ifs at * <;> omega

/-- The values of some characters are checked one by one. -/
theorem le_digitValue_of_mem {n : Nat} {cs : List Char} (h : cs.all (n ≤ digitValue ·)) {c : Char}
    (hc : c ∈ cs) : n ≤ digitValue c := of_decide_eq_true (List.all_eq_true.mp h c hc)

theorem digitValue_of_isDigit {c : Char} (h : c.isDigit) : digitValue c = c.toNat - 48 := by
  have hall : ∀ n, n < 58 → 48 ≤ n → digitValue (Char.ofNat n) = n - 48 := by decide
  have hrange : 48 ≤ c.toNat ∧ c.toNat ≤ 57 := Char.isDigit_iff_toNat.mp h
  rw [← Char.ofNat_toNat c, hall c.toNat (by omega) hrange.1, Char.ofNat_toNat]

/-! ## Rows -/

/-- The digits of a row, without the underscores between them. -/
def digitsOf (cs : List Char) : List Char := cs.filter (· ≠ '_')

/-- The number that a row of digits stands for. -/
def rowValue (radix : Nat) (cs : List Char) : Nat :=
  Nat.ofDigits radix ((digitsOf cs).reverse.map digitValue)

/-- Whether a text holds nothing but digits of a radix. -/
def IsPlain (radix : Nat) (cs : List Char) : Prop := ∀ c ∈ cs, digitValue c < radix

instance {radix : Nat} {cs : List Char} : Decidable (IsPlain radix cs) :=
  List.decidableBAll (fun c => digitValue c < radix) cs

/-- A row of digits: underscores may stand between them, but not at either end. -/
structure IsRow (radix : Nat) (cs : List Char) : Prop where
  nonempty : cs ≠ []
  plain : IsPlain radix (digitsOf cs)
  first : cs.head? ≠ some '_'
  last : cs.getLast? ≠ some '_'

instance {radix : Nat} {cs : List Char} : Decidable (IsRow radix cs) :=
  decidable_of_iff (cs ≠ [] ∧ IsPlain radix (digitsOf cs) ∧ cs.head? ≠ some '_' ∧ cs.getLast? ≠ some '_')
    ⟨fun ⟨h₁, h₂, h₃, h₄⟩ => ⟨h₁, h₂, h₃, h₄⟩, fun ⟨h₁, h₂, h₃, h₄⟩ => ⟨h₁, h₂, h₃, h₄⟩⟩

theorem digitsOf_append (cs ds : List Char) : digitsOf (cs ++ ds) = digitsOf cs ++ digitsOf ds :=
  List.filter_append ..

theorem digitsOf_cons {c : Char} (h : c ≠ '_') (cs : List Char) :
    digitsOf (c :: cs) = c :: digitsOf cs := List.filter_cons_of_pos (by simpa using h)

theorem digitsOf_plain {radix : Nat} {cs : List Char} (hradix : radix ≤ 16) (h : IsPlain radix cs) :
    digitsOf cs = cs := by
  refine List.filter_eq_self.mpr fun c hc => ?_
  have hunderscore : digitValue '_' = 16 := by decide
  have hlt := (h c hc).trans_le hradix
  rw [decide_eq_true_eq]
  rintro rfl
  omega

theorem IsPlain.rowValue {radix : Nat} {cs : List Char} (hradix : radix ≤ 16) (h : IsPlain radix cs) :
    rowValue radix cs = Nat.ofDigits radix (cs.reverse.map digitValue) := by
  rw [Literal.rowValue, digitsOf_plain hradix h]

theorem rowValue_digitsOf (radix : Nat) (cs : List Char) :
    rowValue radix (digitsOf cs) = rowValue radix cs := by
  simp [rowValue, digitsOf]

theorem rowValue_zero_cons (radix : Nat) (cs : List Char) :
    rowValue radix ('0' :: cs) = rowValue radix cs := by
  have hzero : digitValue '0' = 0 := by decide
  simp [rowValue, digitsOf_cons (show '0' ≠ '_' by decide), Nat.ofDigits_append, hzero]

/-- A row keeps its last digit when it loses its underscores. -/
theorem digitsOf_ne_nil {cs : List Char} (hne : cs ≠ []) (hlast : cs.getLast? ≠ some '_') :
    digitsOf cs ≠ [] := by
  rw [List.getLast?_eq_some_getLast hne] at hlast
  refine List.ne_nil_of_mem (List.mem_filter.mpr ⟨List.getLast_mem hne, ?_⟩)
  simpa using hlast

/-! ## Reading a row -/

theorem readDigits?_plain {radix : Nat} (hradix : radix ≤ 16) {cs : List Char}
    (h : IsPlain radix cs) (n : Nat) :
    readDigits? radix n cs =
      some (radix ^ cs.length * n + Nat.ofDigits radix (cs.reverse.map digitValue)) := by
  induction cs generalizing n with
  | nil => simp [readDigits?]
  | cons c cs ih =>
    obtain ⟨hc, hcs⟩ := List.forall_mem_cons.mp h
    rw [readDigits?, digit?_eq_digitValue hradix hc, Option.bind_some, ih hcs]
    simp only [List.reverse_cons, List.map_append, Nat.ofDigits_append, List.length_map,
      List.length_reverse, List.map_cons, List.map_nil, Nat.ofDigits_singleton, List.length_cons]
    congr 1
    ring

/-- The number read is the one that the row stands for. -/
theorem natural?_of_plain {radix : Nat} (hradix : radix ≤ 16) {cs : List Char} (hne : cs ≠ [])
    (h : IsPlain radix cs) : natural? radix cs = some (rowValue radix cs) := by
  rw [natural?, if_neg (by simpa using hne), readDigits?_plain hradix h, Nat.mul_zero, Nat.zero_add,
    h.rowValue hradix]

theorem IsRow.natural? {radix : Nat} (hradix : radix ≤ 16) {cs : List Char} (h : IsRow radix cs) :
    natural? radix (digitsOf cs) = some (rowValue radix cs) := by
  rw [natural?_of_plain hradix (digitsOf_ne_nil h.nonempty h.last) h.plain, rowValue_digitsOf]

/-! ## Printing a number -/

theorem isPlain_of_isDigit {cs : List Char} (h : ∀ c ∈ cs, c.isDigit) : IsPlain 10 cs := by
  intro c hc
  have hrange : 48 ≤ c.toNat ∧ c.toNat ≤ 57 := Char.isDigit_iff_toNat.mp (h c hc)
  rw [digitValue_of_isDigit (h c hc)]
  omega

theorem isPlain_toDigits (n : Nat) : IsPlain 10 (Nat.toDigits 10 n) :=
  isPlain_of_isDigit fun _ => Nat.isDigit_of_mem_toDigits (by omega) (le_refl 10)

theorem readDigits?_of_isDigit {cs : List Char} (h : ∀ c ∈ cs, c.isDigit) (n : Nat) :
    readDigits? 10 n cs = some (Nat.ofDigitChars 10 cs n) := by
  induction cs generalizing n with
  | nil => rfl
  | cons c cs ih =>
    obtain ⟨hc, hcs⟩ := List.forall_mem_cons.mp h
    have hplain : digitValue c < 10 := isPlain_of_isDigit h c List.mem_cons_self
    rw [readDigits?, digit?_eq_digitValue (by omega) hplain, Option.bind_some, ih hcs,
      digitValue_of_isDigit hc]
    rfl

/-- The numeral that is printed for a number stands for it. -/
theorem rowValue_toDigits (n : Nat) : rowValue 10 (Nat.toDigits 10 n) = n := by
  have hread := readDigits?_of_isDigit
    (fun c (hc : c ∈ Nat.toDigits 10 n) => Nat.isDigit_of_mem_toDigits (by omega) (le_refl 10) hc) 0
  rw [readDigits?_plain (by omega) (isPlain_toDigits n), Nat.ofDigitChars_toDigits (by omega) (by omega),
    Nat.mul_zero, Nat.zero_add, ← (isPlain_toDigits n).rowValue (by omega)] at hread
  exact Option.some.inj hread

end FaultTolerance.Literal
