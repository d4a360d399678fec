import FaultTolerance.Java.Source.Token
import FaultTolerance.Proofs.Naming.Descriptors

/-! Dimensions behind a type. The descriptor of a type with dimensions has a bracket for each in front of
that of the type (`ofTypeChars_dimensions`), as long as the type closes all its angle brackets; otherwise
the dimensions count as type arguments and are lost (`ofTypeChars_open`). -/
namespace FaultTolerance.Java.Descriptor
open Fallback Naming Source Text
set_option autoImplicit false

/-! ## Texts that end in a word -/

theorem ne_of_isWordPart {c d : Char} (hc : isWordPart c) (hd : isWordPart d = false) : c ≠ d := by
  rintro rfl
  rw [hc] at hd
  cases hd

/-- Whether a text ends in a character of a word. -/
def EndsInWord (cs : List Char) : Prop := ∃ front c, cs = front ++ [c] ∧ isWordPart c ∧ isSpace c = false

namespace EndsInWord
variable {cs : List Char}

theorem append_left (h : EndsInWord cs) (front : List Char) : EndsInWord (front ++ cs) := by
  obtain ⟨before, c, rfl, hc⟩ := h
  exact ⟨front ++ before, c, (List.append_assoc ..).symm, hc⟩

theorem ne_concat (h : EndsInWord cs) {d : Char} (hd : isWordPart d = false) (front : List Char) :
    cs ≠ front ++ [d] := by
  obtain ⟨before, c, rfl, hc, -⟩ := h
  intro heq
  have hlast : c = d := by simpa using congrArg List.getLast? heq
  exact ne_of_isWordPart hc hd hlast

theorem not_dots_suffix (h : EndsInWord cs) : ¬ ['.', '.', '.'] <:+ cs := by
  rintro ⟨front, hcs⟩
  refine h.ne_concat (by decide : isWordPart '.' = false) (front ++ ['.', '.']) ?_
  rw [← hcs, List.append_assoc]
  rfl

theorem splitDimensions_append (h : EndsInWord cs) (n : Nat) :
    splitDimensions (cs ++ dimensions n) = (cs, n) := by
  have hrev : splitDimensionsRev cs.reverse = (0, cs.reverse) := by
    refine splitDimensionsRev_of_ne fun rest hrest => ?_
    refine h.ne_concat (by decide : isWordPart ']' = false) (rest.reverse ++ ['[']) ?_
    have hcs := congrArg List.reverse hrest
    simpa using hcs
  rw [splitDimensions, List.reverse_append, splitDimensionsRev_dimensions, hrev, Nat.zero_add,
    List.reverse_reverse]

end EndsInWord

/-! ## Dimensions in descriptors -/

theorem eraseArguments_dimensions (depth n : Nat) :
    eraseArguments depth (dimensions n) = if depth = 0 then dimensions n else [] := by
  induction n with
  | zero => simp [dimensions, eraseArguments]
  | succ n ih =>
    have hopen : isSpace '[' = false := by decide
    have hclose : isSpace ']' = false := by decide
    by_cases hdepth : depth = 0
    · subst hdepth
      rw [if_pos rfl] at ih
      simp [dimensions, eraseArguments, hopen, hclose, ih]
    · rw [if_neg hdepth] at ih
      simp [dimensions, eraseArguments, hdepth, ih]

theorem varargsToArray_dimensions {cs : List Char} (h : EndsInWord cs) (n : Nat) :
    varargsToArray (cs ++ dimensions n) = cs ++ dimensions n := by
  refine varargsToArray_of_not_suffix ?_
  cases n with
  | zero =>
    rw [dimensions, List.append_nil]
    exact h.not_dots_suffix
  | succ n =>
    rw [dimensions_succ]
    rintro ⟨front, hfront⟩
    have hlast := congrArg List.getLast? hfront
    simp at hlast

theorem endsInWord_eraseArguments {cs : List Char} (h : EndsInWord cs) (hclosed : openAngles 0 cs = 0) :
    EndsInWord (eraseArguments 0 cs) := by
  obtain ⟨front, c, rfl, hc, hspace⟩ := h
  have hopen : c ≠ '<' := ne_of_isWordPart hc (by decide)
  have hclose : c ≠ '>' := ne_of_isWordPart hc (by decide)
  have hdepth : openAngles 0 front = 0 := by
    rw [openAngles_append, openAngles, if_neg hopen, if_neg hclose] at hclosed
    exact hclosed
  refine ⟨eraseArguments 0 front, c, ?_, hc, hspace⟩
  rw [eraseArguments_append_open, hdepth, eraseArguments_cons hopen hclose hspace]
  rfl

theorem ofTypeChars_dimensions {type : List Char} (h : EndsInWord type) (hclosed : openAngles 0 type = 0)
    (n : Nat) :
    ofTypeChars (type ++ dimensions n) = List.replicate n '[' ++ ofTypeChars type := by
  have hends := endsInWord_eraseArguments h hclosed
  have herased : ∀ k, eraseChars (type ++ dimensions k) = eraseArguments 0 type ++ dimensions k := by
    intro k
    rw [eraseChars, eraseArguments_append_open, hclosed, eraseArguments_dimensions, if_pos rfl,
      varargsToArray_dimensions hends]
  have hall : ∀ k, ofTypeChars (type ++ dimensions k) =
      List.replicate k '[' ++ ofBase (eraseArguments 0 type) := by
    intro k
    rw [ofTypeChars, herased, hends.splitDimensions_append]
  have hnone := hall 0
  rw [dimensions, List.append_nil] at hnone
  rw [hall, hnone]
  rfl

theorem ofTypeChars_open {type : List Char} (hopen : openAngles 0 type ≠ 0) (n : Nat) :
    ofTypeChars (type ++ dimensions n) = ofTypeChars type := by
  have herased : eraseArguments 0 (type ++ dimensions n) = eraseArguments 0 type := by
    rw [eraseArguments_append_open, eraseArguments_dimensions, if_neg hopen, List.append_nil]
  rw [ofTypeChars, ofTypeChars, eraseChars, eraseChars, herased]

theorem toList_join (texts : List String) : (String.join texts).toList = texts.flatMap String.toList := by
  induction texts with
  | nil => rfl
  | cons text texts ih => rw [String.join_cons, String.toList_append, ih, List.flatMap_cons]

theorem ofMethod_eq (returnType : String) (parameterTypes : List String) :
    ofMethod returnType parameterTypes =
      "(" ++ String.join (parameterTypes.map ofType) ++ ")" ++ ofType returnType := by
  have hopen : "(".toList = ['('] := rfl
  have hclose : ")".toList = [')'] := rfl
  rw [← String.toList_inj, ofMethod, String.toList_ofList]
  simp only [String.toList_append, toList_join, List.flatMap_map, ofType, String.toList_ofList, hopen,
    hclose, List.append_assoc, List.cons_append, List.nil_append]

end FaultTolerance.Java.Descriptor
