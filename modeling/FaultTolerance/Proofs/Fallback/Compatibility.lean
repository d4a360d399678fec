import FaultTolerance.Proofs.Fallback.Signatures
import Mathlib.Data.Bool.AllAny
import Mathlib.Data.List.Forall2
import Mathlib.Logic.Relation

/-! When a method can stand in for another one. The relation sees no more of a type than its erased
simple name (`SameType`), which other type arguments, another package and `...` instead of `[]` leave as
it is (`Respelled`). On methods it is a preorder, and two methods that can stand in for each other have
the same signature up to such spellings (`isCompatible_preorder`). -/
namespace FaultTolerance.Fallback
open Java Naming Text
set_option autoImplicit false

/-! ## Types -/

/-- Whether two types have the same erased simple name. -/
def SameType (a b : String) : Prop := simpleName (erase a) = simpleName (erase b)

theorem SameType.refl (a : String) : SameType a a := rfl

theorem SameType.symm {a b : String} (h : SameType a b) : SameType b a := Eq.symm h

theorem SameType.trans {a b c : String} (h : SameType a b) (h' : SameType b c) : SameType a c :=
  Eq.trans h h'

theorem sameErasedSimpleName_eq_true {a b : String} :
    sameErasedSimpleName a b = true ↔ SameType a b := decide_eq_true_iff

/-! ## Erasure -/

/-- Whether the angle brackets of a text are paired, when `depth` more were opened in front of it. -/
def isNested : Nat → List Char → Bool
  | depth, [] => depth == 0
  | depth, c :: cs =>
    if c = '<' then isNested (depth + 1) cs
    else if c = '>' then depth != 0 && isNested (depth - 1) cs
    else isNested depth cs

theorem eraseArguments_open (depth : Nat) (cs : List Char) :
    eraseArguments depth ('<' :: cs) = eraseArguments (depth + 1) cs := by
  rw [eraseArguments, if_pos rfl]

theorem eraseArguments_close (depth : Nat) (cs : List Char) :
    eraseArguments depth ('>' :: cs) = eraseArguments (depth - 1) cs := by
  rw [eraseArguments, if_neg (by decide), if_pos rfl]

theorem eraseArguments_nested {inner : Nat} {args : List Char} (h : isNested inner args = true)
    (depth : Nat) (cs : List Char) :
    eraseArguments (depth + 1 + inner) (args ++ cs) = eraseArguments (depth + 1) cs := by
  induction args generalizing inner with
  | nil =>
    obtain rfl : inner = 0 := beq_iff_eq.mp h
    rfl
  | cons c args ih =>
    unfold isNested at h
    rw [List.cons_append]
    split_ifs at h with hopen hclose
    · rw [hopen, eraseArguments_open]
      exact ih h
    · obtain ⟨hinner, h⟩ := Bool.and_eq_true_iff.mp h
      have hpred : depth + 1 + inner - 1 = depth + 1 + (inner - 1) :=
        Nat.add_sub_assoc (Nat.one_le_iff_ne_zero.mpr (bne_iff_ne.mp hinner)) _
      rw [hclose, eraseArguments_close, hpred]
      exact ih h
    · rw [eraseArguments, if_neg hopen, if_neg hclose, if_pos (by simp)]
      exact ih h

theorem eraseArguments_arguments {args : List Char} (h : isNested 0 args = true) (depth : Nat)
    (front rest : List Char) :
    eraseArguments depth (front ++ '<' :: (args ++ '>' :: rest)) =
      eraseArguments depth (front ++ rest) := by
  induction front generalizing depth with
  | nil =>
    rw [List.nil_append, eraseArguments_open, eraseArguments_nested h, eraseArguments_close,
      Nat.add_sub_cancel, List.nil_append]
  | cons c front ih => simp only [List.cons_append, eraseArguments, ih]

/-- Where no bracket was opened, each part of a text is erased by itself. -/
theorem eraseArguments_append {front : List Char} (h : '<' ∉ front) (cs : List Char) :
    eraseArguments 0 (front ++ cs) = eraseArguments 0 front ++ eraseArguments 0 cs := by
  induction front with
  | nil => rfl
  | cons c front ih =>
    obtain ⟨hc, hfront⟩ := not_or.mp (fun hmem => h (List.mem_cons.mpr hmem))
    simp only [List.cons_append, eraseArguments, if_neg (Ne.symm hc), ih hfront]
    split_ifs <;> rfl

theorem eraseArguments_cons {c : Char} (hopen : c ≠ '<') (hclose : c ≠ '>')
    (hspace : isSpace c = false) (cs : List Char) :
    eraseArguments 0 (c :: cs) = c :: eraseArguments 0 cs := by
  rw [eraseArguments, if_neg hopen, if_neg hclose, if_neg (by simp [hspace])]

theorem varargsToArray_dots (cs : List Char) :
    varargsToArray (cs ++ ['.', '.', '.']) = cs ++ ['[', ']'] := by
  rw [varargsToArray, stripEnd?_eq_some_iff.mpr rfl]

/-- A character that is no dot keeps what is in front of it from a `...` at the end. -/
theorem varargsToArray_append_cons {c : Char} (hc : c ≠ '.') (front cs : List Char) :
    varargsToArray (front ++ c :: cs) = front ++ varargsToArray (c :: cs) := by
  unfold varargsToArray
  cases hend : stripEnd? ['.', '.', '.'] (c :: cs) with
  | some base =>
    have hwhole : stripEnd? ['.', '.', '.'] (front ++ c :: cs) = some (front ++ base) := by
      rw [stripEnd?_eq_some_iff, stripEnd?_eq_some_iff.mp hend, List.append_assoc]
    rw [hwhole]
    exact List.append_assoc ..
  | none =>
    have hwhole : stripEnd? ['.', '.', '.'] (front ++ c :: cs) = none := by
      rw [Option.eq_none_iff_forall_ne_some]
      intro base hbase
      rcases List.append_eq_append_iff.mp (stripEnd?_eq_some_iff.mp hbase) with
        ⟨more, _, hcs⟩ | ⟨more, _, hdots⟩
      · rw [stripEnd?_eq_some_iff.mpr hcs] at hend
        cases hend
      · have hmem : c ∈ ['.', '.', '.'] := hdots ▸ List.mem_append_right more List.mem_cons_self
        simp [hc] at hmem
    rw [hwhole]

/-- What stands behind a text is erased with it, or not at all where a bracket is open. -/
theorem eraseArguments_behind (depth : Nat) (front : List Char) :
    (∀ cs ⊆ ['.', '[', ']'],
      eraseArguments depth (front ++ cs) = eraseArguments depth front ++ cs) ∨
    (∀ cs ⊆ ['.', '[', ']'],
      eraseArguments depth (front ++ cs) = eraseArguments depth front) := by
  have hplain : ∀ c ∈ ['.', '[', ']'], c ≠ '<' ∧ c ≠ '>' ∧ isSpace c = false :=
    List.all_iff_forall_prop.mp (by decide)
  induction front generalizing depth with
  | nil =>
    cases depth with
    | zero =>
      refine .inl fun cs hcs => ?_
      induction cs with
      | nil => rfl
      | cons c cs ih =>
        obtain ⟨hc, hcs⟩ := List.cons_subset.mp hcs
        obtain ⟨hopen, hclose, hspace⟩ := hplain c hc
        rw [List.nil_append, eraseArguments_cons hopen hclose hspace]
        exact congrArg (c :: ·) (ih hcs)
    | succ depth =>
      refine .inr fun cs hcs => ?_
      induction cs with
      | nil => rfl
      | cons c cs ih =>
        obtain ⟨hc, hcs⟩ := List.cons_subset.mp hcs
        obtain ⟨hopen, hclose, -⟩ := hplain c hc
        have hdropped : eraseArguments (depth + 1) (c :: cs) = eraseArguments (depth + 1) cs := by
          rw [eraseArguments, if_neg hopen, if_neg hclose, if_pos (by simp)]
        exact hdropped.trans (ih hcs)
  | cons c front ih =>
    simp only [List.cons_append, eraseArguments]
    split_ifs with hopen hclose hdropped
    · exact ih (depth + 1)
    · exact ih (depth - 1)
    · exact ih depth
    · exact (ih depth).imp (fun h cs hcs => congrArg (c :: ·) (h cs hcs))
        (fun h cs hcs => congrArg (c :: ·) (h cs hcs))

theorem eraseChars_varargs (front : List Char) :
    eraseChars (front ++ ['.', '.', '.']) = eraseChars (front ++ ['[', ']']) := by
  have hdots : ['.', '.', '.'] ⊆ ['.', '[', ']'] := by decide
  have hsquares : ['[', ']'] ⊆ ['.', '[', ']'] := by decide
  unfold eraseChars
  rcases eraseArguments_behind 0 front with h | h
  · rw [h _ hdots, h _ hsquares, varargsToArray_dots, varargsToArray_append_cons (by decide)]
    rfl
  · rw [h _ hdots, h _ hsquares]

/-! ## Spellings -/

/-- Changes in how a type is written. -/
inductive Respelled : String → String → Prop
  | arguments (front : List Char) {args : List Char} (hargs : isNested 0 args = true) (rest : List Char) :
      Respelled (.ofList (front ++ '<' :: (args ++ '>' :: rest))) (.ofList (front ++ rest))
  | package (front : List Char) (hfront : '<' ∉ front) {c : Char}
      (hc : c ∉ ['.', '<', '>'] ∧ isSpace c = false) (cs : List Char) :
      Respelled (.ofList (front ++ '.' :: c :: cs)) (.ofList (c :: cs))
  | varargs (front : List Char) :
      Respelled (.ofList (front ++ ['.', '.', '.'])) (.ofList (front ++ ['[', ']']))

theorem Respelled.sameType {a b : String} (h : Respelled a b) : SameType a b := by
  unfold SameType erase
  cases h with
  | arguments front hargs rest =>
    simp only [String.toList_ofList, eraseChars, eraseArguments_arguments hargs]
  | @package front hfront c hc cs =>
    obtain ⟨hplain, hspace⟩ := hc
    simp only [List.mem_cons, List.not_mem_nil, or_false, not_or] at hplain
    obtain ⟨hdot, hopen, hclose⟩ := hplain
    have herased : eraseChars (front ++ '.' :: c :: cs) =
        Naming.eraseArguments 0 front ++ '.' :: eraseChars (c :: cs) := by
      rw [eraseChars, eraseChars, eraseArguments_append hfront,
        eraseArguments_cons (by decide) (by decide) (by decide), eraseArguments_cons hopen hclose hspace,
        ← List.singleton_append, ← List.append_assoc, varargsToArray_append_cons hdot, List.append_assoc,
        List.singleton_append]
    simp only [String.toList_ofList, herased, simpleName]
    rw [lastSegment_append_cons (by decide)]
  | varargs front => simp only [String.toList_ofList, eraseChars_varargs]

theorem sameType_of_eqvGen {a b : String} (h : Relation.EqvGen Respelled a b) : SameType a b := by
  induction h with
  | rel _ _ h => exact h.sameType
  | refl a => exact .refl a
  | symm _ _ _ ih => exact ih.symm
  | trans _ _ _ _ _ ih ih' => exact ih.trans ih'

/-! ## Signatures -/

/-- Whether two methods return the same type and take the same ones, each in its place. -/
structure SameSignature (a b : Method) : Prop where
  returnType : SameType a.returnType b.returnType
  parameterTypes : List.Forall₂ SameType a.parameterTypes b.parameterTypes

theorem forall₂_sameType_symm {l l' : List String} (h : List.Forall₂ SameType l l') :
    List.Forall₂ SameType l' l := by
  induction h with
  | nil => exact .nil
  | cons hab _ ih => exact .cons hab.symm ih

theorem forall₂_sameType_trans {l l' l'' : List String} (h : List.Forall₂ SameType l l')
    (h' : List.Forall₂ SameType l' l'') : List.Forall₂ SameType l l'' := by
  induction h generalizing l'' with
  | nil => exact h'
  | cons hab _ ih =>
    cases h' with
    | cons hbc htail => exact .cons (hab.trans hbc) (ih htail)

theorem SameSignature.refl (m : Method) : SameSignature m m :=
  ⟨.refl _, List.forall₂_same.mpr fun _ _ => .refl _⟩

theorem SameSignature.symm {a b : Method} (h : SameSignature a b) : SameSignature b a :=
  ⟨h.returnType.symm, forall₂_sameType_symm h.parameterTypes⟩

/-! ## Standing in -/

section
variable {a a' b b' c : Method}

theorem isCompatible_iff : isCompatible a b = true ↔ SameType a.returnType b.returnType ∧
    (b.parameterTypes = [] ∨ List.Forall₂ SameType a.parameterTypes b.parameterTypes) := by
  simp only [isCompatible, Bool.and_eq_true, Bool.or_eq_true, sameErasedSimpleName_eq_true,
    List.isEmpty_iff, beq_iff_eq, List.all_eq_true, List.forall₂_iff_zip]
  refine and_congr_right fun _ => or_congr_right (and_congr eq_comm ?_)
  exact ⟨fun h p q hpq => h (p, q) hpq, fun h pq hpq => h hpq⟩

theorem isCompatible_trans (hab : isCompatible a b = true) (hbc : isCompatible b c = true) :
    isCompatible a c = true := by
  obtain ⟨hreturn, hparameters⟩ := isCompatible_iff.mp hab
  obtain ⟨hreturn', hparameters'⟩ := isCompatible_iff.mp hbc
  refine isCompatible_iff.mpr ⟨hreturn.trans hreturn', ?_⟩
  rcases hparameters' with hnone | hsame'
  · exact .inl hnone
  rcases hparameters with hnone | hsame
  · -- A method without parameters accepts such methods only.
    rw [hnone] at hsame'
    exact .inl (List.forall₂_nil_left_iff.mp hsame')
  · exact .inr (forall₂_sameType_trans hsame hsame')

theorem isCompatible_and_comm_iff :
    isCompatible a b = true ∧ isCompatible b a = true ↔ SameSignature a b := by
  constructor
  · rintro ⟨hab, hba⟩
    obtain ⟨hreturn, hparameters⟩ := isCompatible_iff.mp hab
    refine ⟨hreturn, ?_⟩
    rcases hparameters with hnone | hsame
    · rcases (isCompatible_iff.mp hba).2 with hnone' | hsame'
      · rw [hnone, hnone']
        exact .nil
      · exact forall₂_sameType_symm hsame'
    · exact hsame
  · intro h
    exact ⟨isCompatible_iff.mpr ⟨h.returnType, .inr h.parameterTypes⟩,
      isCompatible_iff.mpr ⟨h.symm.returnType, .inr h.symm.parameterTypes⟩⟩

theorem SameSignature.isCompatible (h : SameSignature a b) : Fallback.isCompatible a b = true :=
  (isCompatible_and_comm_iff.mpr h).1

theorem isCompatible_congr (ha : SameSignature a a') (hb : SameSignature b b') :
    isCompatible a b = isCompatible a' b' := by
  rw [Bool.eq_iff_iff]
  constructor
  · intro h
    exact isCompatible_trans (isCompatible_trans ha.symm.isCompatible h) hb.isCompatible
  · intro h
    exact isCompatible_trans (isCompatible_trans ha.isCompatible h) hb.symm.isCompatible

end

/-- Standing in is reflexive and transitive, and goes both ways where the signatures are the same. Types
count by erased simple name alone, whatever else they are written with. -/
theorem isCompatible_preorder :
    (∀ m : Method, isCompatible m m = true) ∧
    (∀ a b c : Method, isCompatible a b = true → isCompatible b c = true →
      isCompatible a c = true) ∧
    (∀ a b : Method, isCompatible a b = true ∧ isCompatible b a = true ↔ SameSignature a b) ∧
    (∀ a a' b b' : Method, SameSignature a a' → SameSignature b b' →
      isCompatible a b = isCompatible a' b') ∧
    ∀ s t : String, Relation.EqvGen Respelled s t → SameType s t := by
  refine ⟨?_, ?_, ?_, ?_, ?_⟩
  · intro m
    exact (SameSignature.refl m).isCompatible
  · intro a b c hab hbc
    exact isCompatible_trans hab hbc
  · intro a b
    exact isCompatible_and_comm_iff
  · intro a a' b b' ha hb
    exact isCompatible_congr ha hb
  · intro s t h
    exact sameType_of_eqvGen h

def lookUp : Method where
  name := "lookUp"
  returnType := "java.util.Map<String, List<Long>>"
  parameterTypes := ["java.lang.String", "int..."]

def lookUpCached : Method where
  name := "lookUpCached"
  returnType := "Map"
  parameterTypes := ["String", "int[]"]

def lookUpNothing : Method where
  name := "lookUpNothing"
  returnType := "org.acme.Map<?>"
  parameterTypes := []

/-- A chain of methods that stand in for each other, the last of them not the other way round. -/
theorem isCompatible_preorder_lookUp :
    isCompatible lookUp lookUpCached = true ∧ isCompatible lookUpCached lookUpNothing = true ∧
      isCompatible lookUp lookUpNothing = true ∧ SameSignature lookUp lookUpCached ∧
      isCompatible lookUpNothing lookUp = isCompatible lookUpNothing lookUpCached ∧
      ¬ SameSignature lookUp lookUpNothing := by
  obtain ⟨-, htrans, hboth, hcongr, hspelling⟩ := isCompatible_preorder
  have hmap : Relation.EqvGen Respelled "java.util.Map<String, List<Long>>" "Map" := by
    have hgeneric : Respelled "java.util.Map<String, List<Long>>" "java.util.Map" :=
      .arguments "java.util.Map".toList (show isNested 0 "String, List<Long>".toList by decide) []
    have hpackage : Respelled "java.util.Map" "Map" :=
      .package "java.util".toList (by decide) (by decide) "ap".toList
    exact .trans _ _ _ (.rel _ _ hgeneric) (.rel _ _ hpackage)
  have hstring : Relation.EqvGen Respelled "java.lang.String" "String" :=
    .rel _ _ (.package "java.lang".toList (by decide) (by decide) "tring".toList)
  have hints : Relation.EqvGen Respelled "int..." "int[]" := .rel _ _ (.varargs "int".toList)
  have hsame : SameSignature lookUp lookUpCached :=
    ⟨hspelling _ _ hmap, .cons (hspelling _ _ hstring) (.cons (hspelling _ _ hints) .nil)⟩
  have hcached : isCompatible lookUp lookUpCached = true := ((hboth _ _).mpr hsame).1
  have hnothing : isCompatible lookUpCached lookUpNothing = true := by decide
  refine ⟨hcached, hnothing, htrans _ _ _ hcached hnothing, hsame,
    hcongr _ _ _ _ (.refl _) hsame, ?_⟩
  intro h
  exact absurd ((hboth _ _).mpr h).2 (by decide)

end FaultTolerance.Fallback
