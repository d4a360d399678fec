import FaultTolerance.Proofs.Fallback.Rendering
import FaultTolerance.Proofs.Source.Forgetting.Meaning

/-! What erasure ignores: white space, and type arguments at any depth, whatever brackets stand in front
of them. Where all angle brackets are in pairs it ignores nothing else, up to a `...` that stands for
`[]`. So whatever looks at erasures only is the same for types that differ in these (`erase_exact`). -/
namespace FaultTolerance.Java.Naming
open Fallback Text
set_option autoImplicit false

/-! ## Angle brackets -/

/-- How many angle brackets are open behind a text that `depth` of them stand open in front of. -/
def openAngles : Nat → List Char → Nat
  | depth, [] => depth
  | depth, c :: cs =>
    if c = '<' then openAngles (depth + 1) cs
    else if c = '>' then openAngles (depth - 1) cs
    else openAngles depth cs

theorem openAngles_append (depth : Nat) (cs cs' : List Char) :
    openAngles depth (cs ++ cs') = openAngles (openAngles depth cs) cs' := by
  induction cs generalizing depth with
  | nil => rfl
  | cons c cs ih =>
    simp only [List.cons_append, openAngles, ih]
    split_ifs <;> rfl

theorem eraseArguments_append_open (depth : Nat) (cs cs' : List Char) :
    eraseArguments depth (cs ++ cs') =
      eraseArguments depth cs ++ eraseArguments (openAngles depth cs) cs' := by
  induction cs generalizing depth with
  | nil => rfl
  | cons c cs ih =>
    simp only [List.cons_append, eraseArguments, openAngles, ih]
    split_ifs <;> rfl

inductive Nested : List Char → Prop where
  | nil : Nested []
  | char {c : Char} {cs : List Char} (hopen : c ≠ '<') (hclose : c ≠ '>') (h : Nested cs) :
    Nested (c :: cs)
  | arguments {args cs : List Char} (hargs : Nested args) (h : Nested cs) :
    Nested ('<' :: (args ++ '>' :: cs))

namespace Nested
variable {front cs : List Char}

theorem of_plain (h : ∀ c ∈ cs, c ≠ '<' ∧ c ≠ '>') : Nested cs := by
  induction cs with
  | nil => exact .nil
  | cons c cs ih =>
    obtain ⟨⟨hopen, hclose⟩, hcs⟩ := List.forall_mem_cons.mp h
    exact .char hopen hclose (ih hcs)

theorem append (hfront : Nested front) (h : Nested cs) : Nested (front ++ cs) := by
  induction hfront with
  | nil => exact h
  | char hopen hclose _ ih => exact .char hopen hclose ih
  | @arguments args rest hargs _ _ ih =>
    have hcs : ('<' :: (args ++ '>' :: rest)) ++ cs = '<' :: (args ++ '>' :: (rest ++ cs)) := by simp
    rw [hcs]
    exact .arguments hargs ih

theorem isNested_append (h : Nested front) (depth : Nat) (cs : List Char) :
    isNested depth (front ++ cs) = isNested depth cs := by
  induction h generalizing depth cs with
  | nil => rfl
  | char hopen hclose _ ih => rw [List.cons_append, isNested, if_neg hopen, if_neg hclose, ih]
  | @arguments args rest _ _ ihargs ih =>
    have hcs : ('<' :: (args ++ '>' :: rest)) ++ cs = '<' :: (args ++ '>' :: (rest ++ cs)) := by simp
    rw [hcs, isNested, if_pos rfl, ihargs, isNested, if_neg (by decide), if_pos rfl, ih]
    simp

theorem isNested (h : Nested cs) : Fallback.isNested 0 cs = true := by
  have hwhole := h.isNested_append 0 []
  rw [List.append_nil] at hwhole
  exact hwhole

/-- A text with `depth` closing brackets that have no opening one, and all others in pairs. -/
def Closes : Nat → List Char → Prop
  | 0, cs => Nested cs
  | depth + 1, cs => ∃ args rest, cs = args ++ '>' :: rest ∧ Nested args ∧ Closes depth rest

theorem Closes.append {depth : Nat} (hfront : Nested front) (h : Closes depth cs) :
    Closes depth (front ++ cs) := by
  cases depth with
  | zero => exact hfront.append h
  | succ depth =>
    obtain ⟨args, rest, rfl, hargs, hrest⟩ := h
    exact ⟨front ++ args, rest, by simp, hfront.append hargs, hrest⟩

theorem closes_of_isNested {depth : Nat} (h : Fallback.isNested depth cs = true) :
    Closes depth cs := by
  induction cs generalizing depth with
  | nil =>
    obtain rfl : depth = 0 := by simpa [Fallback.isNested] using h
    exact .nil
  | cons c cs ih =>
    rw [Fallback.isNested] at h
    split_ifs at h with hopen hclose
    · subst hopen
      obtain ⟨args, rest, rfl, hargs, hrest⟩ := ih h
      have hpair : Nested ('<' :: (args ++ '>' :: [])) := .arguments hargs .nil
      simpa using Closes.append hpair hrest
    · subst hclose
      obtain ⟨hdepth, h⟩ := Bool.and_eq_true_iff.mp h
      obtain ⟨depth, rfl⟩ : ∃ n, depth = n + 1 :=
        Nat.exists_eq_succ_of_ne_zero (by simpa using hdepth)
      exact ⟨[], cs, rfl, .nil, ih h⟩
    · exact Closes.append (.char hopen hclose .nil) (ih h)

theorem iff_isNested : Nested cs ↔ Fallback.isNested 0 cs = true :=
  ⟨isNested, closes_of_isNested⟩

instance (cs : List Char) : Decidable (Nested cs) := decidable_of_iff _ iff_isNested.symm

/-- Type arguments have no part in an erasure, whatever stands around them. -/
theorem eraseArguments_arguments {args : List Char} (h : Nested args) (depth : Nat)
    (front rest : List Char) :
    eraseArguments depth (front ++ '<' :: (args ++ '>' :: rest)) =
      eraseArguments depth (front ++ rest) :=
  Fallback.eraseArguments_arguments h.isNested depth front rest

theorem openAngles_eq (h : Nested cs) (depth : Nat) : openAngles depth cs = depth := by
  induction h generalizing depth with
  | nil => rfl
  | char hopen hclose _ ih => rw [openAngles, if_neg hopen, if_neg hclose, ih]
  | arguments _ _ ihargs ih =>
    rw [openAngles, if_pos rfl, openAngles_append, ihargs, openAngles, if_neg (by decide), if_pos rfl,
      Nat.add_sub_cancel, ih]

/-- Behind paired brackets, what follows is erased by itself. -/
theorem eraseArguments_append (h : Nested front) (cs : List Char) :
    eraseArguments 0 (front ++ cs) = eraseArguments 0 front ++ eraseArguments 0 cs := by
  rw [eraseArguments_append_open, h.openAngles_eq]

end Nested

/-! ## Texts that are erased already -/

theorem eraseArguments_space {gap : List Char} (hgap : ∀ c ∈ gap, isSpace c) (depth : Nat)
    (front rest : List Char) :
    eraseArguments depth (front ++ gap ++ rest) = eraseArguments depth (front ++ rest) := by
  have hnone : compact gap = [] := by
    rw [compact, List.filter_eq_nil_iff]
    intro c hc
    simp [hgap c hc]
  rw [← Source.eraseArguments_compact, ← Source.eraseArguments_compact depth (front ++ rest)]
  simp only [compact_append, hnone, List.append_nil]

theorem ne_of_mem_eraseArguments {depth : Nat} {cs : List Char} {c : Char}
    (h : c ∈ eraseArguments depth cs) : c ≠ '<' ∧ c ≠ '>' := by
  induction cs generalizing depth with
  | nil => cases h
  | cons d cs ih =>
    unfold eraseArguments at h
    split_ifs at h with hopen hclose
    · exact ih h
    · exact ih h
    · exact ih h
    · rcases List.mem_cons.mp h with rfl | h
      · exact ⟨hopen, hclose⟩
      · exact ih h

theorem ne_of_mem_eraseChars {cs : List Char} {c : Char} (h : c ∈ eraseChars cs) :
    c ≠ '<' ∧ c ≠ '>' := by
  unfold eraseChars varargsToArray at h
  split at h
  · rename_i base hbase
    rcases List.mem_append.mp h with h | h
    · have hmem := List.mem_append_left ['.', '.', '.'] h
      rw [← stripEnd?_eq_some_iff.mp hbase] at hmem
      exact ne_of_mem_eraseArguments hmem
    · have hsquares : ∀ c ∈ ['[', ']'], c ≠ '<' ∧ c ≠ '>' := by simp
      exact hsquares c h
  · exact ne_of_mem_eraseArguments h

theorem varargsToArray_of_not_suffix {cs : List Char} (h : ¬ ['.', '.', '.'] <:+ cs) :
    varargsToArray cs = cs := by
  unfold varargsToArray
  split
  · rename_i base hbase
    exact absurd ⟨base, (stripEnd?_eq_some_iff.mp hbase).symm⟩ h
  · rfl

theorem dots_not_suffix_eraseChars (cs : List Char) : ¬ ['.', '.', '.'] <:+ eraseChars cs := by
  unfold eraseChars varargsToArray
  intro h
  split at h
  · have hlast := h.getLast (by decide)
    simp at hlast
  · rename_i hnone
    obtain ⟨base, hbase⟩ := h
    rw [stripEnd?_eq_some_iff.mpr hbase.symm] at hnone
    cases hnone

theorem eraseArguments_of_plain {cs : List Char}
    (h : ∀ c ∈ cs, (c ≠ '<' ∧ c ≠ '>') ∧ isSpace c = false) : eraseArguments 0 cs = cs := by
  induction cs with
  | nil => rfl
  | cons c cs ih =>
    obtain ⟨⟨⟨hopen, hclose⟩, hspace⟩, hcs⟩ := List.forall_mem_cons.mp h
    rw [eraseArguments_cons hopen hclose hspace, ih hcs]

theorem eraseChars_eraseChars (cs : List Char) : eraseChars (eraseChars cs) = eraseChars cs := by
  have hplain : ∀ c ∈ eraseChars cs, (c ≠ '<' ∧ c ≠ '>') ∧ isSpace c = false :=
    fun c hc => ⟨ne_of_mem_eraseChars hc, isSpace_of_mem_eraseChars hc⟩
  have harguments := eraseArguments_of_plain hplain
  rw [eraseChars, harguments, varargsToArray_of_not_suffix (dots_not_suffix_eraseChars cs)]

theorem eraseChars_eq_of_erase_eq {s t : String} (h : erase s = erase t) :
    eraseChars s.toList = eraseChars t.toList := String.ofList_inj.mp h

theorem erase_erase (s : String) : erase (erase s) = erase s := by
  rw [erase, erase, String.toList_ofList, eraseChars_eraseChars]

/-! ## Texts of one erasure -/

/-- What erasure does not see. -/
inductive Padded : String → String → Prop where
  | space (front : String) {gap : String} (hgap : ∀ c ∈ gap.toList, isSpace c) (rest : String) :
    Padded (front ++ gap ++ rest) (front ++ rest)
  | arguments (front : String) {args : String} (hargs : Nested args.toList) (rest : String) :
    Padded (front ++ "<" ++ args ++ ">" ++ rest) (front ++ rest)
  | varargs (front : String) : Padded (front ++ "...") (front ++ "[]")

theorem Padded.erase_eq {s t : String} (h : Padded s t) : erase s = erase t := by
  unfold erase
  cases h with
  | space front hgap rest =>
    simp only [String.toList_append, eraseChars, eraseArguments_space hgap]
  | @arguments front args hargs rest =>
    have hopen : "<".toList = ['<'] := rfl
    have hclose : ">".toList = ['>'] := rfl
    have herased := hargs.eraseArguments_arguments 0 front.toList rest.toList
    simp only [String.toList_append, eraseChars, hopen, hclose, List.append_assoc,
      List.cons_append, List.nil_append, herased]
  | varargs front =>
    have hdots : "...".toList = ['.', '.', '.'] := rfl
    have hsquares : "[]".toList = ['[', ']'] := rfl
    simp only [String.toList_append, hdots, hsquares, eraseChars_varargs]

theorem erase_eq_of_eqvGen {s t : String} (h : Relation.EqvGen Padded s t) : erase s = erase t := by
  induction h with
  | rel _ _ h => exact h.erase_eq
  | refl => rfl
  | symm _ _ _ ih => exact ih.symm
  | trans _ _ _ _ _ ih ih' => exact ih.trans ih'

theorem eqvGen_eraseArguments {cs : List Char} (h : Nested cs) (front : List Char) :
    Relation.EqvGen Padded (.ofList (front ++ cs)) (.ofList (front ++ eraseArguments 0 cs)) := by
  -- what is left of the text so far comes along in `front`
  induction h generalizing front with
  | nil => exact .refl _
  | @char c cs hopen hclose _ ih =>
    by_cases hc : isSpace c
    · have hgap : ∀ d ∈ (String.ofList [c]).toList, isSpace d := by simpa using hc
      have hstep := Padded.space (.ofList front) hgap (.ofList cs)
      simp only [← String.ofList_append, List.append_assoc, List.singleton_append] at hstep
      have herased : eraseArguments 0 (c :: cs) = eraseArguments 0 cs := by
        rw [eraseArguments, if_neg hopen, if_neg hclose, hc, Bool.true_or, if_pos rfl]
      rw [herased]
      exact .trans _ _ _ (.rel _ _ hstep) (ih front)
    · rw [eraseArguments_cons hopen hclose (Bool.eq_false_iff.mpr hc)]
      simpa using ih (front ++ [c])
  | @arguments args cs hargs _ _ ih =>
    have hargs' : Nested (String.ofList args).toList := by rwa [String.toList_ofList]
    have hopen : "<" = String.ofList ['<'] := rfl
    have hclose : ">" = String.ofList ['>'] := rfl
    have hstep := Padded.arguments (.ofList front) hargs' (.ofList cs)
    simp only [hopen, hclose, ← String.ofList_append, List.append_assoc, List.singleton_append]
      at hstep
    have herased := hargs.eraseArguments_arguments 0 [] cs
    rw [List.nil_append, List.nil_append] at herased
    rw [herased]
    exact .trans _ _ _ (.rel _ _ hstep) (ih front)

theorem eqvGen_varargsToArray (cs : List Char) :
    Relation.EqvGen Padded (.ofList cs) (.ofList (varargsToArray cs)) := by
  unfold varargsToArray
  split
  · rename_i base hbase
    have hstep := Padded.varargs (.ofList base)
    have hdots : "..." = String.ofList ['.', '.', '.'] := rfl
    have hsquares : "[]" = String.ofList ['[', ']'] := rfl
    rw [stripEnd?_eq_some_iff.mp hbase]
    simp only [hdots, hsquares, ← String.ofList_append] at hstep
    exact .rel _ _ hstep
  · exact .refl _

theorem eqvGen_erase {s : String} (h : Nested s.toList) : Relation.EqvGen Padded s (erase s) := by
  have hcs := eqvGen_eraseArguments h []
  simp only [List.nil_append, String.ofList_toList] at hcs
  exact .trans _ _ _ hcs (eqvGen_varargsToArray _)

theorem erase_eq_iff {s t : String} (hs : Nested s.toList) (ht : Nested t.toList) :
    erase s = erase t ↔ Relation.EqvGen Padded s t := by
  constructor
  · intro h
    have hback : Relation.EqvGen Padded (erase s) t := h ▸ (eqvGen_erase ht).symm
    exact .trans _ _ _ (eqvGen_erase hs) hback
  · exact erase_eq_of_eqvGen

/-! ## What looks at erasures only -/

/-- Two methods whose types have the same erasures, one by one. -/
structure SameErasure (m m' : Method) : Prop where
  returnType : erase m.returnType = erase m'.returnType
  parameterTypes : List.Forall₂ (fun s t => erase s = erase t) m.parameterTypes m'.parameterTypes

theorem ofTypeChars_congr {s t : String} (h : erase s = erase t) :
    Descriptor.ofTypeChars s.toList = Descriptor.ofTypeChars t.toList := by
  rw [Descriptor.ofTypeChars, Descriptor.ofTypeChars, eraseChars_eq_of_erase_eq h]

theorem displayType_congr {s t : String} (h : erase s = erase t) : displayType s = displayType t := by
  unfold displayType
  rw [eraseChars_eq_of_erase_eq h]

namespace SameErasure
variable {m m' n n' : Method}

theorem map_eq {α : Type} (h : SameErasure m m') (f : String → α)
    (hf : ∀ s t, erase s = erase t → f s = f t) : m.parameterTypes.map f = m'.parameterTypes.map f := by
  have hall := h.parameterTypes.imp hf
  rwa [← List.forall₂_eq_eq_eq, List.forall₂_map_left_iff, List.forall₂_map_right_iff]

theorem typesDescriptor (h : SameErasure m m') : m.typesDescriptor = m'.typesDescriptor := by
  have hparameters := h.map_eq (fun p => Descriptor.ofTypeChars p.toList)
    fun _ _ hst => ofTypeChars_congr hst
  rw [Method.typesDescriptor, Method.typesDescriptor, Descriptor.ofMethod, Descriptor.ofMethod,
    List.flatMap_def, hparameters, ofTypeChars_congr h.returnType, ← List.flatMap_def]

theorem expectedSignature (h : SameErasure m m') (name : String) :
    Fallback.expectedSignature name m = Fallback.expectedSignature name m' := by
  have hparameters := h.map_eq displayType fun _ _ hst => displayType_congr hst
  rw [Fallback.expectedSignature, Fallback.expectedSignature, hparameters,
    displayType_congr h.returnType]

theorem sameSignature (h : SameErasure m m') : SameSignature m m' where
  returnType := congrArg simpleName h.returnType
  parameterTypes := h.parameterTypes.imp fun _ _ hst => congrArg simpleName hst

end SameErasure

def erased (m : Method) : Method :=
  { m with returnType := erase m.returnType, parameterTypes := m.parameterTypes.map erase }

theorem sameErasure_erased (m : Method) : SameErasure m (erased m) where
  returnType := (erase_erase m.returnType).symm
  parameterTypes := by
    rw [erased, List.forall₂_map_right_iff, List.forall₂_same]
    intro s _
    exact (erase_erase s).symm

/-- White space and type arguments have no part in an erasure, wherever in a text they stand. What is
left is erased already, and of texts with paired brackets it tells the rest. Descriptors, compatible
signatures and expected ones come from erasures, so they do not tell types of one erasure apart. -/
theorem erase_exact :
    (∀ a w b : String, (∀ c ∈ w.toList, isSpace c) → erase (a ++ w ++ b) = erase (a ++ b)) ∧
    (∀ a g b : String, Nested g.toList → erase (a ++ "<" ++ g ++ ">" ++ b) = erase (a ++ b)) ∧
    (∀ s : String, erase (erase s) = erase s ∧
      (∀ c ∈ (erase s).toList, isSpace c = false ∧ c ≠ '<' ∧ c ≠ '>') ∧
      ¬ "...".toList <:+ (erase s).toList) ∧
    (∀ s t : String, Relation.EqvGen Padded s t → erase s = erase t) ∧
    (∀ s t : String, Nested s.toList → Nested t.toList → erase s = erase t →
      Relation.EqvGen Padded s t) ∧
    (∀ s t : String, erase s = erase t → Descriptor.ofType s = Descriptor.ofType t) ∧
    (∀ m : Method, SameErasure m (erased m)) ∧
    ∀ m m' : Method, SameErasure m m' → m.typesDescriptor = m'.typesDescriptor ∧
      (∀ name, expectedSignature name m = expectedSignature name m') ∧
      ∀ n n' : Method, SameErasure n n' → isCompatible m n = isCompatible m' n' := by
  refine ⟨?_, ?_, ?_, ?_, ?_, ?_, sameErasure_erased, ?_⟩
  · intro a w b hw
    exact (Padded.space a hw b).erase_eq
  · intro a g b hg
    exact (Padded.arguments a hg b).erase_eq
  · intro s
    refine ⟨erase_erase s, ?_, ?_⟩
    · intro c hc
      rw [erase, String.toList_ofList] at hc
      exact ⟨isSpace_of_mem_eraseChars hc, ne_of_mem_eraseChars hc⟩
    · have herased : (erase s).toList = eraseChars s.toList := String.toList_ofList
      rw [herased]
      exact dots_not_suffix_eraseChars s.toList
  · intro s t h
    exact erase_eq_of_eqvGen h
  · intro s t hs ht h
    exact (erase_eq_iff hs ht).mp h
  · intro s t h
    exact congrArg String.ofList (ofTypeChars_congr h)
  · intro m m' h
    refine ⟨h.typesDescriptor, h.expectedSignature, ?_⟩
    intro n n' h'
    exact isCompatible_congr h.sameSignature h'.sameSignature

def merge : Method where
  name := "merge"
  returnType := "java.util.Map < String, java.util.List<Long> >"
  parameterTypes := ["> T [ ]", "Set<Map.Entry<K, V>>..."]

/-- Also behind a surplus bracket, and for arguments within arguments. -/
theorem erase_exact_merge :
    (erase ">T [ ]" = erase ">T[ ]" ∧
      erase ("> Set" ++ "<" ++ "Map.Entry<K, V>" ++ ">" ++ "...") = erase "> Set...") ∧
    erase (erase "Set<Map.Entry<K, V>>...") = erase "Set<Map.Entry<K, V>>..." ∧
    erase "Set<V>..." = erase "Set[]" ∧
    Relation.EqvGen Padded "Set<V>..." "Set [] " ∧
    Descriptor.ofType "Set<V>..." = Descriptor.ofType "Set [] " ∧
    merge.typesDescriptor = (erased merge).typesDescriptor ∧
    expectedSignature "mergeAll" merge = expectedSignature "mergeAll" (erased merge) ∧
    isCompatible merge (erased merge) = isCompatible (erased merge) merge := by
  obtain ⟨hspace, harguments, herased, hpadded, hexact, hdescriptor, hmethod, hmethods⟩ := erase_exact
  have hmerge := hmethod merge
  have hback : SameErasure (erased merge) merge :=
    ⟨hmerge.returnType.symm, (List.Forall₂.flip hmerge.parameterTypes).imp fun _ _ h => h.symm⟩
  have hsquares : erase "Set<V>..." = erase "Set [] " := by decide
  obtain ⟨hsame, hexpected, hcompatible⟩ := hmethods merge (erased merge) hmerge
  refine ⟨⟨hspace ">T" " " "[ ]" (List.all_eq_true.mp (by decide)), ?_⟩, (herased _).1, ?_, ?_, ?_, hsame,
    hexpected "mergeAll", hcompatible _ _ hback⟩
  · exact harguments "> Set" "Map.Entry<K, V>" "..." (by decide)
  · have hvariable := Padded.arguments "Set" (show Nested "V".toList by decide) "..."
    exact hpadded _ _ (.trans _ _ _ (.rel _ _ hvariable) (.rel _ _ (Padded.varargs "Set")))
  · exact hexact _ _ (by decide) (by decide) hsquares
  · exact hdescriptor _ _ hsquares

end FaultTolerance.Java.Naming
