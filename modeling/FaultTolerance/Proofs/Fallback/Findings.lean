import FaultTolerance.Model.Memory
import FaultTolerance.Proofs.Fallback.Signatures
import FaultTolerance.Proofs.Occurrences
import Mathlib.Data.Option.Basic

/-! Which references to fallback methods are reported. `Verdict` says what is wrong with a name,
`Flags` when an occurrence makes a finding, and `Reports` that the findings of a list of occurrences
come in its order, one at most for each. The check finds just these on a type and its methods. -/
namespace FaultTolerance.Fallback
open Java
set_option autoImplicit false

/-! ## Verdicts -/

/-- Whether `candidate` is the one method called `name`. -/
def Lone (methods : List Method) (name : String) (candidate : Method) : Prop :=
  ∃ before after, methods = before ++ candidate :: after ∧ candidate.name = name ∧
    ∀ m ∈ before ++ after, m.name ≠ name

/-- What is wrong with a reference to the method `name` of a type with these methods. -/
inductive Verdict (checkSignatures : Bool) (methods : List Method) (target : Target)
    (name : String) : Problem → Prop
  | missing (h : ∀ m ∈ methods, m.name ≠ name) :
      Verdict checkSignatures methods target name (.missingMethod name)
  | incompatible {annotated candidate : Method} (hcheck : checkSignatures = true)
      (htarget : target = .method annotated) (hlone : Lone methods name candidate)
      (hmismatch : Mismatch annotated candidate) :
      Verdict checkSignatures methods target name
        (.incompatibleSignature name (expectedSignature name annotated))

theorem filter_eq_nil_iff_missing {methods : List Method} {name : String} :
    methods.filter (·.name == name) = [] ↔ ∀ m ∈ methods, m.name ≠ name := by
  rw [List.filter_eq_nil_iff]
  simp only [beq_iff_eq, ne_eq]

theorem filter_eq_singleton_iff_lone {methods : List Method} {name : String} {candidate : Method} :
    methods.filter (·.name == name) = [candidate] ↔ Lone methods name candidate := by
  unfold Lone
  rw [List.filter_eq_cons_iff]
  constructor
  · rintro ⟨before, after, rfl, hbefore, hname, hafter⟩
    refine ⟨before, after, rfl, beq_iff_eq.mp hname, ?_⟩
    intro m hm
    rcases List.mem_append.mp hm with hm | hm
    · exact fun he => hbefore m hm (beq_iff_eq.mpr he)
    · exact filter_eq_nil_iff_missing.mp hafter m hm
  · rintro ⟨before, after, rfl, hname, hother⟩
    refine ⟨before, after, rfl, ?_, beq_iff_eq.mpr hname, ?_⟩
    · exact fun m hm he => hother m (List.mem_append_left _ hm) (beq_iff_eq.mp he)
    · exact filter_eq_nil_iff_missing.mpr fun m hm => hother m (List.mem_append_right _ hm)

theorem verdict_iff_missing {checkSignatures : Bool} {methods : List Method} {target : Target}
    {name : String} {problem : Problem} (h : methods.filter (·.name == name) = []) :
    Verdict checkSignatures methods target name problem ↔ problem = .missingMethod name := by
  have hmissing := filter_eq_nil_iff_missing.mp h
  constructor
  · rintro (_ | ⟨_, _, hlone, _⟩)
    · rfl
    · rw [filter_eq_singleton_iff_lone.mpr hlone] at h
      cases h
  · rintro rfl
    exact .missing hmissing

theorem verdict_iff_incompatible {checkSignatures : Bool} {methods others : List Method}
    {target : Target} {name : String} {problem : Problem} {candidate : Method}
    (h : methods.filter (·.name == name) = candidate :: others) :
    Verdict checkSignatures methods target name problem ↔
      others = [] ∧ checkSignatures = true ∧ ∃ annotated, target = .method annotated ∧
        Mismatch annotated candidate ∧
        problem = .incompatibleSignature name (expectedSignature name annotated) := by
  constructor
  · rintro (hmissing | ⟨hcheck, htarget, hlone, hmismatch⟩)
    · rw [filter_eq_nil_iff_missing.mpr hmissing] at h
      cases h
    · rw [filter_eq_singleton_iff_lone.mpr hlone] at h
      cases h
      exact ⟨rfl, hcheck, _, htarget, hmismatch, rfl⟩
  · rintro ⟨rfl, hcheck, annotated, htarget, hmismatch, rfl⟩
    exact .incompatible hcheck htarget (filter_eq_singleton_iff_lone.mp h) hmismatch

theorem problem?_eq_some {checkSignatures : Bool} {methods : List Method} {target : Target}
    {name : String} {problem : Problem} :
    problem? checkSignatures methods target name = some problem ↔
      Verdict checkSignatures methods target name problem := by
  unfold problem?
  cases hc : methods.filter (·.name == name) with
  | nil =>
    rw [verdict_iff_missing hc]
    simp only [Option.some.injEq, eq_comm]
  | cons candidate others =>
    rw [verdict_iff_incompatible hc]
    cases others with
    | cons _ _ => simp
    | nil =>
      cases target with
      | type => simp
      | field _ => simp
      | method annotated =>
        simp only [← isCompatible_eq_false]
        cases checkSignatures with
        | false => simp
        | true =>
          cases hi : isCompatible annotated candidate with
          | true => simp [hi]
          | false =>
            simp [hi]
            exact eq_comm

/-! ## One occurrence -/

/-- The findings of an occurrence: its annotation denotes `Fallback`, and the first member called
`fallbackMethod` is a string, not the empty one, that fails the check. The member's range, or the
annotation's, is reported. -/
inductive Flags (model : Model) (checkSignatures : Bool) (methods : List Method) (o : Occurrence) :
    Finding → Prop
  | of {member : Member} {name : String} {problem : Problem}
      (hfallback : Catalog.resolve? o.annotation = some Catalog.fallback)
      (hmember : o.annotation.member? "fallbackMethod" = some member)
      (hvalue : member.value = .string name) (hname : name ≠ "")
      (hverdict : Verdict checkSignatures methods o.target name problem) :
      Flags model checkSignatures methods o
        ⟨((model.rangeOf member).orElse fun _ => o.annotation.range).getD default, problem⟩

theorem finding?_eq (model : Model) (check : Bool) (methods : List Method) (o : Occurrence) :
    finding? model check methods o =
      if o.spec.qualifiedName == Catalog.fallback.qualifiedName then
        o.annotation.member? Catalog.fallbackMethod |>.bind fun member =>
          member.value.stringText?.bind fun name =>
            if name = "" then none
            else (problem? check methods o.target name).map fun problem =>
              ⟨((model.rangeOf member).orElse fun _ => o.annotation.range).getD default, problem⟩
      else none := by
  unfold finding? guard
  split
  · change ( o.annotation.member? Catalog.fallbackMethod).bind _ = _
    refine congrArg _ (funext fun member => congrArg _ (funext fun name => ?_))
    by_cases hempty : name = ""
    · rw [if_neg (not_not_intro hempty), if_pos hempty]
      rfl
    · rw [if_pos hempty, if_neg hempty, Option.map_eq_bind]
      rfl
  · rfl

theorem stringText?_eq_some {v : Value} {name : String} :
    v.stringText? = some name ↔ v = .string name := by
  cases v <;> simp [Value.stringText?]

theorem spec_is_fallback {o : Occurrence} (h : Catalog.resolve? o.annotation = some o.spec) :
    (o.spec.qualifiedName == Catalog.fallback.qualifiedName) = true ↔
      Catalog.resolve? o.annotation = some Catalog.fallback := by
  rw [beq_iff_eq, h, Option.some.injEq]
  constructor
  · exact Catalog.eq_of_qualifiedName (Catalog.mem_of_resolve? h) Catalog.fallback_mem_annotations
  · exact congrArg Catalog.Spec.qualifiedName

theorem finding?_eq_some {model : Model} {checkSignatures : Bool} {methods : List Method}
    {o : Occurrence} (h : Catalog.resolve? o.annotation = some o.spec) {f : Finding} :
    finding? model checkSignatures methods o = some f ↔
      Flags model checkSignatures methods o f := by
  unfold finding?
  simp only [Option.bind_eq_bind, Option.bind_eq_some_iff, Option.guard_eq_some', spec_is_fallback h]
  constructor
  · rintro ⟨_, hfallback, member, hmember, name, htext, _, hname, problem, hproblem, hf⟩
    cases hf
    exact .of hfallback hmember (stringText?_eq_some.mp htext) hname (problem?_eq_some.mp hproblem)
  · rintro ⟨hfallback, hmember, hvalue, hname, hverdict⟩
    exact ⟨(), hfallback, _, hmember, _, stringText?_eq_some.mpr hvalue, (), hname, _,
      problem?_eq_some.mpr hverdict, rfl⟩

/-- What a problem with a signature was found for. -/
theorem verdict_of_finding? {model : Model} {checkSignatures : Bool} {methods : List Method}
    {o : Occurrence} (h : Catalog.resolve? o.annotation = some o.spec) {f : Finding}
    (hf : finding? model checkSignatures methods o = some f) {name expected : String}
    (hproblem : f.problem = .incompatibleSignature name expected) :
    Verdict checkSignatures methods o.target name (.incompatibleSignature name expected) := by
  cases (finding?_eq_some h).mp hf with
  | of _ _ _ _ hverdict =>
    cases hverdict with
    | missing _ => cases hproblem
    | incompatible hcheck htarget hlone hmismatch =>
      cases hproblem
      exact .incompatible hcheck htarget hlone hmismatch

/-! ## The occurrences of a type -/

/-- The findings of a list of occurrences, in its order, one at most for each. -/
inductive Reports (flags : Occurrence → Finding → Prop) : List Occurrence → List Finding → Prop
  | nil : Reports flags [] []
  | found {o : Occurrence} {f : Finding} {found : List Occurrence} {findings : List Finding}
      (hf : flags o f) (h : Reports flags found findings) :
      Reports flags (o :: found) (f :: findings)
  | clean {o : Occurrence} {found : List Occurrence} {findings : List Finding}
      (hf : ∀ f, ¬ flags o f) (h : Reports flags found findings) :
      Reports flags (o :: found) findings

theorem reports_filterMap {flags : Occurrence → Finding → Prop} {g : Occurrence → Option Finding}
    {found : List Occurrence} (h : ∀ o ∈ found, ∀ f, g o = some f ↔ flags o f) :
    Reports flags found (found.filterMap g) := by
  induction found with
  | nil => exact .nil
  | cons o found ih =>
    have hrest := ih fun o' ho' => h o' (List.mem_cons_of_mem _ ho')
    have ho := h o List.mem_cons_self
    cases hg : g o with
    | some f =>
      rw [List.filterMap_cons_some hg]
      exact .found ((ho f).mp hg) hrest
    | none =>
      rw [List.filterMap_cons_none hg]
      refine .clean (fun f hf => ?_) hrest
      rw [(ho f).mpr hf] at hg
      cases hg

/-- The occurrences on a type and its methods, in the order of the search. -/
def policyOccurrences (model : Model) (t : JavaType) (methods : List Method) : List Occurrence :=
  Occurrence.among t .type (model.annotationsOn (.type t)) ++
    methods.flatMap fun m => Occurrence.among t (.method m) (model.annotationsOn (.method t m))

def fieldOccurrences (model : Model) (t : JavaType) : List Occurrence :=
  t.fields.flatMap fun f => Occurrence.among t (.field f) (model.annotationsOn (.field t f))

theorem findings_of_readable {model : Model} {id : Nat} {t : JavaType} {methods : List Method}
    (ht : model.type id = .ok t) (hm : model.methodsOf id = .ok methods) (checkSignatures : Bool) :
    findings model checkSignatures id =
      .ok ((Occurrence.ofType model t methods).filterMap
        (finding? model checkSignatures methods)) := by
  unfold findings Occurrence.inType
  rw [hm, ht]
  rfl

theorem findings_congr {model model' : Model} {id : Nat} {t : JavaType} {methods : List Method}
    (ht : model.type id = .ok t) (hm : model.methodsOf id = .ok methods)
    (ht' : model'.type id = .ok t) (hm' : model'.methodsOf id = .ok methods)
    (ha : ∀ target ∈ Occurrence.targets t methods,
      model'.annotationsOn (target.element t) = model.annotationsOn (target.element t))
    (hrange : model'.rangeOf = model.rangeOf) (checkSignatures : Bool) :
    findings model' checkSignatures id = findings model checkSignatures id := by
  have hfound : Occurrence.ofType model' t methods = Occurrence.ofType model t methods := by
    rw [Occurrence.ofType_eq_flatMap, Occurrence.ofType_eq_flatMap]
    apply List.flatMap_congr
    intro target htarget
    rw [ha target htarget]
  have hfinding : finding? model' checkSignatures methods =
      finding? model checkSignatures methods := by
    funext o
    unfold finding?
    rw [hrange]
  rw [findings_of_readable ht hm, findings_of_readable ht' hm', hfound, hfinding]

/-- The check of a type that can be read finds what `Flags` says on the type and its methods, and
nothing else there, whether signatures are checked or not. Other types have no say in it. -/
theorem findings_sound_complete (model : Model) (checkSignatures : Bool) (id : Nat) (t : JavaType)
    (methods : List Method) (ht : model.type id = .ok t) (hm : model.methodsOf id = .ok methods) :
    (∃ onPolicies onFields,
      findings model checkSignatures id = .ok (onPolicies ++ onFields) ∧
      Reports (Flags model checkSignatures methods) (policyOccurrences model t methods) onPolicies ∧
      onFields = (fieldOccurrences model t).filterMap (finding? model checkSignatures methods)) ∧
    ∀ model' : Model, model'.type id = .ok t → model'.methodsOf id = .ok methods →
      (∀ target ∈ Occurrence.targets t methods,
        model'.annotationsOn (target.element t) = model.annotationsOn (target.element t)) →
      model'.rangeOf = model.rangeOf →
      findings model' checkSignatures id = findings model checkSignatures id := by
  have hsplit : Occurrence.ofType model t methods =
      policyOccurrences model t methods ++ fieldOccurrences model t := rfl
  refine ⟨⟨(policyOccurrences model t methods).filterMap (finding? model checkSignatures methods),
    _, ?_, ?_, rfl⟩, ?_⟩
  · rw [findings_of_readable ht hm, hsplit, List.filterMap_append]
  · apply reports_filterMap
    intro o ho f
    have hmem : o ∈ Occurrence.ofType model t methods := by
      rw [hsplit]
      exact List.mem_append_left _ ho
    exact finding?_eq_some (Occurrence.mem_ofType.mp hmem).2.2.2
  · intro model' ht' hm' ha hrange
    exact findings_congr ht hm ht' hm' ha hrange checkSignatures

def referTo (name : String) : Annotation where
  name := "Fallback"
  members := [⟨"fallbackMethod", .string name, none⟩]

/-- A resource with a reference to no method, one to a method of another return type, and one that
is right. -/
def refundResource : JavaType where
  name := "org.acme.RefundResource"
  kind := .classType
  origin := .source "file:///RefundResource.java"
  methods := [
    { name := "read", returnType := "String", parameterTypes := [], annotations := [referTo "gone"] },
    { name := "pay", returnType := "void", parameterTypes := ["int"],
      annotations := [referTo "recover"] },
    { name := "list", returnType := "java.lang.String", parameterTypes := ["int"],
      annotations := [referTo "recover"] },
    { name := "recover", returnType := "String", parameterTypes := [] }]

def refunds : Model := ((MemoryModel.named "refunds").addType refundResource).2.toModel

theorem findings_sound_complete_refunds :
    ∃ onPolicies, findings refunds true 0 = .ok onPolicies ∧
      Reports (Flags refunds true refundResource.methods)
        (policyOccurrences refunds refundResource refundResource.methods) onPolicies ∧
      onPolicies.map (·.problem) =
        [.missingMethod "gone", .incompatibleSignature "recover" "void recover(int)"] := by
  obtain ⟨⟨onPolicies, onFields, hfindings, hreports, hfields⟩, _⟩ :=
    findings_sound_complete refunds true 0 refundResource refundResource.methods rfl rfl
  obtain rfl : onFields = [] := hfields
  rw [List.append_nil] at hfindings
  refine ⟨onPolicies, hfindings, hreports, ?_⟩
  have heval : (findings refunds true 0).toOption.map (·.map (·.problem)) =
      some [.missingMethod "gone", .incompatibleSignature "recover" "void recover(int)"] := by
    decide +kernel
  rw [hfindings] at heval
  exact Option.some.inj heval

end FaultTolerance.Fallback
