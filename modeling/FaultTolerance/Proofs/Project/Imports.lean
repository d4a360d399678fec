import FaultTolerance.Proofs.Project.Building
import FaultTolerance.Proofs.Source.Nesting
import FaultTolerance.Proofs.Source.Uses
import Mathlib.Data.List.TakeWhile

/-! Types seen through imports. An import writes the canonical name of a type, whose dots stand between
nested types too; a declaration gives the type a name with dollar signs there. The two are one name for
types at top level, and an import of such a type reads as the type itself. For a nested type they differ:
a single-type import gives the canonical name, and an on-demand import of the type around it gives
nothing (`SourceUnit.imported_type_read_as`). -/
namespace FaultTolerance
namespace Java.Source
open Text
set_option autoImplicit false

/-! ## Canonical names -/

theorem simple_of_importedName_qualify (outer : String) {name : String} (hname : IsSimpleName name) :
    (NameScope.importedName (qualify outer '.' name)).1 = name := by
  have hdots : ∀ d ∈ name.toList, (decide (d = '.')) = false := by
    intro d hd
    have hundotted := hname.undotted
    rw [← Bool.not_eq_true, List.contains_iff_mem] at hundotted
    exact decide_eq_false fun h => hundotted (h ▸ hd)
  unfold NameScope.importedName qualify
  split
  · rw [lastSegment_self hdots, String.ofList_toList]
  · rw [String.toList_append, String.toList_append, List.append_assoc]
    have hdot : ('.' : Char).toString.toList ++ name.toList = '.' :: name.toList := rfl
    rw [hdot, lastSegment_append_cons (by decide), lastSegment_self hdots, String.ofList_toList]

/-- The canonical name of what stands around a type. -/
def canonicalOuter (outer : String) : List TypeSyntax → String
  | [] => outer
  | t :: path => canonicalOuter (qualify outer '.' t.simple) path

/-- The name that sources write for a type inside `outer`: dots stand everywhere. -/
def canonicalName (outer : String) (path : List TypeSyntax) (t : TypeSyntax) : String :=
  qualify (canonicalOuter outer path) '.' t.simple

theorem canonicalOuter_ne_empty {outer : String} (houter : outer ≠ "") (path : List TypeSyntax)
    (hpath : ∀ u ∈ path, u.simple ≠ "") : canonicalOuter outer path ≠ "" := by
  induction path generalizing outer with
  | nil => exact houter
  | cons u path ih =>
    exact ih (qualify_ne_empty outer '.' (hpath u List.mem_cons_self)) fun v hv =>
      hpath v (List.mem_cons_of_mem u hv)

theorem qualifiedName_nested {outer : String} (houter : outer ≠ "") (path : List TypeSyntax)
    (hpath : ∀ u ∈ path, u.simple ≠ "") (t : TypeSyntax) :
    ∃ outer' ≠ "", qualifiedName outer '$' path t = qualify outer' '$' t.simple := by
  induction path generalizing outer with
  | nil => exact ⟨outer, houter, rfl⟩
  | cons u path ih =>
    exact ih (qualify_ne_empty outer '$' (hpath u List.mem_cons_self)) fun v hv =>
      hpath v (List.mem_cons_of_mem u hv)

theorem qualify_dollar_ne_dot {outer outer' : String} (houter : outer ≠ "") (houter' : outer' ≠ "")
    (name : String) : qualify outer '$' name ≠ qualify outer' '.' name := by
  intro h
  unfold qualify at h
  rw [if_neg (by simpa using houter), if_neg (by simpa using houter')] at h
  have hchars := congrArg String.toList h
  simp only [String.toList_append, List.append_assoc] at hchars
  have hend := (List.append_inj' hchars (by simp)).2
  exact absurd (List.append_inj_left hend (by simp)) (by decide)

/-- The canonical name is the name of the type for a type at top level and for no other. -/
theorem canonicalName_eq_iff (outer : String) (path : List TypeSyntax)
    (hpath : ∀ u ∈ path, u.simple ≠ "") (t : TypeSyntax) :
    canonicalName outer path t = qualifiedName outer '.' path t ↔ path = [] := by
  cases path with
  | nil => exact iff_of_true rfl rfl
  | cons u path =>
    have hu := qualify_ne_empty outer '.' (hpath u List.mem_cons_self)
    have hrest : ∀ v ∈ path, v.simple ≠ "" := fun v hv => hpath v (List.mem_cons_of_mem u hv)
    obtain ⟨outer', houter', hname⟩ := qualifiedName_nested hu path hrest t
    refine iff_of_false ?_ (List.cons_ne_nil u path)
    rw [qualifiedName, hname]
    exact (qualify_dollar_ne_dot houter' (canonicalOuter_ne_empty hu path hrest) t.simple).symm

/-! ## The tables of imports -/

/-- The name that an import writes. -/
def ImportSyntax.written (i : ImportSyntax) : String := Token.compactText i.path

/-- Whether an import is for one type. -/
def ImportSyntax.isSingle (i : ImportSyntax) : Bool := !i.isStatic && !i.onDemand

/-- Whether an import is for all types in what it names. -/
def ImportSyntax.isForAll (i : ImportSyntax) : Bool := i.onDemand && !i.isStatic

theorem mem_imported {known : List String} {o : Outline} {name q : String} :
    (name, q) ∈ (NameScope.ofOutline known o).imported ↔
      ∃ i ∈ o.imports, i.isSingle ∧ NameScope.importedName i.written = (name, q) := by
  unfold NameScope.ofOutline ImportSyntax.isSingle ImportSyntax.written
  simp only [List.mem_reverse, List.mem_map, List.mem_filter, Bool.and_eq_true, and_assoc]

/-- What the imports on demand among some imports name. -/
def namesForAll (imports : List ImportSyntax) : List String :=
  (imports.filter ImportSyntax.isForAll).map ImportSyntax.written

theorem onDemand_ofOutline (known : List String) (o : Outline) :
    (NameScope.ofOutline known o).onDemand = namesForAll o.imports :=
  congrArg (List.map ImportSyntax.written) List.filter_filter

theorem knownIn?_eq_some_iff {s : NameScope} {package name q : String} :
    s.knownIn? package name = some q ↔ q = package ++ "." ++ name ∧ q ∈ s.known := by
  unfold NameScope.knownIn?
  simp only [Option.ite_none_right_eq_some, List.contains_iff_mem, Option.some.injEq]
  constructor
  · rintro ⟨hmem, rfl⟩
    exact ⟨rfl, hmem⟩
  · rintro ⟨rfl, hmem⟩
    exact ⟨hmem, rfl⟩

/-- Nothing else than `canonical` is offered under `name` to a source: not by its own types, its
single-type imports, its package or the imports in `earlier`. -/
structure OffersOnly (known : List String) (o : Outline) (earlier : List ImportSyntax)
    (name canonical : String) : Prop where
  own : name ∉ o.declaredNames.map Prod.snd
  single : ∀ i ∈ o.imports, i.isSingle → (NameScope.importedName i.written).1 = name →
    i.written = canonical
  package : ∀ p, o.packageName? = some p → p ++ "." ++ name ∈ known → p ++ "." ++ name = canonical
  onDemand : ∀ i ∈ earlier, i.isForAll → i.written ++ "." ++ name ∈ known →
    i.written ++ "." ++ name = canonical

/-! ## Resolution through an import -/

section
variable {known : List String} {o : Outline} {name canonical : String}

theorem OffersOnly.declared {earlier : List ImportSyntax}
    (h : OffersOnly known o earlier name canonical) :
    (NameScope.ofOutline known o).declared.lookup name = none := by
  rw [List.lookup_eq_none_iff]
  intro p hp
  obtain ⟨⟨q, n⟩, hmem, rfl⟩ := List.mem_map.mp hp
  refine bne_iff_ne.mpr fun hname => h.own ?_
  exact List.mem_map.mpr ⟨(q, n), List.mem_reverse.mp hmem, hname.symm⟩

theorem OffersOnly.eq_of_imported {earlier : List ImportSyntax} {q : String}
    (h : OffersOnly known o earlier name canonical)
    (hq : (name, q) ∈ (NameScope.ofOutline known o).imported) : q = canonical := by
  obtain ⟨i, hi, hsingle, himported⟩ := mem_imported.mp hq
  have hwritten := h.single i hi hsingle (congrArg Prod.fst himported)
  exact (congrArg Prod.snd himported).symm.trans hwritten

theorem resolve_of_single {i : ImportSyntax} (hname : IsSimpleName name)
    (h : OffersOnly known o [] name canonical)
    (hsimple : (NameScope.importedName canonical).1 = name) (hi : i ∈ o.imports)
    (hsingle : i.isSingle) (hwritten : i.written = canonical) :
    (NameScope.ofOutline known o).resolve name = canonical := by
  refine NameScope.resolve_imported hname h.declared (lookup_eq_some_of_unique ?_ ?_)
  · refine mem_imported.mpr ⟨i, hi, hsingle, ?_⟩
    rw [hwritten, ← hsimple]
    rfl
  · exact fun q hq => h.eq_of_imported hq

theorem eq_of_findSome?_knownIn? {s : NameScope} {imports : List ImportSyntax} {q : String}
    (h : (namesForAll imports).findSome? (s.knownIn? · name) = some q) :
    ∃ i ∈ imports, i.isForAll ∧ q = i.written ++ "." ++ name ∧ q ∈ s.known := by
  obtain ⟨p, hp, hq⟩ := List.exists_of_findSome?_eq_some h
  obtain ⟨i, hi, rfl⟩ := List.mem_map.mp hp
  obtain ⟨hmem, hfor⟩ := List.mem_filter.mp hi
  exact ⟨i, hmem, hfor, knownIn?_eq_some_iff.mp hq⟩

theorem namesForAll_split {before after : List ImportSyntax} {i : ImportSyntax} (hi : i.isForAll) :
    namesForAll (before ++ i :: after) = namesForAll before ++ i.written :: namesForAll after := by
  unfold namesForAll
  rw [List.filter_append, List.filter_cons_of_pos hi, List.map_append, List.map_cons]

/-- An import on demand of what a known type stands in. -/
theorem resolve_of_forAll {before after : List ImportSyntax} {i : ImportSyntax}
    (hname : IsSimpleName name) (h : OffersOnly known o before name canonical)
    (himports : o.imports = before ++ i :: after) (hi : i.isForAll)
    (hwritten : i.written ++ "." ++ name = canonical) (hknown : canonical ∈ known) :
    (NameScope.ofOutline known o).resolve name = canonical := by
  cases himported : (NameScope.ofOutline known o).imported.lookup name with
  | some q =>
    obtain ⟨l, l', hl, _⟩ := List.lookup_eq_some_iff.mp himported
    have hmem : (name, q) ∈ (NameScope.ofOutline known o).imported := by
      rw [hl]
      exact List.mem_append_right l List.mem_cons_self
    rw [NameScope.resolve_imported hname h.declared himported, h.eq_of_imported hmem]
  | none =>
    cases hpackage : (NameScope.ofOutline known o).package.bind
        ((NameScope.ofOutline known o).knownIn? · name) with
    | some q =>
      obtain ⟨p, hp, hq⟩ := Option.bind_eq_some_iff.mp hpackage
      obtain ⟨rfl, hmem⟩ := knownIn?_eq_some_iff.mp hq
      rw [NameScope.resolve_package hname h.declared himported hpackage, h.package p hp hmem]
    | none =>
      refine NameScope.resolve_onDemand hname h.declared himported hpackage ?_
      rw [onDemand_ofOutline, himports, namesForAll_split hi, List.findSome?_append]
      cases hbefore : (namesForAll before).findSome?
          ((NameScope.ofOutline known o).knownIn? · name) with
      | some q =>
        obtain ⟨j, hj, hfor, rfl, hmem⟩ := eq_of_findSome?_knownIn? hbefore
        rw [Option.some_or, h.onDemand j hj hfor hmem]
      | none =>
        have hfound : (NameScope.ofOutline known o).knownIn? i.written name = some canonical :=
          knownIn?_eq_some_iff.mpr ⟨hwritten.symm, hknown⟩
        rw [Option.none_or, List.findSome?_cons, hfound]

/-- An import on demand of what no known type stands in plays no part. -/
theorem resolve_without_forAll {before after : List ImportSyntax} {i : ImportSyntax}
    (himports : o.imports = before ++ i :: after) (hi : i.isForAll)
    (hknown : i.written ++ "." ++ name ∉ known) :
    (NameScope.ofOutline known o).resolve name =
      (NameScope.ofOutline known { o with imports := before ++ after }).resolve name := by
  have hnone : (NameScope.ofOutline known o).knownIn? i.written name = none := by
    rw [Option.eq_none_iff_forall_ne_some]
    intro q hq
    obtain ⟨rfl, hmem⟩ := knownIn?_eq_some_iff.mp hq
    exact hknown hmem
  obtain ⟨hdemand, hstatic⟩ := Bool.and_eq_true_iff.mp hi
  have himported : (NameScope.ofOutline known o).imported =
      (NameScope.ofOutline known { o with imports := before ++ after }).imported := by
    unfold NameScope.ofOutline
    simp only [himports, List.filter_append, List.filter_cons, hstatic, hdemand, if_true,
      Bool.not_true, Bool.false_eq_true, if_false]
  have honDemand : (NameScope.ofOutline known o).onDemand.findSome?
        ((NameScope.ofOutline known o).knownIn? · name) =
      (NameScope.ofOutline known { o with imports := before ++ after }).onDemand.findSome?
        ((NameScope.ofOutline known o).knownIn? · name) := by
    rw [onDemand_ofOutline, onDemand_ofOutline, himports, namesForAll_split hi,
      List.findSome?_append, List.findSome?_cons, hnone, ← List.findSome?_append]
    unfold namesForAll
    rw [List.filter_append, List.map_append]
  unfold NameScope.resolve
  rw [himported, honDemand]
  rfl

end
end Java.Source

open Java Source

/-! ## Types of other sources -/

/-- A type seen through an import. A single-type import of the canonical name reads as that name. What
stands around the type, imported on demand, makes a type at top level read as itself, but plays no part
for a nested type whose canonical name is not known. The canonical name is the name of the type in the
project just when the type stands at top level. -/
theorem SourceUnit.imported_type_read_as (classpath : List String) (units : List SourceUnit)
    (u v : SourceUnit) (path : List TypeSyntax) (t : TypeSyntax) (hu : u ∈ units)
    (hdecl : Declares u.outline.types path t) (hname : IsSimpleName t.simple)
    (hpath : ∀ outer ∈ path, outer.simple ≠ "") :
    let known := knownNames classpath units
    let canonical := canonicalName u.outline.packagePrefix path t
    let qualified := qualifiedName u.outline.packagePrefix '.' path t
    (∃ T ∈ u.types known, T.name = qualified) ∧
    (∀ i ∈ v.outline.imports, i.isSingle → i.written = canonical →
      OffersOnly known v.outline [] t.simple canonical →
      (v.setting known).ReadsAs t.simple canonical) ∧
    (∀ before i after, v.outline.imports = before ++ i :: after → i.isForAll →
      i.written ++ "." ++ t.simple = canonical →
      (path = [] → OffersOnly known v.outline before t.simple canonical →
        (v.setting known).ReadsAs t.simple qualified) ∧
      (canonical ∉ known → (v.setting known).ReadsAs t.simple
        ((NameScope.ofOutline known { v.outline with imports := before ++ after }).resolve
          t.simple))) ∧
    (canonical = qualified ↔ path = []) := by
  intro known canonical qualified
  have hread := (v.setting known).readsAs_resolve t.simple
  rw [v.names_setting] at hread
  refine ⟨?_, ?_, ?_, canonicalName_eq_iff _ path hpath t⟩
  · rw [u.types_eq_typesOfAll]
    exact ⟨_, (Setting.mem_typesOfAll _).mpr ⟨path, t, hdecl, rfl⟩, Setting.name_typeAt ..⟩
  · intro i hi hsingle hwritten honly
    have hsimple : (NameScope.importedName canonical).1 = t.simple :=
      simple_of_importedName_qualify _ hname
    exact resolve_of_single hname honly hsimple hi hsingle hwritten ▸ hread
  · intro before i after himports hfor hwritten
    constructor
    · rintro rfl honly
      have hknown : canonical ∈ known := by
        refine mem_knownNames.mpr (.inr ⟨u, hu, ?_⟩)
        exact List.mem_map.mpr ⟨_, (mem_namesOfAll _).mpr ⟨[], t, hdecl, rfl, rfl⟩, rfl⟩
      have hresolve : (NameScope.ofOutline known v.outline).resolve t.simple = qualified :=
        resolve_of_forAll hname honly himports hfor hwritten hknown
      exact hresolve ▸ hread
    · intro hunknown
      rw [← hwritten] at hunknown
      exact resolve_without_forAll himports hfor hunknown ▸ hread

def outerUnit : SourceUnit where
  uri := "file:///Outer.java"
  text := "package acme; class Outer \x7b class Inner \x7b\x7d \x7d"

/-- A source that imports a nested type by its name and the type around it on demand. -/
def guestUnit : SourceUnit where
  uri := "file:///Guest.java"
  text := "package guest; import acme.Outer.Inner; import acme.*;\n" ++
    "class Guest \x7b Inner take(Outer o) \x7b\x7d \x7d"

def outerSyntax : TypeSyntax := outerUnit.outline.types.head (by decide +kernel)

def innerSyntax : TypeSyntax := outerSyntax.nested.head (by decide +kernel)

/-- The nested type is called `acme.Outer$Inner` in the project, but the descriptor of the method that
returns it has the imported name. -/
theorem imported_type_read_as_inner :
    let known := knownNames [] [outerUnit, guestUnit]
    Declares outerUnit.outline.types [outerSyntax] innerSyntax ∧
      innerSyntax.simple = "Inner" ∧ IsSimpleName "Inner" ∧ outerSyntax.simple ≠ "" ∧
      (∃ T ∈ outerUnit.types known, T.name = "acme.Outer$Inner") ∧
      (guestUnit.setting known).ReadsAs "Inner" "acme.Outer.Inner" ∧
      (guestUnit.types known).flatMap (fun T => T.methods.map Method.signature) =
        ["take(Lacme/Outer;)Lacme/Outer/Inner;"] := by
  intro known
  have hdecl : Declares outerUnit.outline.types [outerSyntax] innerSyntax :=
    .inside (List.head_mem _) (.here (List.head_mem _))
  obtain ⟨hsimple, houter, hqualified, hcanonical⟩ :
      innerSyntax.simple = "Inner" ∧ outerSyntax.simple ≠ "" ∧
        qualifiedName outerUnit.outline.packagePrefix '.' [outerSyntax] innerSyntax =
          "acme.Outer$Inner" ∧
        canonicalName outerUnit.outline.packagePrefix [outerSyntax] innerSyntax =
          "acme.Outer.Inner" := by
    decide +kernel
  have hname : IsSimpleName "Inner" := by decide
  have hpath : ∀ outer ∈ [outerSyntax], outer.simple ≠ "" := by
    intro outer hmem
    rw [List.mem_singleton.mp hmem]
    exact houter
  obtain ⟨htype, hsingle, _⟩ := SourceUnit.imported_type_read_as [] [outerUnit, guestUnit] outerUnit
    guestUnit [outerSyntax] innerSyntax List.mem_cons_self hdecl (hsimple ▸ hname) hpath
  rw [hsimple, hcanonical] at hsingle
  rw [hqualified] at htype
  obtain ⟨⟨i, hi, hfor, hwritten⟩, hown, himports, hpackage, hunknown, hsignatures⟩ :
      (∃ i ∈ guestUnit.outline.imports, i.isSingle ∧ i.written = "acme.Outer.Inner") ∧
        "Inner" ∉ guestUnit.outline.declaredNames.map Prod.snd ∧
        (∀ i ∈ guestUnit.outline.imports, i.isSingle →
          (NameScope.importedName i.written).1 = "Inner" → i.written = "acme.Outer.Inner") ∧
        guestUnit.outline.packageName? = some "guest" ∧ "guest.Inner" ∉ known ∧
        (guestUnit.types known).flatMap (fun T => T.methods.map Method.signature) =
          ["take(Lacme/Outer;)Lacme/Outer/Inner;"] := by
    decide +kernel
  refine ⟨hdecl, hsimple, hname, houter, htype, hsingle i hi hfor hwritten ?_, hsignatures⟩
  refine ⟨hown, himports, ?_, nofun⟩
  intro p hp hmem
  obtain rfl : "guest" = p := Option.some.inj (hpackage.symm.trans hp)
  exact absurd hmem hunknown

end FaultTolerance
