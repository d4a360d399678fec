import FaultTolerance.Proofs.Project.Documents
import FaultTolerance.Proofs.Source.Preorder
import FaultTolerance.Proofs.Source.TypeNames

/-! The declarations of a source in its project. The pass that collects names and the pass that reads
types meet the same declarations, and what the first one finds is what the second one resolves against
(`declarations_agree`). -/
namespace FaultTolerance
open Java Source
set_option autoImplicit false

namespace SourceUnit
variable {u : SourceUnit} {path path' : List TypeSyntax} {t v : TypeSyntax}

/-- The name of a type that a source declares inside the types `path`. -/
def nameAt (u : SourceUnit) (path : List TypeSyntax) (t : TypeSyntax) : String :=
  qualifiedName u.outline.packagePrefix '.' path t

theorem names_perm_types (u : SourceUnit) (known : List String) :
    ((u.types known).map (·.name)).Perm (u.root.declaredNames.map Prod.fst) :=
  names_perm_lowerTypes _ _ _ _ u.root

theorem names_types (u : SourceUnit) (known : List String) :
    (u.types known).map (·.name) =
      u.outline.types.flatMap fun t => t.preorder (u.nameAt [] t) := by
  rw [u.types_eq_typesOfAll]
  exact names_typesOfAll (u.setting known) _ _ _ fun _ ht => simple_ne_empty_of_declares (.here ht)

/-- A type stands right before the types nested in it. -/
theorem exists_block (h : Declares u.outline.types path t) (known : List String) :
    ∃ before after, (u.types known).map (·.name) =
      before ++ (u.nameAt path t :: t.nested.flatMap fun v =>
        v.preorder (u.nameAt path t ++ "$" ++ v.simple)) ++ after := by
  obtain ⟨before, after, he⟩ := infix_preorder h u.outline.packagePrefix '.' fun t ht =>
    qualify_ne_empty _ _ (simple_ne_empty_of_declares (.here ht))
  rw [preorder_eq_cons] at he
  exact ⟨before, after, (u.names_types known).trans he.symm⟩

theorem outer_before_nested (h : Declares u.outline.types path t) (hin : Declares t.nested path' v)
    (known : List String) :
    [u.nameAt path t, u.nameAt (path ++ t :: path') v].Sublist ((u.types known).map (·.name)) := by
  rw [u.names_types known]
  exact Source.outer_before_nested h hin _ _ fun _ _ ht => simple_ne_empty_of_declares ht

end SourceUnit

theorem exists_pair_of_sublist_map {α β : Type} {f : α → β} {xs : List α} {a b : β}
    (h : [a, b].Sublist (xs.map f)) : ∃ x y, [x, y].Sublist xs ∧ f x = a ∧ f y = b := by
  obtain ⟨pair, hpair, he⟩ := List.sublist_map_iff.mp h
  match pair, he with
  | [x, y], he =>
    obtain ⟨hx, hy⟩ := List.cons.inj he
    exact ⟨x, y, hpair, hx.symm, (List.cons.inj hy).1.symm⟩

namespace MemoryModel
variable {project : String} {classpath : List String} {units : List SourceUnit}

theorem name_mem_knownNames {t : JavaType} (ht : t ∈ (ofSources project classpath units).types) :
    t.name ∈ knownNames classpath units := by
  rw [types_ofSources] at ht
  obtain ⟨u, hu, ht⟩ := List.mem_flatMap.mp ht
  have hname : t.name ∈ (u.types (knownNames classpath units)).map (·.name) :=
    List.mem_map_of_mem ht
  rw [(u.names_perm_types _).mem_iff, u.declaredNames_root] at hname
  exact mem_knownNames.mpr (.inr ⟨u, hu, hname⟩)

/-- No document lists a type that a dependency has. -/
theorem notMem_document_of_dependency {u : SourceUnit} (hdependency : u.isDependency = true)
    {t : JavaType} (ht : t ∈ u.types (knownNames classpath units)) {id : Nat}
    (hid : (ofSources project classpath units).toModel.type id = .ok t) {uri : String}
    {ids : List Nat}
    (hids : (ofSources project classpath units).toModel.typesInDocument uri = .ok ids) :
    id ∉ ids := by
  intro hmem
  obtain ⟨t', ht', horigin⟩ := ((indexed_ofSources project classpath units).mem_document hids).mp hmem
  obtain rfl : t = t' := Except.ok.inj (hid.symm.trans ht')
  rw [SourceUnit.origin_of_mem_types ht, SourceUnit.origin_eq_source, hdependency] at horigin
  cases horigin.1

/-- A document lists a type before those nested in it. -/
theorem exists_listed_pair {u : SourceUnit} {path path' : List TypeSyntax} {t v : TypeSyntax}
    (hu : u ∈ units) (hsource : u.isDependency = false) (h : Declares u.outline.types path t)
    (hin : Declares t.nested path' v) {ids : List Nat}
    (hids : ids.map (ofSources project classpath units).toModel.type =
      ((units.filter (·.isIn u.uri)).flatMap (·.types (knownNames classpath units))).map .ok) :
    ∃ id id', [id, id'].Sublist ids ∧ ∃ T V,
      (ofSources project classpath units).toModel.type id = .ok T ∧
      (ofSources project classpath units).toModel.type id' = .ok V ∧
      T.name = u.nameAt path t ∧ V.name = u.nameAt (path ++ t :: path') v := by
  obtain ⟨T, V, hpair, hT, hV⟩ := exists_pair_of_sublist_map
    (SourceUnit.outer_before_nested h hin (knownNames classpath units))
  have hunit : u ∈ units.filter (·.isIn u.uri) :=
    List.mem_filter.mpr ⟨hu, SourceUnit.isIn_iff.mpr ⟨hsource, rfl⟩⟩
  have htypes : (u.types (knownNames classpath units)).Sublist
      ((units.filter (·.isIn u.uri)).flatMap (·.types (knownNames classpath units))) :=
    (infix_flatMap_of_mem (·.types (knownNames classpath units)) hunit).sublist
  have hlisted : [Except.ok T, Except.ok V].Sublist
      (ids.map (ofSources project classpath units).toModel.type) := by
    rw [hids]
    exact (hpair.trans htypes).map Except.ok
  obtain ⟨id, id', hsub, hid, hid'⟩ := exists_pair_of_sublist_map hlisted
  exact ⟨id, id', hsub, T, V, hid, hid', hT, hV⟩

/-- The two passes over a source agree in every project. They walk its syntax tree each in its own way and
meet the same declarations below every node of every tree. So the types of a source have the names that it
declares, each as often, and stand in preorder: right behind a type come the types nested in it, in the
order of the members, their names made of its own, a dollar sign and their simple names; the members of an
enumeration are the ones behind its constants. All names of types are known ones. The document of a source
lists the types of its sources in this order, an outer type before those in it, and no document lists a
type of a dependency. -/
theorem declarations_agree (project : String) (classpath : List String) (units : List SourceUnit)
    (u : SourceUnit) (hu : u ∈ units) :
    let m := ofSources project classpath units
    let known := knownNames classpath units
    (∀ (n : Node) (s : Setting) (outer : String) (separator : Char) (typeVariables : List String),
      (((n.children.filter (·.isTypeDeclaration)).flatMap
          (s.lowerType outer separator typeVariables)).map (·.name)).Perm
        ((n.namesBelow outer separator).map Prod.fst)) ∧
    ((u.types known).map (·.name)).Perm (u.root.declaredNames.map Prod.fst) ∧
    ((u.types known).map (·.name)).Perm (u.outline.declaredNames.map Prod.fst) ∧
    (u.types known).map (·.name) =
      u.outline.types.flatMap (fun t => t.preorder (u.nameAt [] t)) ∧
    (∀ path t, Declares u.outline.types path t → ∃ before after, (u.types known).map (·.name) =
      before ++ (u.nameAt path t :: t.nested.flatMap fun v =>
        v.preorder (u.nameAt path t ++ "$" ++ v.simple)) ++ after) ∧
    (∀ n (constants members : List Tree) (semicolon : Tree),
      (∀ c ∈ constants, c.isSymbol ";" = false) → semicolon.isSymbol ";" = true →
      membersWithin n (declarationsOf .enumType (constants ++ semicolon :: members)) =
        membersWithin n (declarationsOf .classType members)) ∧
    (∀ t ∈ m.types, t.name ∈ known) ∧
    (u.isDependency = false → ∃ ids, m.toModel.typesInDocument u.uri = .ok ids ∧
      ids.Pairwise (· < ·) ∧
      ids.map m.toModel.type = ((units.filter (·.isIn u.uri)).flatMap (·.types known)).map .ok ∧
      ∀ path t path' v, Declares u.outline.types path t → Declares t.nested path' v →
        ∃ id id', [id, id'].Sublist ids ∧ ∃ T V, m.toModel.type id = .ok T ∧
          m.toModel.type id' = .ok V ∧ T.name = u.nameAt path t ∧
          V.name = u.nameAt (path ++ t :: path') v) ∧
    (u.isDependency = true → ∀ t ∈ u.types known, ∀ id, m.toModel.type id = .ok t →
      ∀ uri ids, m.toModel.typesInDocument uri = .ok ids → id ∉ ids) := by
  intro m known
  have hperm := u.names_perm_types known
  refine ⟨fun n s outer separator typeVariables => names_perm_lowerTypes s outer separator _ n,
    hperm, u.declaredNames_root ▸ hperm, u.names_types known, fun path t h => u.exists_block h known, ?_,
    fun t ht => name_mem_knownNames ht, ?_, ?_⟩
  · intro n constants members semicolon hconstants hsemicolon
    rw [declarationsOf_enum hconstants hsemicolon]
  · intro hsource
    obtain ⟨ids, hids, hascending, hlisted⟩ := listed_ofSources hu hsource
    exact ⟨ids, hids, hascending, hlisted, fun path t path' v h hin =>
      exists_listed_pair hu hsource h hin hlisted⟩
  · intro hdependency t ht id hid uri ids hids
    exact notMem_document_of_dependency hdependency ht hid hids

/-- An enumeration with types behind its constants, one of them with a type of its own. -/
def levelUnit : SourceUnit where
  uri := "file:///Level.java"
  text := "package org.acme;\nenum Level \x7b\n" ++
    "  LOW, HIGH;\n  class Scale \x7b interface Step \x7b\x7d \x7d\n  enum Unit \x7b ONE \x7d\n\x7d\n"

def meterUnit : SourceUnit where
  uri := "jar:///Meter.java"
  text := "class Meter \x7b class Reading \x7b\x7d \x7d"
  isDependency := true

theorem declarations_agree_level :
    levelUnit ∈ [meterUnit, levelUnit] ∧
      ((levelUnit.types (knownNames [] [meterUnit, levelUnit])).map (·.name)).Perm
        (levelUnit.outline.declaredNames.map Prod.fst) ∧
      (levelUnit.types (knownNames [] [meterUnit, levelUnit])).map (·.name) =
        ["org.acme.Level", "org.acme.Level$Scale", "org.acme.Level$Scale$Step",
          "org.acme.Level$Unit"] ∧
      levelUnit.outline.declaredNames.map Prod.fst =
        ["org.acme.Level$Scale$Step", "org.acme.Level$Scale", "org.acme.Level$Unit",
          "org.acme.Level"] ∧
      ∃ ids, (ofSources "shop" [] [meterUnit, levelUnit]).toModel.typesInDocument levelUnit.uri =
          .ok ids ∧
        ids.map (ofSources "shop" [] [meterUnit, levelUnit]).toModel.type =
          (levelUnit.types (knownNames [] [meterUnit, levelUnit])).map .ok := by
  have hmem : levelUnit ∈ [meterUnit, levelUnit] := List.mem_cons_of_mem _ List.mem_cons_self
  obtain ⟨_, _, hperm, _, _, _, _, hlisted, _⟩ :=
    declarations_agree "shop" [] [meterUnit, levelUnit] levelUnit hmem
  obtain ⟨ids, hids, _, htypes, _⟩ := hlisted rfl
  have hown : [meterUnit, levelUnit].filter (·.isIn levelUnit.uri) = [levelUnit] := rfl
  rw [hown, List.flatMap_singleton] at htypes
  exact ⟨hmem, hperm, by decide +kernel, by decide +kernel, ids, hids, htypes⟩

end MemoryModel
end FaultTolerance
