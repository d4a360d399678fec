import FaultTolerance.Model.Sources
import FaultTolerance.Proofs.Source.Nodes.Units
import FaultTolerance.Proofs.Source.Resolution
import Mathlib.Data.List.Basic

/-! A project built from sources. Building has two passes: it collects the names that all sources
declare, and then reads every source against them. So its types are those of each source in turn
(`types_ofSources`), and what a source means there depends on the others only through the names that
are known, whatever order they came in (`Addition.build_perm`). -/
namespace FaultTolerance
open Java Source
set_option autoImplicit false

/-! ## Names and types of a project's sources -/

/-- The outline of a source. -/
def SourceUnit.outline (u : SourceUnit) : Outline := .ofSource u.text.toList

/-- The qualified names that are taken for existing types. -/
def knownNames (classpath : List String) (units : List SourceUnit) : List String :=
  classpath ++ MemoryModel.declaredTypes (units.map SourceUnit.root)

/-- The types of a source in a project where the names in `known` are known. -/
def SourceUnit.types (u : SourceUnit) (known : List String) : List JavaType :=
  u.root.toTypes u.text.toList u.origin known

/-- What the declarations of a source are read against. -/
def SourceUnit.setting (u : SourceUnit) (known : List String) : Setting :=
  ⟨.ofRoot known u.root, .ofText u.text.toList, u.origin⟩

theorem SourceUnit.declaredNames_root (u : SourceUnit) :
    u.root.declaredNames = u.outline.declaredNames :=
  declaredNames_ofTrees _

theorem SourceUnit.types_eq_toTypes (u : SourceUnit) (known : List String) :
    u.types known = u.outline.toTypes u.text.toList u.origin known :=
  toTypes_ofTrees _ _ _ _

theorem SourceUnit.setting_eq (u : SourceUnit) (known : List String) :
    u.setting known = ⟨.ofOutline known u.outline, .ofText u.text.toList, u.origin⟩ := by
  rw [setting, root, Node.ofSource, ofRoot_ofTrees]
  rfl

theorem SourceUnit.names_setting (u : SourceUnit) (known : List String) :
    (u.setting known).names = .ofOutline known u.outline :=
  congrArg Setting.names (u.setting_eq known)

theorem SourceUnit.types_eq_typesOfAll (u : SourceUnit) (known : List String) :
    u.types known =
      (u.setting known).typesOfAll u.outline.packagePrefix '.' [] u.outline.types := by
  rw [u.types_eq_toTypes, u.setting_eq]
  rfl

theorem mem_declaredTypes {units : List SourceUnit} {name : String} :
    name ∈ MemoryModel.declaredTypes (units.map SourceUnit.root) ↔
      ∃ u ∈ units, name ∈ u.outline.declaredNames.map Prod.fst := by
  unfold MemoryModel.declaredTypes
  rw [List.flatMap_map, List.mem_flatMap]
  simp only [SourceUnit.declaredNames_root]

theorem mem_knownNames {classpath : List String} {units : List SourceUnit} {name : String} :
    name ∈ knownNames classpath units ↔
      name ∈ classpath ∨ ∃ u ∈ units, name ∈ u.outline.declaredNames.map Prod.fst := by
  rw [knownNames, List.mem_append, mem_declaredTypes]

theorem knownNames_perm {classpath classpath' : List String} {units units' : List SourceUnit}
    (hc : classpath.Perm classpath') (hu : units.Perm units') (name : String) :
    name ∈ knownNames classpath units ↔ name ∈ knownNames classpath' units' := by
  rw [mem_knownNames, mem_knownNames, hc.mem_iff]
  simp only [hu.mem_iff]

/-! ## Types in the order of their sources -/

namespace MemoryModel

theorem types_addTypes (m : MemoryModel) (ts : List JavaType) :
    (ts.foldl (fun m t => (m.addType t).2) m).types = m.types ++ ts := by
  induction ts generalizing m with
  | nil => rw [List.foldl_nil, List.append_nil]
  | cons t ts ih =>
    rw [List.foldl_cons, ih]
    exact List.append_assoc ..

theorem types_addUnit (known : List String) (m : MemoryModel) (u : SourceUnit) :
    (m.addUnit known u u.root).types = m.types ++ u.types known := by
  unfold addUnit
  rw [types_addTypes]
  cases u.isDependency <;> rfl

theorem types_addUnits (known : List String) (m : MemoryModel) (units : List SourceUnit) :
    (units.foldl (fun m u => m.addUnit known u u.root) m).types =
      m.types ++ units.flatMap (·.types known) := by
  induction units generalizing m with
  | nil => rw [List.foldl_nil, List.flatMap_nil, List.append_nil]
  | cons u units ih => rw [List.foldl_cons, ih, types_addUnit, List.flatMap_cons, List.append_assoc]

theorem ofSources_eq_foldl (project : String) (classpath : List String) (units : List SourceUnit) :
    ofSources project classpath units =
      units.foldl (fun m u => m.addUnit (knownNames classpath units) u u.root)
        (.named project) := by
  have hzip : units.zip (units.map SourceUnit.root) = units.map fun u => (u, u.root) :=
    List.map_prod_left_eq_zip.symm
  simp only [ofSources, hzip, List.foldl_map]
  rfl

theorem types_ofSources (project : String) (classpath : List String) (units : List SourceUnit) :
    (ofSources project classpath units).types =
      units.flatMap (·.types (knownNames classpath units)) := by
  rw [ofSources_eq_foldl, types_addUnits]
  rfl

end MemoryModel

/-! ## The order of additions -/

/-- One step on the way to a project: a source of it or of a dependency, or a name of the classpath. -/
inductive Addition where
  | unit (unit : SourceUnit)
  | classpathName (name : String)

namespace Addition

def unit? : Addition → Option SourceUnit
  | unit u => some u
  | classpathName _ => none

def classpathName? : Addition → Option String
  | unit _ => none
  | classpathName name => some name

def units (additions : List Addition) : List SourceUnit := additions.filterMap unit?

def classpath (additions : List Addition) : List String := additions.filterMap classpathName?

def known (additions : List Addition) : List String :=
  knownNames (classpath additions) (units additions)

theorem known_perm {additions additions' : List Addition} (h : additions.Perm additions')
    (name : String) : name ∈ known additions ↔ name ∈ known additions' :=
  knownNames_perm (h.filterMap classpathName?) (h.filterMap unit?) name

/-- The project that some additions give. -/
def build (project : String) (additions : List Addition) : MemoryModel :=
  .ofSources project (classpath additions) (units additions)

/-- Whatever the order of the additions, a project has the types of its sources one source after the
other, in the order in which these were added, and each source has the same types: a name in it
resolves the same, whether the source that declares the type came before or after. -/
theorem build_perm (project : String) (additions additions' : List Addition)
    (h : additions.Perm additions') :
    (build project additions).types =
        (units additions).flatMap (·.types (known additions)) ∧
      (build project additions').types =
        (units additions').flatMap (·.types (known additions')) ∧
      (∀ u : SourceUnit, u.types (known additions) = u.types (known additions')) ∧
      (∀ o : Outline, (NameScope.ofOutline (known additions) o).resolve =
        (NameScope.ofOutline (known additions') o).resolve) ∧
      (∀ root : Node, (NameScope.ofRoot (known additions) root).resolve =
        (NameScope.ofRoot (known additions') root).resolve) ∧
      ∀ u ∈ units additions, ∀ name ∈ u.outline.declaredNames.map Prod.fst,
        name ∈ known additions ∧ name ∈ known additions' := by
  have hknown := known_perm h
  refine ⟨MemoryModel.types_ofSources .., MemoryModel.types_ofSources .., ?_, ?_, ?_, ?_⟩
  · intro u
    rw [u.types_eq_toTypes, u.types_eq_toTypes]
    exact toTypes_congr u.outline u.text.toList u.origin hknown
  · intro o
    exact resolve_ofOutline_congr o hknown
  · intro root
    exact NameScope.resolve_congr (.ofRoot [] root) hknown
  · intro u hu name hname
    have hmem : name ∈ known additions := mem_knownNames.mpr (.inr ⟨u, hu, hname⟩)
    exact ⟨hmem, (hknown name).mp hmem⟩

def invoiceUnit : SourceUnit where
  uri := "file:///Invoice.java"
  text := "package org.acme;\nimport org.bank.*;\n@Timeout class Invoice \x7b\n" ++
    "  Customer payer(Account a) \x7b return null; \x7d\n\x7d\n"

def customerUnit : SourceUnit where
  uri := "file:///Customer.java"
  text := "package org.acme; class Customer \x7b\x7d"

def accountUnit : SourceUnit where
  uri := "jar:///bank/Account.java"
  text := "package org.bank; public interface Account \x7b\x7d"
  isDependency := true

/-- An invoice that refers to a customer and to an account, both added after it. -/
def invoiceAdditions : List Addition :=
  [.unit invoiceUnit, .classpathName "org.bank.Timeout", .unit customerUnit, .unit accountUnit]

theorem build_perm_invoices :
    invoiceAdditions.Perm invoiceAdditions.reverse ∧
      ∀ additions ∈ [invoiceAdditions, invoiceAdditions.reverse],
        (invoiceUnit.types (known additions)).map (fun t =>
            (t.annotations.map (·.name), t.methods.map (·.signature))) =
          [(["org.bank.Timeout"], ["payer(Lorg/bank/Account;)Lorg/acme/Customer;"])] := by
  have hperm : invoiceAdditions.Perm invoiceAdditions.reverse := (List.reverse_perm _).symm
  have hsame := (build_perm "shop" _ _ hperm).2.2.1 invoiceUnit
  have hread : (invoiceUnit.types (known invoiceAdditions)).map (fun t =>
      (t.annotations.map (·.name), t.methods.map (·.signature))) =
        [(["org.bank.Timeout"], ["payer(Lorg/bank/Account;)Lorg/acme/Customer;"])] := by
    decide +kernel
  refine ⟨hperm, ?_⟩
  simp only [List.forall_mem_cons, ← hsame, hread]
  simp

end Addition
end FaultTolerance
