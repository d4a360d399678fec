import FaultTolerance.Proofs.Project.Imports
import Mathlib.Data.Prod.Lex
import Mathlib.Order.Nat

/-! Projects that grow. A scope finds a simple name in one of several places, which have an order
(`NameScope.Place`), and resolves it to what stands in the first of them (`exists_first`). More names that
are known put more names into the packages, and into no other place. So growing a project changes what a
name means only where a new type stands in an earlier package than the old one
(`Addition.resolve_grown`). -/
namespace FaultTolerance
namespace Java.Source
set_option autoImplicit false

namespace NameScope

/-! ## Places of names -/

/-- Where a scope may find a simple name. -/
inductive Place where
  | declared
  | imported
  | package
  /-- The import on demand of an index. -/
  | onDemand (index : Nat)
  | ubiquitous
  | asWritten
  deriving DecidableEq

namespace Place

/-- The place of a place in their order. -/
def rank : Place → Nat ×ₗ Nat
  | declared => toLex (0, 0)
  | imported => toLex (1, 0)
  | package => toLex (2, 0)
  | onDemand index => toLex (3, index)
  | ubiquitous => toLex (4, 0)
  | asWritten => toLex (5, 0)

theorem rank_injective : Function.Injective rank := by
  intro a b h
  cases a <;> cases b <;> simp_all [rank]

instance : LinearOrder Place := LinearOrder.lift' rank rank_injective

theorem le_iff {a b : Place} : a ≤ b ↔ a.rank ≤ b.rank := Iff.rfl

section
variable {a : Place}

theorem declared_le : declared ≤ a := by
  cases a <;> simp [le_iff, rank, Prod.Lex.toLex_le_toLex]

theorem imported_le_iff : imported ≤ a ↔ a ≠ declared := by
  cases a <;> simp [le_iff, rank, Prod.Lex.toLex_le_toLex]

theorem package_le_iff : package ≤ a ↔ a ≠ declared ∧ a ≠ imported := by
  cases a <;> simp [le_iff, rank, Prod.Lex.toLex_le_toLex]

theorem le_package_iff : a ≤ package ↔ a = declared ∨ a = imported ∨ a = package := by
  cases a <;> simp [le_iff, rank, Prod.Lex.toLex_le_toLex]

theorem onDemand_le_iff {index : Nat} :
    onDemand index ≤ a ↔ ¬a ≤ package ∧ ∀ index', a = onDemand index' → index ≤ index' := by
  rw [le_package_iff]
  cases a <;> simp [le_iff, rank, Prod.Lex.toLex_le_toLex]

theorem ubiquitous_le_iff : ubiquitous ≤ a ↔ ¬a ≤ package ∧ ∀ index, a ≠ onDemand index := by
  rw [le_package_iff]
  cases a <;> simp [le_iff, rank, Prod.Lex.toLex_le_toLex]

theorem asWritten_le_iff : asWritten ≤ a ↔ ubiquitous ≤ a ∧ a ≠ ubiquitous := by
  cases a <;> simp [le_iff, rank, Prod.Lex.toLex_le_toLex]

end

end Place

/-- The qualified names that a scope finds for a simple name, and where. -/
inductive Finds (s : NameScope) (name : String) : Place → String → Prop where
  | declared {q : String} (h : s.declared.lookup name = some q) : Finds s name .declared q
  | imported {q : String} (h : s.imported.lookup name = some q) : Finds s name .imported q
  | package {p : String} (h : s.package = some p) (hknown : p ++ "." ++ name ∈ s.known) :
    Finds s name .package (p ++ "." ++ name)
  | onDemand {p : String} {index : Nat} (h : s.onDemand[index]? = some p)
    (hknown : p ++ "." ++ name ∈ s.known) : Finds s name (.onDemand index) (p ++ "." ++ name)
  | ubiquitous (h : name ∈ ubiquitous) : Finds s name .ubiquitous ("java.lang." ++ name)
  | asWritten : Finds s name .asWritten name

/-- Whether a place is the first one where a scope finds a name. -/
structure FirstFinds (s : NameScope) (name : String) (place : Place) (q : String) : Prop where
  finds : s.Finds name place q
  first : ∀ place' q', s.Finds name place' q' → place ≤ place'

section
variable {s : NameScope} {name : String}

theorem Finds.unique {place : Place} {q q' : String} (h : s.Finds name place q)
    (h' : s.Finds name place q') : q = q' := by
  cases h <;> cases h' <;> simp_all

theorem finds_package_iff {q : String} :
    s.Finds name .package q ↔ s.package.bind (s.knownIn? · name) = some q := by
  simp only [Option.bind_eq_some_iff, knownIn?_eq_some_iff]
  constructor
  · rintro (_ | _ | ⟨hp, hknown⟩)
    exact ⟨_, hp, rfl, hknown⟩
  · rintro ⟨p, hp, rfl, hknown⟩
    exact .package hp hknown

theorem not_finds_onDemand (h : s.onDemand.findSome? (s.knownIn? · name) = none) (index : Nat)
    (q : String) : ¬s.Finds name (.onDemand index) q := by
  rintro (_ | _ | _ | ⟨hp, hknown⟩)
  have hnone := List.findSome?_eq_none_iff.mp h _ (List.mem_of_getElem? hp)
  rw [knownIn?_eq_some_iff.mpr ⟨rfl, hknown⟩] at hnone
  cases hnone

/-- The first import on demand that finds a name. -/
theorem exists_finds_onDemand {q : String}
    (h : s.onDemand.findSome? (s.knownIn? · name) = some q) :
    ∃ index, s.Finds name (.onDemand index) q ∧
      ∀ index' q', s.Finds name (.onDemand index') q' → index ≤ index' := by
  obtain ⟨before, p, after, hsplit, hfound, hbefore⟩ := List.findSome?_eq_some_iff.mp h
  obtain ⟨rfl, hknown⟩ := knownIn?_eq_some_iff.mp hfound
  refine ⟨before.length, .onDemand (by rw [hsplit]; simp) hknown, ?_⟩
  rintro index' q' (_ | _ | _ | ⟨hp', hknown'⟩)
  by_contra hlt
  rw [hsplit, List.getElem?_append_left (Nat.lt_of_not_le hlt)] at hp'
  have hnone := hbefore _ (List.mem_of_getElem? hp')
  rw [knownIn?_eq_some_iff.mpr ⟨rfl, hknown'⟩] at hnone
  cases hnone

theorem Finds.ne {place place' : Place} {q : String} (h : s.Finds name place q)
    (hnot : ∀ q', ¬s.Finds name place' q') : place ≠ place' := by
  rintro rfl
  exact hnot q h

/-- A simple name is resolved to what stands in the first place where it is found. -/
theorem exists_first (s : NameScope) (hname : IsSimpleName name) :
    ∃ place, s.FirstFinds name place (s.resolve name) := by
  rw [resolve_of_isSimpleName s hname]
  cases hdeclared : s.declared.lookup name with
  | some q => exact ⟨.declared, .declared hdeclared, fun _ _ _ => Place.declared_le⟩
  | none =>
  have hnotDeclared : ∀ q, ¬s.Finds name .declared q := by
    intro q h
    cases h with | declared h => exact Option.some_ne_none q (h.symm.trans hdeclared)
  cases himported : s.imported.lookup name with
  | some q =>
    exact ⟨.imported, .imported himported, fun _ _ h => Place.imported_le_iff.mpr (h.ne hnotDeclared)⟩
  | none =>
  have hnotImported : ∀ q, ¬s.Finds name .imported q := by
    intro q h
    cases h with | imported h => exact Option.some_ne_none q (h.symm.trans himported)
  cases hpackage : s.package.bind (s.knownIn? · name) with
  | some q =>
    exact ⟨.package, finds_package_iff.mpr hpackage, fun _ _ h =>
      Place.package_le_iff.mpr ⟨h.ne hnotDeclared, h.ne hnotImported⟩⟩
  | none =>
  have hnotPackage : ∀ q, ¬s.Finds name .package q := by
    simp [finds_package_iff, hpackage]
  have hbehindPackage : ∀ place q, s.Finds name place q → ¬place ≤ .package := fun place q h hle => by
    rcases Place.le_package_iff.mp hle with rfl | rfl | rfl
    · exact hnotDeclared q h
    · exact hnotImported q h
    · exact hnotPackage q h
  cases honDemand : s.onDemand.findSome? (s.knownIn? · name) with
  | some q =>
    obtain ⟨index, hfinds, hfirst⟩ := exists_finds_onDemand honDemand
    exact ⟨.onDemand index, hfinds, fun place q' h =>
      Place.onDemand_le_iff.mpr ⟨hbehindPackage place q' h, fun index' he => hfirst index' q' (he ▸ h)⟩⟩
  | none =>
  have hbehindOnDemand : ∀ place q, s.Finds name place q → .ubiquitous ≤ place := fun place q h =>
    Place.ubiquitous_le_iff.mpr ⟨hbehindPackage place q h, fun index =>
      h.ne (not_finds_onDemand honDemand index)⟩
  by_cases hubiquitous : name ∈ FaultTolerance.Java.Source.ubiquitous
  · rw [if_pos (List.contains_iff_mem.mpr hubiquitous)]
    exact ⟨.ubiquitous, .ubiquitous hubiquitous, hbehindOnDemand⟩
  · have hnotUbiquitous : ∀ q, ¬s.Finds name .ubiquitous q := by
      rintro q ⟨⟩
      contradiction
    rw [if_neg fun h => hubiquitous (List.contains_iff_mem.mp h)]
    exact ⟨.asWritten, .asWritten, fun place q h =>
      Place.asWritten_le_iff.mpr ⟨hbehindOnDemand place q h, h.ne hnotUbiquitous⟩⟩

end

/-! ## More known names -/

/-- The packages in which a source looks for names, and the places that these are. -/
inductive PackageAt (o : Outline) : Place → String → Prop where
  | own {p : String} (h : o.packageName? = some p) : PackageAt o .package p
  | onDemand {p : String} {index : Nat} (h : (namesForAll o.imports)[index]? = some p) :
    PackageAt o (.onDemand index) p

section
variable {known known' : List String} {o : Outline} {name : String} {place place' : Place}
  {q q' : String}

theorem PackageAt.package_le {p : String} (h : PackageAt o place p) : .package ≤ place := by
  cases h <;> simp [Place.package_le_iff]

theorem PackageAt.ne_asWritten {p : String} (h : PackageAt o place p) : place ≠ .asWritten := by
  rintro rfl
  cases h

/-- What is found among more names is found among the fewer, or it is a new name in a package. -/
theorem Finds.of_known (known : List String) (h : (ofOutline known' o).Finds name place q) :
    (ofOutline known o).Finds name place q ∨
      ∃ p, PackageAt o place p ∧ q = p ++ "." ++ name ∧ q ∈ known' ∧ q ∉ known := by
  cases h with
  | declared h => exact .inl (.declared h)
  | imported h => exact .inl (.imported h)
  | @package p h hknown' =>
    by_cases hknown : p ++ "." ++ name ∈ known
    · exact .inl (.package h hknown)
    · exact .inr ⟨p, .own h, rfl, hknown', hknown⟩
  | @onDemand p index h hknown' =>
    by_cases hknown : p ++ "." ++ name ∈ known
    · exact .inl (.onDemand h hknown)
    · rw [onDemand_ofOutline] at h
      exact .inr ⟨p, .onDemand h, rfl, hknown', hknown⟩
  | ubiquitous h => exact .inl (.ubiquitous h)
  | asWritten => exact .inl .asWritten

theorem Finds.mono (hknown : ∀ n ∈ known, n ∈ known') (h : (ofOutline known o).Finds name place q) :
    (ofOutline known' o).Finds name place q := by
  rcases h.of_known known' with h | ⟨p, -, rfl, hold, hnew⟩
  · exact h
  · exact absurd (hknown _ hold) hnew

/-- Among more names the first place is the same one, or an earlier one with a new name in it. -/
theorem FirstFinds.grown (hknown : ∀ n ∈ known, n ∈ known')
    (h : (ofOutline known o).FirstFinds name place q)
    (h' : (ofOutline known' o).FirstFinds name place' q') :
    (place' = place ∧ q' = q) ∨
      ∃ p, PackageAt o place' p ∧ q' = p ++ "." ++ name ∧ q' ∈ known' ∧ q' ∉ known ∧ place' < place := by
  have hle : place' ≤ place := h'.first _ _ (h.finds.mono hknown)
  rcases hle.eq_or_lt with rfl | hlt
  · exact .inl ⟨rfl, h'.finds.unique (h.finds.mono hknown)⟩
  · rcases h'.finds.of_known known with hfinds | ⟨p, hp, hq, hnew, hold⟩
    · exact absurd (h.first _ _ hfinds) hlt.not_ge
    · exact .inr ⟨p, hp, hq, hnew, hold, hlt⟩

end
end NameScope
end Java.Source

open Java Source NameScope

theorem SourceUnit.firstFinds_grown (u : SourceUnit) {known known' : List String} {name q q' : String}
    {place place' : Place} (hknown : ∀ n ∈ known, n ∈ known')
    (h : (u.setting known).names.FirstFinds name place q)
    (h' : (u.setting known').names.FirstFinds name place' q') :
    (place' = place ∧ q' = q) ∨
      ∃ p, PackageAt u.outline place' p ∧ q' = p ++ "." ++ name ∧ q' ∈ known' ∧ q' ∉ known ∧
        place' < place := by
  rw [u.names_setting] at h h'
  exact h.grown hknown h'

namespace Addition

theorem mem_known_append {additions added : List Addition} {name : String} :
    name ∈ known (additions ++ added) ↔ name ∈ known additions ∨ name ∈ known added := by
  simp only [known, mem_knownNames, classpath, units, List.filterMap_append, List.mem_append,
    or_and_right, exists_or]
  exact or_or_or_comm

/-- What growing a project does to a simple name in a source. The name gets another meaning only if the
additions have a type of that name in the package of the source or in one that it imports on demand, where
the name was found in no earlier place. What the source itself, a single-type import or the package gave
stays, and a name that was found anywhere is still found. -/
theorem resolve_grown (additions added additions' : List Addition)
    (h : additions'.Perm (additions ++ added)) (u : SourceUnit) (name : String)
    (hname : IsSimpleName name) :
    let before := u.setting (known additions)
    let after := u.setting (known additions')
    let q := before.names.resolve name
    let q' := after.names.resolve name
    before.ReadsAs name q ∧ after.ReadsAs name q' ∧
      ∃ place place', before.names.FirstFinds name place q ∧ after.names.FirstFinds name place' q' ∧
        (q' ≠ q → ∃ p, PackageAt u.outline place' p ∧ q' = p ++ "." ++ name ∧ q' ∈ known added ∧
          place' < place) ∧
        (place = .declared ∨ place = .imported ∨ place = .package → q' = q) ∧
        (place ≠ .asWritten → place' ≠ .asWritten) := by
  intro before after q q'
  obtain ⟨place, hbefore⟩ := exists_first before.names hname
  obtain ⟨place', hafter⟩ := exists_first after.names hname
  have hknown : ∀ n, n ∈ known additions' ↔ n ∈ known additions ∨ n ∈ known added := fun n =>
    (known_perm h n).trans mem_known_append
  refine ⟨before.readsAs_resolve name, after.readsAs_resolve name, place, place', hbefore, hafter, ?_⟩
  rcases u.firstFinds_grown (fun n hn => (hknown n).mpr (.inl hn)) hbefore hafter with
    ⟨rfl, hsame⟩ | ⟨p, hp, hq, hnew, hold, hlt⟩
  · exact ⟨fun hne => absurd hsame hne, fun _ => hsame, id⟩
  · refine ⟨fun _ => ⟨p, hp, hq, ((hknown _).mp hnew).resolve_left hold, hlt⟩, fun hearly => ?_,
      fun _ => hp.ne_asWritten⟩
    exact absurd (Place.le_package_iff.mpr hearly) (hp.package_le.trans_lt hlt).not_ge

/-- A type of the package takes the place of one that is imported on demand. -/
theorem resolve_grown_invoices :
    IsSimpleName "Timeout" ∧
      (invoiceUnit.setting (known [.unit invoiceUnit, .classpathName "org.bank.Timeout"])).ReadsAs
        "Timeout" "org.bank.Timeout" ∧
      (invoiceUnit.setting (known [.classpathName "org.acme.Timeout", .unit invoiceUnit,
        .classpathName "org.bank.Timeout"])).ReadsAs "Timeout" "org.acme.Timeout" ∧
      ∃ p, p ++ "." ++ "Timeout" = "org.acme.Timeout" ∧
        "org.acme.Timeout" ∈ known [.classpathName "org.acme.Timeout"] := by
  have hname : IsSimpleName "Timeout" := by decide
  obtain ⟨hbefore, hafter, place, place', -, -, hchange, -⟩ :=
    resolve_grown [.unit invoiceUnit, .classpathName "org.bank.Timeout"]
      [.classpathName "org.acme.Timeout"]
      [.classpathName "org.acme.Timeout", .unit invoiceUnit, .classpathName "org.bank.Timeout"]
      (List.perm_append_singleton _ _).symm invoiceUnit "Timeout" hname
  have hq : (invoiceUnit.setting (known [.unit invoiceUnit,
      .classpathName "org.bank.Timeout"])).names.resolve "Timeout" = "org.bank.Timeout" := by
    decide +kernel
  have hq' : (invoiceUnit.setting (known [.classpathName "org.acme.Timeout", .unit invoiceUnit,
      .classpathName "org.bank.Timeout"])).names.resolve "Timeout" = "org.acme.Timeout" := by
    decide +kernel
  rw [hq] at hbefore hchange
  rw [hq'] at hafter hchange
  obtain ⟨p, -, hp, hadded, -⟩ := hchange (by decide)
  exact ⟨hname, hbefore, hafter, p, hp.symm, hadded⟩

end Addition
end FaultTolerance
