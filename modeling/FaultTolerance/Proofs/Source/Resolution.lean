import FaultTolerance.Proofs.Source.Outline

/-! What a source means depends on the names known outside of it only through which names are known.
Scopes that know the same names resolve alike (`resolve_congr`), and settings that resolve alike give
every declaration the same meaning (`typesOfAll_congr`). -/
namespace FaultTolerance.Java.Source
open Text
set_option autoImplicit false

/-! ## Scopes -/

theorem NameScope.knownIn?_congr {known known' : List String} (s : NameScope)
    (h : ∀ n, n ∈ known ↔ n ∈ known') (package name : String) :
    { s with known }.knownIn? package name = { s with known := known' }.knownIn? package name := by
  have hc : known.contains (package ++ "." ++ name) = known'.contains (package ++ "." ++ name) := by
    rw [Bool.eq_iff_iff, List.contains_iff_mem, List.contains_iff_mem]
    exact h _
  unfold NameScope.knownIn?
  simp only [hc]

theorem NameScope.resolve_congr {known known' : List String} (s : NameScope)
    (h : ∀ n, n ∈ known ↔ n ∈ known') :
    { s with known }.resolve = { s with known := known' }.resolve := by
  funext name
  unfold NameScope.resolve
  simp only [NameScope.knownIn?_congr s h]

/-! ## Settings -/

/-- Two settings that give the same meaning to every name and the same place to every token. -/
structure Setting.Agrees (s s' : Setting) : Prop where
  resolve : s.names.resolve = s'.names.resolve
  table : s.table = s'.table
  origin : s.origin = s'.origin

namespace Setting.Agrees
variable {s s' : Setting}

theorem resolveType (h : s.Agrees s') : s.names.resolveType = s'.names.resolveType := by
  funext typeVariables written
  unfold NameScope.resolveType
  rw [h.resolve]

/-! ### Values -/

theorem expression (h : s.Agrees s') (ts : List Tree) : s.expression ts = s'.expression ts := by
  unfold Setting.expression
  cases formOf ts <;> simp only [h.resolve, h.resolveType]

mutual

theorem value (h : s.Agrees s') (v : ValueSyntax) : s.value v = s'.value v := by
  cases v with
  | array group items => simp only [Setting.value, h.values items]
  | expression ts => simp only [Setting.value, h.expression]

theorem values (h : s.Agrees s') (vs : List ValueSyntax) : s.values vs = s'.values vs := by
  cases vs with
  | nil => rfl
  | cons v vs => simp only [Setting.values, h.value v, h.values vs]

end

theorem valueRange (h : s.Agrees s') (v : ValueSyntax) : s.valueRange v = s'.valueRange v := by
  cases v <;> simp only [Setting.valueRange, Setting.rangeOf, h.table]

/-! ### Annotations and members -/

theorem member (h : s.Agrees s') : s.member = s'.member := by
  funext a
  simp only [Setting.member, h.value, h.valueRange]

theorem annotation (h : s.Agrees s') : s.annotation = s'.annotation := by
  funext a
  simp only [Setting.annotation, h.resolve, h.member, h.table]

theorem parameterType (h : s.Agrees s') (typeVariables : List String) :
    s.parameterType typeVariables = s'.parameterType typeVariables := by
  funext p
  cases p <;> simp only [Setting.parameterType, h.resolveType]

theorem method (h : s.Agrees s') (typeVariables : List String) :
    s.method typeVariables = s'.method typeVariables := by
  funext m
  simp only [Setting.method, h.resolveType, h.parameterType, h.annotation, Setting.tokenRange,
    h.table]

theorem fields (h : s.Agrees s') (typeVariables : List String) :
    s.fields typeVariables = s'.fields typeVariables := by
  funext f
  simp only [Setting.fields, h.resolveType, h.annotation, Setting.tokenRange, h.table]

/-! ### Types -/

mutual

theorem typesOf (h : s.Agrees s') (outer : String) (separator : Char)
    (typeVariables : List String) (t : TypeSyntax) :
    s.typesOf outer separator typeVariables t = s'.typesOf outer separator typeVariables t := by
  cases t with
  | mk kind annotations name typeParameters methods fields nested =>
    simp only [Setting.typesOf, h.annotation, h.method, h.fields, h.origin, h.typesOfAll _ _ _ nested]

theorem typesOfAll (h : s.Agrees s') (outer : String) (separator : Char)
    (typeVariables : List String) (ts : List TypeSyntax) :
    s.typesOfAll outer separator typeVariables ts = s'.typesOfAll outer separator typeVariables ts := by
  cases ts with
  | nil => rfl
  | cons t ts => simp only [Setting.typesOfAll, h.typesOf _ _ _ t, h.typesOfAll _ _ _ ts]

end
end Setting.Agrees

/-! ## Sources -/

theorem resolve_ofOutline_congr {known known' : List String} (o : Outline)
    (h : ∀ n, n ∈ known ↔ n ∈ known') :
    (NameScope.ofOutline known o).resolve = (NameScope.ofOutline known' o).resolve :=
  NameScope.resolve_congr (NameScope.ofOutline [] o) h

theorem toTypes_congr {known known' : List String} (o : Outline) (cs : List Char) (origin : Origin)
    (h : ∀ n, n ∈ known ↔ n ∈ known') : o.toTypes cs origin known = o.toTypes cs origin known' := by
  have hagrees : Setting.Agrees ⟨.ofOutline known o, .ofText cs, origin⟩
      ⟨.ofOutline known' o, .ofText cs, origin⟩ :=
    ⟨resolve_ofOutline_congr o h, rfl, rfl⟩
  exact hagrees.typesOfAll o.packagePrefix '.' [] o.types

end FaultTolerance.Java.Source
