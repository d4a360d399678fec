import FaultTolerance.Proofs.Source.Nesting
import FaultTolerance.Proofs.Source.Uses
import FaultTolerance.Proofs.Project.Building

/-! The types of one source make up one table, without regard to the bodies in which they stand. Of
several types of one name the source sees the one whose declaration ends last, everywhere
(`SourceUnit.member_types_span_file`). In a lexical scope a name would mean the member of the innermost
type around the use (`lexicalName`); the two differ where two types have one name. -/
namespace FaultTolerance
namespace Java.Source
set_option autoImplicit false

/-! ## The last type of a name -/

/-- Nothing among some types, at any depth, is called `name`. -/
def NoneCalled (name : String) (ts : List TypeSyntax) : Prop :=
  ∀ path t, Declares ts path t → t.simple ≠ name

/-- The type called `name` whose declaration ends last, and the types around it. A declaration ends after
those of the types nested in it and before that of the next type. -/
inductive LastCalled (name : String) : List TypeSyntax → List TypeSyntax → TypeSyntax → Prop where
  | here {t : TypeSyntax} {ts : List TypeSyntax} (hname : t.simple = name)
      (hrest : NoneCalled name ts) : LastCalled name (t :: ts) [] t
  | inside {t u : TypeSyntax} {ts path : List TypeSyntax} (hname : t.simple ≠ name)
      (hrest : NoneCalled name ts) (h : LastCalled name t.nested path u) :
      LastCalled name (t :: ts) (t :: path) u
  | later {t u : TypeSyntax} {ts path : List TypeSyntax} (h : LastCalled name ts path u) :
      LastCalled name (t :: ts) path u

theorem exists_lastCalled {name : String} {ts : List TypeSyntax}
    (h : ∃ path t, Declares ts path t ∧ t.simple = name) :
    ∃ path t, LastCalled name ts path t := by
  match ts with
  | [] =>
    obtain ⟨_, _, hdecl, _⟩ := h
    exact absurd hdecl not_declares_nil
  | .mk kind annotations token typeParameters methods fields nested :: ts =>
    by_cases hlater : ∃ path t, Declares ts path t ∧ t.simple = name
    · obtain ⟨path, t, hlast⟩ := exists_lastCalled hlater
      exact ⟨path, t, .later hlast⟩
    have hrest : NoneCalled name ts := fun path t hdecl hname => hlater ⟨path, t, hdecl, hname⟩
    by_cases hname : token.text = name
    · exact ⟨[], _, .here hname hrest⟩
    rcases exists_declares_cons.mp h with (hhere | ⟨path, t, hin, ht⟩) | hdecl
    · exact absurd hhere hname
    · have hnested : ∃ path t, Declares nested path t ∧ t.simple = name := ⟨path, t, hin, ht⟩
      obtain ⟨path, t, hlast⟩ := exists_lastCalled hnested
      exact ⟨_ :: path, t, .inside hname hrest hlast⟩
    · exact absurd hdecl hlater

theorem LastCalled.declares {name : String} {ts path : List TypeSyntax} {t : TypeSyntax}
    (h : LastCalled name ts path t) : Declares ts path t ∧ t.simple = name := by
  induction h with
  | here hname _ => exact ⟨.here List.mem_cons_self, hname⟩
  | inside _ _ _ ih => exact ⟨.inside List.mem_cons_self ih.1, ih.2⟩
  | later _ ih => exact ⟨ih.1.cons _, ih.2⟩

/-! ## The table of a source -/

/-- The simple and the qualified names of some types, later types first. -/
def nameTable (outer : String) (separator : Char) (ts : List TypeSyntax) : List (String × String) :=
  (namesOfAll outer separator ts).reverse.map Prod.swap

theorem nameTable_cons (outer : String) (separator : Char) (t : TypeSyntax) (ts : List TypeSyntax) :
    nameTable outer separator (t :: ts) =
      nameTable outer separator ts ++ (t.simple, qualify outer separator t.simple) ::
        nameTable (qualify outer separator t.simple) '$' t.nested := by
  cases t
  unfold nameTable
  rw [namesOfAll, TypeSyntax.names, List.reverse_append, List.map_append, List.reverse_append]
  rfl

theorem lookup_nameTable_eq_none_iff {outer name : String} {separator : Char}
    {ts : List TypeSyntax} :
    (nameTable outer separator ts).lookup name = none ↔ NoneCalled name ts := by
  rw [← Option.not_isSome_iff_eq_none, List.lookup_isSome_iff]
  constructor
  · intro h path t hdecl hname
    have hsimple : name ∈ (namesOfAll outer separator ts).map Prod.snd :=
      mem_simpleNames.mpr ⟨path, t, hdecl, hname⟩
    obtain ⟨⟨q, n⟩, hmem, hn⟩ := List.mem_map.mp hsimple
    exact h ⟨(n, q), List.mem_map.mpr ⟨(q, n), List.mem_reverse.mpr hmem, rfl⟩,
      beq_iff_eq.mpr hn.symm⟩
  · rintro h ⟨p, hp, hname⟩
    obtain ⟨⟨q, n⟩, hmem, rfl⟩ := List.mem_map.mp hp
    obtain ⟨path, t, hdecl, _, hn⟩ := (mem_namesOfAll ts).mp (List.mem_reverse.mp hmem)
    exact h path t hdecl (hn.symm.trans (beq_iff_eq.mp hname).symm)

theorem LastCalled.lookup {name : String} {ts path : List TypeSyntax} {t : TypeSyntax}
    (h : LastCalled name ts path t) (outer : String) (separator : Char) :
    (nameTable outer separator ts).lookup name = some (qualifiedName outer separator path t) := by
  induction h generalizing outer separator with
  | here hname hrest =>
    rw [nameTable_cons, List.lookup_append, lookup_nameTable_eq_none_iff.mpr hrest, Option.none_or,
      hname, List.lookup_cons_self, ← hname]
    rfl
  | inside hname hrest _ ih =>
    rw [nameTable_cons, List.lookup_append, lookup_nameTable_eq_none_iff.mpr hrest, Option.none_or,
      List.lookup_cons, beq_eq_false_iff_ne.mpr hname.symm]
    exact ih _ _
  | later _ ih => rw [nameTable_cons, List.lookup_append, ih, Option.some_or]

/-! ## Lexical scope -/

/-- The member type called `name` of the innermost of some types, each of which stands in the one
before it. -/
def memberInScope? (outer : String) (separator : Char) (name : String) :
    List TypeSyntax → Option String
  | [] => none
  | t :: chain =>
    let qualified := qualify outer separator t.simple
    (memberInScope? qualified '$' name chain).or
      (if t.nested.any (·.simple == name) then some (qualify qualified '$' name) else none)

/-- The simple and the qualified names of the types at top level, later types first. -/
def topTable (outer : String) (ts : List TypeSyntax) : List (String × String) :=
  (ts.map fun t => (t.simple, qualify outer '.' t.simple)).reverse

/-- What `name` means in a body with the types `chain` around it, when a member type is seen in the
body that declares it and nowhere else. -/
def lexicalName (known : List String) (o : Outline) (chain : List TypeSyntax) (name : String) :
    String :=
  (memberInScope? o.packagePrefix '.' name chain).getD
    ({ NameScope.ofOutline known o with declared := topTable o.packagePrefix o.types }.resolve name)

theorem declares_of_member {name q outer : String} {separator : Char} {ts : List TypeSyntax}
    {t : TypeSyntax} (ht : t ∈ ts)
    (h : (if t.nested.any (·.simple == name) then
      some (qualify (qualify outer separator t.simple) '$' name) else none) = some q) :
    ∃ path u, Declares ts path u ∧ u.simple = name ∧ q = qualifiedName outer separator path u := by
  split at h
  · rename_i hany
    obtain ⟨u, hu, hname⟩ := List.any_eq_true.mp hany
    rw [beq_iff_eq] at hname
    subst hname
    exact ⟨[t], u, .inside ht (.here hu), rfl, (Option.some.inj h).symm⟩
  · cases h

theorem declares_of_memberInScope? {name q : String} {path ts : List TypeSyntax} {t : TypeSyntax}
    (hplace : Declares ts path t) {outer : String} {separator : Char}
    (h : memberInScope? outer separator name (path ++ [t]) = some q) :
    ∃ path' u, Declares ts path' u ∧ u.simple = name ∧
      q = qualifiedName outer separator path' u := by
  induction hplace generalizing outer separator with
  | here hmem =>
    rw [List.nil_append, memberInScope?, memberInScope?, Option.none_or] at h
    exact declares_of_member hmem h
  | inside hmem _ ih =>
    rw [List.cons_append, memberInScope?] at h
    rcases Option.or_eq_some_iff.mp h with hinner | ⟨_, houter⟩
    · obtain ⟨path', u, hdecl, hname, hq⟩ := ih hinner
      exact ⟨_ :: path', u, .inside hmem hdecl, hname, hq⟩
    · exact declares_of_member hmem houter

theorem mem_topTable {outer name q : String} {ts : List TypeSyntax} :
    (name, q) ∈ topTable outer ts ↔ ∃ t ∈ ts, t.simple = name ∧ qualify outer '.' t.simple = q := by
  unfold topTable
  rw [List.mem_reverse, List.mem_map]
  simp only [Prod.mk.injEq]

/-- At most one type of a source is called `name`. -/
def SoleName (o : Outline) (name : String) : Prop :=
  ∀ path t path' t', Declares o.types path t → Declares o.types path' t' →
    t.simple = name → t'.simple = name →
      qualifiedName o.packagePrefix '.' path t = qualifiedName o.packagePrefix '.' path' t'

section
variable {known : List String} {o : Outline} {name : String} {path : List TypeSyntax}
  {t : TypeSyntax}

theorem resolve_of_lastCalled (known : List String) (hname : IsSimpleName name)
    (h : LastCalled name o.types path t) :
    (NameScope.ofOutline known o).resolve name = qualifiedName o.packagePrefix '.' path t :=
  NameScope.resolve_declared hname (h.lookup o.packagePrefix '.')

theorem resolve_of_noneCalled (known : List String) (h : NoneCalled name o.types) :
    (NameScope.ofOutline known o).resolve name =
      { NameScope.ofOutline known o with declared := [] }.resolve name :=
  NameScope.resolve_undeclared (lookup_nameTable_eq_none_iff.mpr h)

theorem lexicalName_of_noneCalled (hplace : Declares o.types path t)
    (h : NoneCalled name o.types) :
    lexicalName known o (path ++ [t]) name =
      { NameScope.ofOutline known o with declared := [] }.resolve name := by
  have hmember : memberInScope? o.packagePrefix '.' name (path ++ [t]) = none := by
    rw [Option.eq_none_iff_forall_ne_some]
    intro q hq
    obtain ⟨path', u, hdecl, hu, _⟩ := declares_of_memberInScope? hplace hq
    exact h path' u hdecl hu
  have htop : (topTable o.packagePrefix o.types).lookup name = none := by
    rw [List.lookup_eq_none_iff]
    rintro ⟨n, q⟩ hmem
    obtain ⟨u, hu, hn, _⟩ := mem_topTable.mp hmem
    exact bne_iff_ne.mpr fun hname => h [] u (.here hu) (hn.trans hname.symm)
  rw [lexicalName, hmember]
  exact NameScope.resolve_undeclared htop

/-- The lexical meaning of a name that one type of the source has, when that type stands at top level or
is a member of a type around the use. -/
theorem lexicalName_of_soleName {path' : List TypeSyntax} {u : TypeSyntax}
    (hname : IsSimpleName name) (hsole : SoleName o name) (hplace : Declares o.types path t)
    (hdecl : Declares o.types path' u) (hu : u.simple = name)
    (hseen : path' = [] ∨ (memberInScope? o.packagePrefix '.' name (path ++ [t])).isSome) :
    lexicalName known o (path ++ [t]) name = qualifiedName o.packagePrefix '.' path' u := by
  cases hmember : memberInScope? o.packagePrefix '.' name (path ++ [t]) with
  | some q =>
    obtain ⟨path₂, v, hdecl₂, hv, rfl⟩ := declares_of_memberInScope? hplace hmember
    rw [lexicalName, hmember]
    exact hsole path₂ v path' u hdecl₂ hdecl hv hu
  | none =>
    rw [hmember] at hseen
    obtain rfl : path' = [] := hseen.resolve_right (by decide)
    cases hdecl with
    | here hmem =>
    rw [lexicalName, hmember]
    refine NameScope.resolve_declared hname (lookup_eq_some_of_unique ?_ ?_)
    · exact mem_topTable.mpr ⟨u, hmem, hu, rfl⟩
    · intro q hq
      obtain ⟨v, hv, hname', rfl⟩ := mem_topTable.mp hq
      exact hsole [] v [] u (.here hv) (.here hmem) hname' hu

end
end Java.Source

open Java Source

/-- The types of a source are read at their places, and a simple name means one type at all of them: the
type so called whose declaration ends last, or, where no type of the source is so called, what the name
means outside of it. This is the lexical meaning of the name in the body of `t` when at most one type of
the source is so called, and that one stands at top level or is a member of a type around the body. -/
theorem SourceUnit.member_types_span_file (u : SourceUnit) (known : List String) (name : String)
    (hname : IsSimpleName name) :
    (∀ T : JavaType, T ∈ u.types known ↔ ∃ path t, Declares u.outline.types path t ∧
      T = (u.setting known).typeAt u.outline.packagePrefix '.' [] path t) ∧
    ((∃ path t, Declares u.outline.types path t ∧ t.simple = name) →
      ∃ path t, LastCalled name u.outline.types path t ∧ (u.setting known).ReadsAs name
        (qualifiedName u.outline.packagePrefix '.' path t)) ∧
    (NoneCalled name u.outline.types → (u.setting known).ReadsAs name
      ({ (u.setting known).names with declared := [] }.resolve name)) ∧
    ∀ path t, Declares u.outline.types path t → SoleName u.outline name →
      (∀ path' t', Declares u.outline.types path' t' → t'.simple = name →
        path' = [] ∨ (memberInScope? u.outline.packagePrefix '.' name (path ++ [t])).isSome) →
      (u.setting known).ReadsAs name (lexicalName known u.outline (path ++ [t]) name) := by
  have hread := (u.setting known).readsAs_resolve name
  rw [u.names_setting] at hread
  refine ⟨fun T => ?_, ?_, ?_, ?_⟩
  · rw [u.types_eq_typesOfAll]
    exact Setting.mem_typesOfAll _
  · intro hsome
    obtain ⟨path, t, hlast⟩ := exists_lastCalled hsome
    exact ⟨path, t, hlast, resolve_of_lastCalled known hname hlast ▸ hread⟩
  · intro hnone
    rw [u.names_setting]
    exact resolve_of_noneCalled known hnone ▸ hread
  · intro path t hplace hsole hseen
    by_cases hsome : ∃ path' t', Declares u.outline.types path' t' ∧ t'.simple = name
    · obtain ⟨path', t', hlast⟩ := exists_lastCalled hsome
      obtain ⟨hdecl, hcalled⟩ := hlast.declares
      rw [lexicalName_of_soleName hname hsole hplace hdecl hcalled (hseen path' t' hdecl hcalled)]
      exact resolve_of_lastCalled known hname hlast ▸ hread
    · have hnone : NoneCalled name u.outline.types :=
        fun path' t' hdecl hcalled => hsome ⟨path', t', hdecl, hcalled⟩
      rw [lexicalName_of_noneCalled hplace hnone]
      exact resolve_of_noneCalled known hnone ▸ hread

/-- Two classes that each have a builder; the second one also has a type called like an import. -/
def cartUnit : SourceUnit where
  uri := "file:///Cart.java"
  text := "package shop;\nimport org.bank.Timeout;\n" ++
    "class Cart \x7b class Builder \x7b\x7d class Line \x7b\x7d\n" ++
    "  Builder builder; Timeout limit; Line first;\n\x7d\n" ++
    "class Order \x7b class Builder \x7b\x7d class Timeout \x7b\x7d \x7d\n"

def cartSyntax : TypeSyntax := cartUnit.outline.types.head (by decide +kernel)

theorem cart_declares : Declares cartUnit.outline.types [] cartSyntax := .here (List.head_mem _)

theorem namesOfAll_cart : namesOfAll cartUnit.outline.packagePrefix '.' cartUnit.outline.types =
    [("shop.Cart$Builder", "Builder"), ("shop.Cart$Line", "Line"), ("shop.Cart", "Cart"),
      ("shop.Order$Builder", "Builder"), ("shop.Order$Timeout", "Timeout"),
      ("shop.Order", "Order")] := by
  decide +kernel

/-- In the class of the cart the lexical meanings are its own builder and the imported type, but the
fields have the types declared in the other class. -/
theorem cart_fields_not_lexical :
    lexicalName [] cartUnit.outline [cartSyntax] "Builder" = "shop.Cart$Builder" ∧
      lexicalName [] cartUnit.outline [cartSyntax] "Timeout" = "org.bank.Timeout" ∧
      lexicalName [] cartUnit.outline [cartSyntax] "Line" = "shop.Cart$Line" ∧
      ((cartUnit.types []).head?.map fun T => T.fields.map fun f => (f.name, f.type)) =
        some [("builder", "shop.Order$Builder"), ("limit", "shop.Order$Timeout"),
          ("first", "shop.Cart$Line")] := by
  decide +kernel

theorem member_types_span_file_cart :
    IsSimpleName "Builder" ∧ IsSimpleName "Line" ∧
      (cartUnit.setting []).ReadsAs "Builder" "shop.Order$Builder" ∧
      lexicalName [] cartUnit.outline [cartSyntax] "Builder" = "shop.Cart$Builder" ∧
      (cartUnit.setting []).ReadsAs "Line"
        (lexicalName [] cartUnit.outline [cartSyntax] "Line") := by
  have hbuilder : IsSimpleName "Builder" := by decide
  have hline : IsSimpleName "Line" := by decide
  refine ⟨hbuilder, hline, ?_, cart_fields_not_lexical.1, ?_⟩
  · have hmem : "Builder" ∈ (namesOfAll cartUnit.outline.packagePrefix '.'
        cartUnit.outline.types).map Prod.snd := by
      rw [namesOfAll_cart]
      decide
    obtain ⟨path, t, hlast, hread⟩ :=
      (cartUnit.member_types_span_file [] "Builder" hbuilder).2.1 (mem_simpleNames.mp hmem)
    have hq := hlast.lookup cartUnit.outline.packagePrefix '.'
    rw [nameTable, namesOfAll_cart] at hq
    have hname : "shop.Order$Builder" = qualifiedName cartUnit.outline.packagePrefix '.' path t :=
      Option.some.inj hq
    exact hname ▸ hread
  · have hname : ∀ path t, Declares cartUnit.outline.types path t → t.simple = "Line" →
        qualifiedName cartUnit.outline.packagePrefix '.' path t = "shop.Cart$Line" := by
      intro path t hdecl hcalled
      have hmem : (qualifiedName cartUnit.outline.packagePrefix '.' path t, t.simple) ∈
          namesOfAll cartUnit.outline.packagePrefix '.' cartUnit.outline.types :=
        (mem_namesOfAll _).mpr ⟨path, t, hdecl, rfl, rfl⟩
      rw [namesOfAll_cart, hcalled] at hmem
      simpa using hmem
    have hseen : (memberInScope? cartUnit.outline.packagePrefix '.' "Line" [cartSyntax]).isSome := by
      decide +kernel
    exact (cartUnit.member_types_span_file [] "Line" hline).2.2.2 [] cartSyntax cart_declares
      (fun _ _ _ _ hdecl hdecl' hcalled hcalled' =>
        (hname _ _ hdecl hcalled).trans (hname _ _ hdecl' hcalled').symm)
      fun _ _ _ _ => .inr hseen

end FaultTolerance
