import FaultTolerance.Proofs.FirstOfEach
import FaultTolerance.Proofs.Source.Nesting

/-! The order of the types of a source. They are in preorder: a type, then for each type nested in it, in
the order of the members, the same again (`names_typesOfAll`). So each type stands with its block in one
piece, and before the types inside it. -/
namespace FaultTolerance.Java.Source
set_option autoImplicit false

/-! ## Preorder -/

mutual

/-- The name of a type, then those of the types nested in it, each after its outer type. -/
def TypeSyntax.preorder (name : String) : TypeSyntax → List String
  | .mk _ _ _ _ _ _ nested => name :: preorderInside name nested

/-- The names of types nested in the type called `outer`. -/
def preorderInside (outer : String) : List TypeSyntax → List String
  | [] => []
  | t :: ts => t.preorder (outer ++ "$" ++ t.simple) ++ preorderInside outer ts

end

theorem preorderInside_eq_flatMap (outer : String) (ts : List TypeSyntax) :
    preorderInside outer ts = ts.flatMap fun t => t.preorder (outer ++ "$" ++ t.simple) := by
  induction ts with
  | nil => rfl
  | cons t ts ih => rw [preorderInside, ih, List.flatMap_cons]

theorem preorder_eq_cons (name : String) (t : TypeSyntax) :
    t.preorder name = name :: t.nested.flatMap fun u => u.preorder (name ++ "$" ++ u.simple) := by
  cases t
  rw [TypeSyntax.preorder, preorderInside_eq_flatMap]
  rfl

theorem qualify_dollar {outer : String} (houter : outer ≠ "") (name : String) :
    qualify outer '$' name = outer ++ "$" ++ name := by
  rw [qualify, if_neg (by simpa using houter)]
  rfl

theorem qualify_dollar_ne_empty {outer : String} (houter : outer ≠ "") (name : String) :
    qualify outer '$' name ≠ "" := by
  rw [qualify_dollar houter]
  intro h
  have hdollar := (String.append_eq_empty_iff.mp h).1
  exact absurd (String.append_eq_empty_iff.mp hdollar).2 (by decide)

theorem preorder_eq_cons_of_ne {name : String} (hname : name ≠ "") (t : TypeSyntax) :
    t.preorder name = name :: t.nested.flatMap fun u => u.preorder (qualify name '$' u.simple) := by
  rw [preorder_eq_cons]
  simp only [qualify_dollar hname]

mutual

theorem names_typesOf (s : Setting) (outer : String) (separator : Char)
    (typeVariables : List String) (t : TypeSyntax)
    (hname : qualify outer separator t.simple ≠ "") :
    (s.typesOf outer separator typeVariables t).map (·.name) =
      t.preorder (qualify outer separator t.simple) := by
  cases t with
  | mk kind annotations name typeParameters methods fields nested =>
    rw [Setting.typesOf, TypeSyntax.preorder, List.map_cons]
    exact congrArg _ (names_typesInside s _ nested hname)

theorem names_typesInside (s : Setting) {outer : String} (typeVariables : List String)
    (ts : List TypeSyntax) (houter : outer ≠ "") :
    (s.typesOfAll outer '$' typeVariables ts).map (·.name) = preorderInside outer ts := by
  cases ts with
  | nil => rfl
  | cons t ts =>
    have ht := names_typesOf s outer '$' typeVariables t (qualify_dollar_ne_empty houter t.simple)
    rw [Setting.typesOfAll, preorderInside, List.map_append, ht, qualify_dollar houter,
      names_typesInside s typeVariables ts houter]

end

theorem names_typesOfAll (s : Setting) (outer : String) (separator : Char)
    (typeVariables : List String) {ts : List TypeSyntax} (hts : ∀ t ∈ ts, t.simple ≠ "") :
    (s.typesOfAll outer separator typeVariables ts).map (·.name) =
      ts.flatMap fun t => t.preorder (qualify outer separator t.simple) := by
  induction ts with
  | nil => rfl
  | cons t ts ih =>
    obtain ⟨ht, hts⟩ := List.forall_mem_cons.mp hts
    rw [Setting.typesOfAll, List.map_append,
      names_typesOf s outer separator typeVariables t (qualify_ne_empty outer separator ht), ih hts,
      List.flatMap_cons]

/-! ## The block of a type -/

/-- Each type, with its block behind it, stands in one piece in the list of all names. -/
theorem infix_preorder {ts path : List TypeSyntax} {t : TypeSyntax} (h : Declares ts path t)
    (outer : String) (separator : Char) (hts : ∀ t ∈ ts, qualify outer separator t.simple ≠ "") :
    t.preorder (qualifiedName outer separator path t) <:+:
      ts.flatMap fun u => u.preorder (qualify outer separator u.simple) := by
  induction h generalizing outer separator with
  | here h => exact infix_flatMap_of_mem (fun u => u.preorder (qualify outer separator u.simple)) h
  | @inside ts path u t h _ ih =>
    have hname := hts u h
    have hblock : u.preorder (qualify outer separator u.simple) <:+:
        ts.flatMap fun u => u.preorder (qualify outer separator u.simple) :=
      infix_flatMap_of_mem (fun u => u.preorder (qualify outer separator u.simple)) h
    rw [preorder_eq_cons_of_ne hname] at hblock
    rw [qualifiedName]
    exact (ih _ _ fun v _ => qualify_dollar_ne_empty hname v.simple).trans
      (.trans (List.suffix_cons _ _).isInfix hblock)

theorem qualifiedName_append (outer : String) (separator : Char) (path path' : List TypeSyntax)
    (t u : TypeSyntax) :
    qualifiedName outer separator (path ++ t :: path') u =
      qualifiedName (qualifiedName outer separator path t) '$' path' u := by
  induction path generalizing outer separator with
  | nil => rfl
  | cons v path ih => exact ih _ _

theorem qualifiedName_ne_empty {ts path : List TypeSyntax} {t : TypeSyntax} (h : Declares ts path t)
    (outer : String) (separator : Char) (hname : ∀ path t, Declares ts path t → t.simple ≠ "") :
    qualifiedName outer separator path t ≠ "" := by
  induction h generalizing outer separator with
  | here h => exact qualify_ne_empty outer separator (hname _ _ (.here h))
  | inside h hin ih => exact ih _ _ fun path t ht => hname _ t (.inside h ht)

/-- A type comes before those inside it. -/
theorem outer_before_nested {ts path path' : List TypeSyntax} {t u : TypeSyntax}
    (h : Declares ts path t) (hin : Declares t.nested path' u) (outer : String) (separator : Char)
    (hts : ∀ path t, Declares ts path t → t.simple ≠ "") :
    [qualifiedName outer separator path t, qualifiedName outer separator (path ++ t :: path') u].Sublist
      (ts.flatMap fun u => u.preorder (qualify outer separator u.simple)) := by
  have hname := qualifiedName_ne_empty h outer separator hts
  have hblock := infix_preorder h outer separator fun t ht =>
    qualify_ne_empty outer separator (hts [] t (.here ht))
  have hmem : qualifiedName outer separator (path ++ t :: path') u ∈ t.nested.flatMap fun u =>
      u.preorder (qualify (qualifiedName outer separator path t) '$' u.simple) := by
    apply (infix_preorder hin _ '$' fun v _ => qualify_dollar_ne_empty hname v.simple).subset
    rw [qualifiedName_append, preorder_eq_cons]
    exact List.mem_cons_self
  rw [preorder_eq_cons_of_ne hname] at hblock
  exact ((List.singleton_sublist.mpr hmem).cons_cons _).trans hblock.sublist

/-! ## Enumerations -/

/-- The members of an enumeration are those of a class with the part of the body after the constants. -/
theorem declarationsOf_enum {constants members : List Tree} {semicolon : Tree}
    (hconstants : ∀ c ∈ constants, c.isSymbol ";" = false) (hsemicolon : semicolon.isSymbol ";") :
    declarationsOf .enumType (constants ++ semicolon :: members) =
      declarationsOf .classType members := by
  have hskip : ∀ c ∈ constants, (!c.isSymbol ";") = true := by
    intro c hc
    rw [hconstants c hc]
    rfl
  unfold declarationsOf
  rw [List.dropWhile_append_of_pos hskip, List.dropWhile_cons_of_neg (by simp [hsemicolon]),
    List.drop_succ_cons, List.drop_zero]

end FaultTolerance.Java.Source
