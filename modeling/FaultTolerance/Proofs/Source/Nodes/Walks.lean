import FaultTolerance.Java.Source.Lowering
import Mathlib.Data.List.Perm.Basic

/-! The two walks over a syntax tree. Below every node, the walk that collects names and the one that
reads types find the same types, each as often (`names_perm_lowerTypes`), whatever the tree: with types
that have no name or no body, with constants in front of the members of an enum type, with nodes in
places where no source has them. -/
namespace FaultTolerance.Java.Source
set_option autoImplicit false

theorem flatMap_attach {α β : Type} (l : List α) (f : α → List β) :
    (l.attach.flatMap fun x => f x.1) = l.flatMap f :=
  (List.flatMap_subtype fun _ _ => rfl).trans (congrArg _ List.unattach_attach)

theorem flatMap_ite {α β : Type} (l : List α) (p : α → Bool) (f : α → List β) :
    (l.flatMap fun x => if p x then f x else []) = (l.filter p).flatMap f := by
  induction l with
  | nil => rfl
  | cons x l ih =>
    rw [List.flatMap_cons, ih]
    by_cases hx : p x
    · rw [if_pos hx, List.filter_cons_of_pos hx, List.flatMap_cons]
    · rw [if_neg hx, List.filter_cons_of_neg hx, List.nil_append]

/-! ## Collecting names -/

namespace Node

/-- The names that a child adds to those below a node. -/
def namesOf (outer : String) (separator : Char) (n : Node) : List (String × String) :=
  if n.isTypeDeclaration then
    match n.field? .name with
    | none => []
    | some name =>
      let qualified := qualify outer separator name.text
      let inner :=
        match n.field? .body with
        | none => []
        | some body =>
          body.namesBelow qualified '$' ++
            match body.child? .enumBodyDeclarations with
            | none => []
            | some members => members.namesBelow qualified '$'
      inner ++ [(qualified, name.text)]
  else []

theorem namesBelow_eq_flatMap (outer : String) (separator : Char) (n : Node) :
    n.namesBelow outer separator = n.children.flatMap (namesOf outer separator) := by
  rw [namesBelow, ← flatMap_attach n.children]
  congr 1
  funext ⟨child, hchild⟩
  simp only [namesOf]
  cases child.field? .name with
  | none => rfl
  | some name =>
    simp only
    cases child.field? .body with
    | none => rfl
    | some body =>
      simp only
      cases body.child? .enumBodyDeclarations <;> rfl

/-- The names that a type adds are those of its members, and then its own. -/
theorem namesOf_eq {n name : Node} (outer : String) (separator : Char) (h : n.isTypeDeclaration)
    (hname : n.field? .name = some name) :
    n.namesOf outer separator =
      n.members.flatMap (namesOf (qualify outer separator name.text) '$') ++
        [(qualify outer separator name.text, name.text)] := by
  rw [namesOf, if_pos h, hname, members]
  cases n.field? .body with
  | none => rfl
  | some body =>
    simp only [namesBelow_eq_flatMap, List.flatMap_append]
    cases body.child? .enumBodyDeclarations <;> rfl

theorem namesOf_eq_nil {n : Node} (outer : String) (separator : Char)
    (h : n.isTypeDeclaration = false ∨ n.field? .name = none) : n.namesOf outer separator = [] := by
  unfold namesOf
  rcases h with h | h
  · simp [h]
  · simp [h]

theorem flatMap_namesOf_eq_filter (outer : String) (separator : Char) (ns : List Node) :
    ns.flatMap (namesOf outer separator) =
      (ns.filter (·.isTypeDeclaration)).flatMap (namesOf outer separator) := by
  rw [← flatMap_ite]
  refine congrArg (ns.flatMap ·) (funext fun n => ?_)
  cases h : n.isTypeDeclaration with
  | true => rfl
  | false => exact namesOf_eq_nil outer separator (.inl h)

end Node

/-! ## Reading types -/

theorem Setting.lowerType_eq_nil (s : Setting) (outer : String) (separator : Char)
    (typeVariables : List String) {n : Node} (h : n.field? .name = none) :
    s.lowerType outer separator typeVariables n = [] := by
  rw [lowerType, h]

theorem Setting.lowerType_eq_cons (s : Setting) (outer : String) (separator : Char)
    (typeVariables : List String) {n name : Node} (h : n.field? .name = some name) :
    s.lowerType outer separator typeVariables n =
      { name := qualify outer separator name.text
        kind := n.typeKind
        origin := s.origin
        annotations := s.lowerAnnotations n
        methods := (n.members.filter (·.isMethod)).filterMap
          (s.lowerMethod? (typeVariables ++ n.typeVariables))
        fields := (n.members.filter (·.isField)).flatMap
          (s.lowerFields (typeVariables ++ n.typeVariables)) } ::
        (n.members.filter (·.isTypeDeclaration)).flatMap
          (s.lowerType (qualify outer separator name.text) '$'
            (typeVariables ++ n.typeVariables)) := by
  rw [← flatMap_ite _ _ (s.lowerType _ _ _), ← flatMap_attach n.members, lowerType, h]

/-! ## Both walks -/

theorem names_perm_lowerType (s : Setting) (outer : String) (separator : Char)
    (typeVariables : List String) (n : Node) (hn : n.isTypeDeclaration) :
    ((s.lowerType outer separator typeVariables n).map (·.name)).Perm
      ((n.namesOf outer separator).map Prod.fst) := by
  -- The members of a type are smaller than it, so the induction is on the size.
  induction hsize : sizeOf n using Nat.strongRecOn generalizing n outer separator typeVariables with
  | ind size ih =>
    cases hname : n.field? .name with
    | none =>
      rw [s.lowerType_eq_nil _ _ _ hname, Node.namesOf_eq_nil _ _ (.inr hname)]
      exact .refl _
    | some name =>
      have hmembers : (((n.members.filter (·.isTypeDeclaration)).flatMap
            (s.lowerType (qualify outer separator name.text) '$'
              (typeVariables ++ n.typeVariables))).map (·.name)).Perm
          ((n.members.flatMap (Node.namesOf (qualify outer separator name.text) '$')).map
            Prod.fst) := by
        rw [Node.flatMap_namesOf_eq_filter, List.map_flatMap, List.map_flatMap]
        refine List.Perm.flatMap_left _ fun member hmember => ?_
        obtain ⟨hmem, htype⟩ := List.mem_filter.mp hmember
        exact ih _ (hsize ▸ Node.sizeOf_lt_of_mem_members hmem) _ _ _ member htype rfl
      rw [s.lowerType_eq_cons _ _ _ hname, Node.namesOf_eq _ _ hn hname, List.map_cons,
        List.map_append]
      exact (hmembers.cons _).trans (List.perm_append_singleton _ _).symm

/-- Below every node, both walks meet the same types. -/
theorem names_perm_lowerTypes (s : Setting) (outer : String) (separator : Char)
    (typeVariables : List String) (n : Node) :
    (((n.children.filter (·.isTypeDeclaration)).flatMap
        (s.lowerType outer separator typeVariables)).map (·.name)).Perm
      ((n.namesBelow outer separator).map Prod.fst) := by
  rw [Node.namesBelow_eq_flatMap, Node.flatMap_namesOf_eq_filter, List.map_flatMap,
    List.map_flatMap]
  exact List.Perm.flatMap_left _ fun child hchild =>
    names_perm_lowerType s outer separator typeVariables child (List.mem_filter.mp hchild).2

end FaultTolerance.Java.Source
