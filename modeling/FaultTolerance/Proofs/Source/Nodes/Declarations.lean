import FaultTolerance.Proofs.Source.Nodes.Members
import FaultTolerance.Proofs.Source.Nodes.Walks

/-! What the nodes of declarations mean. The nodes of a body are `ReadAs` the members that the body
declares, whatever stands between them (`readAs_declarationNodes`): a type, a method or a field is lowered
to what it means, and everything else is passed over. -/
namespace FaultTolerance.Java.Source
set_option autoImplicit false

/-! ## Nodes and members -/

/-- Some nodes are lowered to some members, and the names that they declare are those of the types. -/
structure ReadAs (s : Setting) (ns : List Node) (m : Members) : Prop where
  methods : ∀ typeVariables, (ns.filter (·.isMethod)).filterMap (s.lowerMethod? typeVariables) =
    m.methods.map (s.method typeVariables)
  fields : ∀ typeVariables, (ns.filter (·.isField)).flatMap (s.lowerFields typeVariables) =
    m.fields.flatMap (s.fields typeVariables)
  types : ∀ outer separator typeVariables,
    (ns.filter (·.isTypeDeclaration)).flatMap (s.lowerType outer separator typeVariables) =
      s.typesOfAll outer separator typeVariables m.types
  names : ∀ outer separator, ns.flatMap (Node.namesOf outer separator) =
    namesOfAll outer separator m.types

/-- A node that declares nothing. -/
def Node.IsOther (n : Node) : Prop :=
  n.isMethod = false ∧ n.isField = false ∧ n.isTypeDeclaration = false

theorem Node.exclusive (n : Node) :
    n.IsOther ∨ (n.isMethod ∧ n.isField = false ∧ n.isTypeDeclaration = false) ∨
      (n.isMethod = false ∧ n.isField ∧ n.isTypeDeclaration = false) ∨
      (n.isMethod = false ∧ n.isField = false ∧ n.isTypeDeclaration) := by
  unfold IsOther isMethod isField isTypeDeclaration
  cases n.kind <;> simp

namespace ReadAs
variable {s : Setting} {n : Node} {ns : List Node} {m : Members}

theorem nil (s : Setting) : ReadAs s [] ⟨[], [], []⟩ :=
  ⟨fun _ => rfl, fun _ => rfl, fun _ _ _ => rfl, fun _ _ => rfl⟩

theorem other (hn : n.IsOther) (h : ReadAs s ns m) : ReadAs s (n :: ns) m := by
  obtain ⟨hmethod, hfield, htype⟩ := hn
  refine ⟨fun _ => ?_, fun _ => ?_, fun _ _ _ => ?_, fun _ _ => ?_⟩
  · rw [List.filter_cons_of_neg (by simp [hmethod]), h.methods]
  · rw [List.filter_cons_of_neg (by simp [hfield]), h.fields]
  · rw [List.filter_cons_of_neg (by simp [htype]), h.types]
  · rw [List.flatMap_cons, Node.namesOf_eq_nil _ _ (.inl htype), List.nil_append, h.names]

theorem others {os : List Node} (hos : ∀ n ∈ os, n.IsOther) (h : ReadAs s ns m) :
    ReadAs s (os ++ ns) m := by
  induction os with
  | nil => exact h
  | cons n os ih =>
    obtain ⟨hn, hos⟩ := List.forall_mem_cons.mp hos
    exact (ih hos).other hn

theorem method {x : MethodSyntax} (hn : n.isMethod)
    (hx : ∀ typeVariables, s.lowerMethod? typeVariables n = some (s.method typeVariables x))
    (h : ReadAs s ns m) : ReadAs s (n :: ns) { m with methods := x :: m.methods } := by
  obtain ⟨hfield, htype⟩ : n.isField = false ∧ n.isTypeDeclaration = false := by
    rcases n.exclusive with h | h | h | h <;> simp_all [Node.IsOther]
  refine ⟨fun _ => ?_, fun _ => ?_, fun _ _ _ => ?_, fun _ _ => ?_⟩
  · rw [List.filter_cons_of_pos hn, List.filterMap_cons_some (hx _), h.methods, List.map_cons]
  · rw [List.filter_cons_of_neg (by simp [hfield]), h.fields]
  · rw [List.filter_cons_of_neg (by simp [htype]), h.types]
  · rw [List.flatMap_cons, Node.namesOf_eq_nil _ _ (.inl htype), List.nil_append, h.names]

theorem field {x : FieldSyntax} (hn : n.isField)
    (hx : ∀ typeVariables, s.lowerFields typeVariables n = s.fields typeVariables x)
    (h : ReadAs s ns m) : ReadAs s (n :: ns) { m with fields := x :: m.fields } := by
  obtain ⟨hmethod, htype⟩ : n.isMethod = false ∧ n.isTypeDeclaration = false := by
    rcases n.exclusive with h | h | h | h <;> simp_all [Node.IsOther]
  refine ⟨fun _ => ?_, fun _ => ?_, fun _ _ _ => ?_, fun _ _ => ?_⟩
  · rw [List.filter_cons_of_neg (by simp [hmethod]), h.methods]
  · rw [List.filter_cons_of_pos hn, List.flatMap_cons, hx, h.fields, List.flatMap_cons]
  · rw [List.filter_cons_of_neg (by simp [htype]), h.types]
  · rw [List.flatMap_cons, Node.namesOf_eq_nil _ _ (.inl htype), List.nil_append, h.names]

theorem type {t : TypeSyntax} (hn : n.isTypeDeclaration)
    (ht : ∀ outer separator typeVariables, s.lowerType outer separator typeVariables n =
      s.typesOf outer separator typeVariables t)
    (hnames : ∀ outer separator, n.namesOf outer separator = t.names outer separator)
    (h : ReadAs s ns m) : ReadAs s (n :: ns) { m with types := t :: m.types } := by
  obtain ⟨hmethod, hfield⟩ : n.isMethod = false ∧ n.isField = false := by
    rcases n.exclusive with h | h | h | h <;> simp_all [Node.IsOther]
  refine ⟨fun _ => ?_, fun _ => ?_, fun _ _ _ => ?_, fun _ _ => ?_⟩
  · rw [List.filter_cons_of_neg (by simp [hmethod]), h.methods]
  · rw [List.filter_cons_of_neg (by simp [hfield]), h.fields]
  · rw [List.filter_cons_of_pos hn, List.flatMap_cons, ht, h.types, Setting.typesOfAll]
  · rw [List.flatMap_cons, hnames, h.names, namesOfAll]

end ReadAs

/-! ## Methods and fields -/

section
variable {s : Setting} {ns : List Node} {m : Members}

theorem isMethod_methodNode (outer : Kind) (declaration ts : List Tree) (head : List Node) :
    (methodNode outer declaration ts head).isMethod := by
  cases outer <;> rfl

theorem isField_fieldNode (outer : Kind) (declaration : List Tree) (type names : List Token) :
    (fieldNode outer declaration type names).isField := by
  cases outer <;> rfl

theorem isOther_otherNode (ts : List Tree) : (otherNode ts).IsOther := ⟨rfl, rfl, rfl⟩

theorem readAs_memberNode (outer : Kind) (declaration ts : List Tree) (h : ReadAs s ns m) :
    ReadAs s (memberNode outer declaration ts :: ns) (m.add (modifiers declaration).1 ts) := by
  have hother : ReadAs s (otherNode declaration :: ns) m := h.other (isOther_otherNode declaration)
  rcases hparameters : typeParametersOf ts with ⟨typeParameters, rest⟩
  rcases htype : typeOf (skipAnnotations rest) with ⟨_ | ⟨w, type⟩, after⟩
  · simpa only [memberNode, Members.add, memberOf?, hparameters, htype] using hother
  · rcases after with _ | ⟨name | _ | _, after⟩
    case cons.leaf =>
      have hfield : ∀ names, ReadAs s (fieldNode outer declaration (w :: type) names :: ns)
          { m with fields := ⟨(modifiers declaration).1, w :: type, names⟩ :: m.fields } := fun names =>
        h.field (isField_fieldNode outer declaration (w :: type) names) fun typeVariables =>
          lowerFields_fieldNode s outer typeVariables declaration (w :: type) names
      by_cases hword : name.isWord
      · rcases after with _ | ⟨_ | ⟨_ | _ | _, opening, content, closing⟩ | _, after⟩
        case cons.group.round =>
          have hmethod := h.method (isMethod_methodNode outer declaration ts
            (methodHead (w :: type) name opening content closing)) fun typeVariables =>
              lowerMethod?_methodNode s outer typeVariables declaration (w :: type) ts name opening
                content closing
          rw [hparameters] at hmethod
          simpa only [memberNode, Members.add, memberOf?, hparameters, htype, hword, if_true]
            using hmethod
        all_goals simpa only [memberNode, Members.add, memberOf?, hparameters, htype, hword, if_true]
          using hfield _
      · rcases after with _ | ⟨_ | ⟨_ | _ | _, opening, content, closing⟩ | _, after⟩
        all_goals simpa [memberNode, Members.add, memberOf?, hparameters, htype, hword] using hother
    all_goals simpa only [memberNode, Members.add, memberOf?, hparameters, htype] using hother

end

/-! ## Types -/

theorem kind_memberNode (outer : Kind) (declaration ts : List Tree) :
    let n := memberNode outer declaration ts
    n.isMethod ∨ n.isField ∨ n.kind = .other := by
  simp only
  unfold memberNode
  split
  · exact .inr (.inr rfl)
  · split
    · exact .inl (isMethod_methodNode ..)
    · exact .inr (.inr rfl)
  · split
    · exact .inr (.inl (isField_fieldNode ..))
    · exact .inr (.inr rfl)
  · exact .inr (.inr rfl)

theorem kind_of_mem_declarationNodes {n : Nat} {outer : Kind} {declarations : List (List Tree)}
    {d : Node} (h : d ∈ declarationNodes n outer declarations) :
    d.isTypeDeclaration ∨ d.isMethod ∨ d.isField ∨ d.kind = .other := by
  cases n with
  | zero => cases h
  | succ n =>
    obtain ⟨declaration, _, rfl⟩ := List.mem_map.mp h
    split
    · split
      · exact .inl rfl
      · exact .inr (.inr (.inr rfl))
    · exact .inr (kind_memberNode ..)

theorem kind_ne_of_mem_declarationNodes {n : Nat} {outer : Kind} {declarations : List (List Tree)}
    {d : Node} (h : d ∈ declarationNodes n outer declarations) :
    d.kind ≠ .enumBodyDeclarations ∧ d.kind ≠ .packageDeclaration ∧ d.kind ≠ .importDeclaration := by
  have hkind := kind_of_mem_declarationNodes h
  unfold Node.isMethod Node.isField Node.isTypeDeclaration at hkind
  cases hd : d.kind <;> simp_all

theorem declarationNodes_nil (n : Nat) (outer : Kind) : declarationNodes n outer [] = [] := by
  cases n <;> rfl

theorem find?_constantNodes (content : List Tree) :
    (constantNodes content).find? (·.kind = .enumBodyDeclarations) = none := by
  refine List.find?_eq_none.mpr fun n hn => ?_
  obtain ⟨part, _, rfl⟩ := List.mem_map.mp hn
  simp

theorem isOther_of_mem_constantNodes {content : List Tree} {n : Node} (h : n ∈ constantNodes content) :
    n.IsOther := by
  obtain ⟨part, _, rfl⟩ := List.mem_map.mp h
  exact ⟨rfl, rfl, rfl⟩

section
variable {s : Setting} {n : Nat} {kind : Kind}

/-- What stands in the body of an enum type means the members behind the constants. -/
theorem readAs_enumBody (content : List Tree)
    (h : ∀ declarations, ReadAs s (declarationNodes n .enumType declarations)
      (membersWithin n declarations)) :
    let body := bodyNode (declarationNodes n .enumType) .enumType content
    ReadAs s (body.children ++ (body.child? .enumBodyDeclarations).elim [] Node.children)
      (membersWithin n (declarationsOf .enumType content)) := by
  intro body
  cases hmembers : content.dropWhile (!·.isSymbol ";") with
  | nil =>
    have hchildren : body.children = constantNodes content := by
      simp [body, bodyNode, hmembers]
    have hdeclarations : declarationsOf .enumType content = [] := by
      rw [declarationsOf, hmembers]
      rfl
    rw [Node.child?, hchildren, find?_constantNodes, hdeclarations, Option.elim_none,
      membersWithin_nil]
    exact (ReadAs.nil s).others fun n hn => isOther_of_mem_constantNodes hn
  | cons semicolon members =>
    let node := Node.ofTokens .enumBodyDeclarations none (Tree.tokensOf (semicolon :: members))
      (declarationNodes n .enumType (splitDeclarations false [] members))
    have hchildren : body.children = constantNodes content ++ [node] := by
      simp [body, bodyNode, hmembers, node]
    have hchild : body.child? .enumBodyDeclarations = some node := by
      rw [Node.child?, hchildren, List.find?_append, find?_constantNodes]
      rfl
    have hdeclarations : declarationsOf .enumType content = splitDeclarations false [] members := by
      rw [declarationsOf, hmembers]
      rfl
    rw [hchild, hchildren, hdeclarations, Option.elim_some, List.append_assoc,
      List.singleton_append]
    exact ((h _).other ⟨rfl, rfl, rfl⟩).others fun n hn => isOther_of_mem_constantNodes hn

/-- What stands in the body of a type means the members of the body. -/
theorem readAs_body (content : List Tree)
    (h : ∀ declarations, ReadAs s (declarationNodes n kind declarations)
      (membersWithin n declarations)) :
    let body := bodyNode (declarationNodes n kind) kind content
    ReadAs s (body.children ++ (body.child? .enumBodyDeclarations).elim [] Node.children)
      (membersWithin n (declarationsOf kind content)) := by
  by_cases henum : kind = .enumType
  · subst henum
    exact readAs_enumBody content h
  · intro body
    have hchildren : body.children = declarationNodes n kind (splitDeclarations false [] content) := by
      cases kind <;> first | rfl | exact absurd rfl henum
    have hplain : body.child? .enumBodyDeclarations = none := by
      rw [Node.child?, hchildren]
      exact List.find?_eq_none.mpr fun d hd => by
        simpa using (kind_ne_of_mem_declarationNodes hd).1
    have hdeclarations : declarationsOf kind content = splitDeclarations false [] content := by
      cases kind <;> first | rfl | exact absurd rfl henum
    rw [hplain, hchildren, hdeclarations, Option.elim_none, List.append_nil]
    exact h _

/-- A type means what its head and its body mean. -/
theorem readAs_type {ns : List Node} {m : Members} (declaration rest content : List Tree)
    (name : Token) (h : ReadAs s ns m)
    (hbody : ∀ declarations, ReadAs s (declarationNodes n kind declarations)
      (membersWithin n declarations)) :
    let inner := membersWithin n (declarationsOf kind content)
    let t : TypeSyntax := .mk kind (modifiers declaration).1 name (typeParametersOf rest).1
      inner.methods inner.fields inner.types
    ReadAs s (typeDeclarationNode declaration kind name rest
      (bodyNode (declarationNodes n kind) kind content) :: ns) { m with types := t :: m.types } := by
  intro inner t
  let body := bodyNode (declarationNodes n kind) kind content
  let node := typeDeclarationNode declaration kind name rest body
  have hname : node.field? .name = some (nameNode name) := field?_modifiedNode _ _ _ _
  have hfield : node.field? .body = some body := by
    have hchildren := field?_modifiedNode (.typeDeclaration kind) declaration
      ([nameNode name] ++ (typeParameterNodes rest ++ [body])) .body
    rw [List.find?_append, find?_typeParameterNodes (by decide)] at hchildren
    exact hchildren
  have hmodifiers : ∀ d ∈ [nameNode name] ++ (typeParameterNodes rest ++ [body]),
      d.kind ≠ .modifiers := by
    intro d hd
    simp only [List.mem_append, List.mem_singleton] at hd
    rcases hd with rfl | hd | rfl
    · simp [nameNode]
    · simp [(mem_typeParameterNodes hd).2]
    · simp [body, bodyNode]
  have hannotations : s.lowerAnnotations node = (modifiers declaration).1.map s.annotation :=
    lowerAnnotations_modifiedNode _ declaration _ s hmodifiers
  have hvariables : node.typeVariables = (typeParametersOf rest).1 :=
    typeVariables_modifiedNode _ declaration rest [nameNode name] [body] (by simp [nameNode])
      (by simp [body, bodyNode])
  have hmembers : ReadAs s node.members inner := by
    rw [Node.members, hfield]
    exact readAs_body content hbody
  have htext : (nameNode name).text = name.text := Token.textOf_singleton name
  refine h.type rfl (fun outer separator typeVariables => ?_) fun outer separator => ?_
  · rw [s.lowerType_eq_cons _ _ _ hname, hannotations, hvariables, hmembers.methods,
      hmembers.fields, hmembers.types, htext]
    rfl
  · rw [Node.namesOf_eq outer separator rfl hname, hmembers.names, htext]
    rfl

end

/-- The nodes of declarations mean the members that they declare. -/
theorem readAs_declarationNodes (s : Setting) (n : Nat) (outer : Kind)
    (declarations : List (List Tree)) :
    ReadAs s (declarationNodes n outer declarations) (membersWithin n declarations) := by
  induction n generalizing outer declarations with
  | zero => exact .nil s
  | succ n ihn =>
    induction declarations with
    | nil =>
      rw [declarationNodes_nil, membersWithin_nil]
      exact .nil s
    | cons d declarations ihd =>
      have hcons : declarationNodes (n + 1) outer (d :: declarations) =
          declarationNodes (n + 1) outer [d] ++ declarationNodes (n + 1) outer declarations := rfl
      rw [hcons, membersWithin_cons]
      unfold Members.declare
      rw [declarationNodes, List.map_singleton, List.singleton_append]
      cases hhead : typeHead? (modifiers d).2 with
      | none => exact readAs_memberNode outer d _ ihd
      | some head =>
        obtain ⟨kind, name, rest⟩ := head
        cases hbody : bodyOf? rest with
        | none =>
          simp only [hbody]
          exact ihd.other (isOther_otherNode d)
        | some content =>
          simp only [hbody]
          exact readAs_type d rest content name ihd fun declarations => ihn kind declarations

end FaultTolerance.Java.Source
