import FaultTolerance.Proofs.Source.Nodes.Values

/-! What the nodes of methods and fields mean. They are lowered to what the trees mean that they were read
from: parameters (`parameterText?_node`), type parameters (`typeVariables_modifiedNode`), methods
(`lowerMethod?_methodNode`) and fields (`lowerFields_fieldNode`). -/
namespace FaultTolerance.Java.Source
set_option autoImplicit false

/-! ## Parameters -/

theorem count_dimensionNodes (ts : List Tree) :
    ((dimensionNodes ts).find? (·.role = some .dimensions)).elim 0
      (fun dimensions => dimensions.text.toList.count '[') = countSquares ts := by
  cases ts <;> rfl

theorem head?_commentNodes (start : Nat) (ls : List Lexeme) :
    ((commentNodes start ls).head?).map Node.text =
      (ls.find? (·.kind == .comment)).map (·.text) := by
  induction ls generalizing start with
  | nil => rfl
  | cons l ls ih =>
    rw [commentNodes]
    by_cases hkind : l.kind = .comment
    · rw [if_pos hkind, List.find?_cons_of_pos (by simpa using hkind)]
      rfl
    · rw [if_neg hkind, List.find?_cons_of_neg (by simpa using hkind)]
      exact ih _

theorem parameterText?_formal (part : List Tree) (type : List Token) (name : Tree)
    (after : List Tree) :
    (formalParameterNode part type name after).parameterText? =
      some (Token.textOf type ++ .ofList (Naming.dimensions (countSquares after))) := by
  rw [Node.parameterText?, formalParameterNode, kind_modifiedNode, field?_modifiedNode,
    field?_modifiedNode, ← count_dimensionNodes]
  rfl

theorem spreadType?_modifiedNode (part : List Tree) {comments rest : List Node} {type : Node}
    (hcomments : ∀ n ∈ comments, n.kind = .comment) (htype : type.kind = .type) :
    (modifiedNode .spreadParameter part (comments ++ type :: rest)).spreadType? =
      some (comments.head?.getD type) := by
  rw [Node.spreadType?, modifiedNode, Node.children_ofTokens,
    find?_append_of_forall fun n hn => by simp [(role_of_mem_modifierNodes hn).2]]
  cases comments with
  | nil =>
    rw [List.nil_append, List.find?_cons_of_pos (by simp [htype, Node.isAnnotationUse])]
    rfl
  | cons n comments =>
    have hn : n.kind = .comment := hcomments n List.mem_cons_self
    rw [List.cons_append, List.find?_cons_of_pos (by simp [hn, Node.isAnnotationUse])]
    rfl

theorem parameterText?_spread (part : List Tree) (w : Token) (type : List Token)
    (after : List Tree) :
    (spreadParameterNode part w type after).parameterText? =
      some ((if (modifiers part).2.length < part.length then commentBefore w else none).getD
        (Token.textOf (w :: type)) ++ "[]") := by
  have hcomments : ∀ n ∈ commentsAfterModifiers part w, n.kind = .comment := by
    intro n hn
    unfold commentsAfterModifiers at hn
    split at hn
    · exact kind_of_mem_commentNodes hn
    · cases hn
  have htext : (commentsAfterModifiers part w).head?.map Node.text =
      if (modifiers part).2.length < part.length then commentBefore w else none := by
    unfold commentsAfterModifiers
    split
    · exact head?_commentNodes _ _
    · rfl
  rw [Node.parameterText?, spreadParameterNode, kind_modifiedNode,
    spreadType?_modifiedNode part hcomments rfl, ← htext]
  cases (commentsAfterModifiers part w).head? <;> rfl

/-- The text of a parameter's type is the text that the trees of the parameter give. -/
theorem parameterText?_node (s : Setting) (typeVariables : List String) (part : List Tree) :
    (parameterNode part).parameterText?.map (s.names.resolveType typeVariables) =
      (parameterOf? part).map (s.parameterType typeVariables) := by
  unfold parameterNode parameterOf?
  simp only
  rcases typeOf (modifiers part).2 with ⟨_ | ⟨w, type⟩, rest⟩
  · rfl
  · simp only
    rcases skipAnnotations rest with _ | ⟨t, after⟩
    · rfl
    · simp only
      split
      · rw [parameterText?_spread]
        rfl
      · split
        · rw [parameterText?_formal]
          rfl
        · rfl

theorem parameterTexts (s : Setting) (typeVariables : List String) (content : List Tree) :
    (((typedParts content).map parameterNode).filterMap Node.parameterText?).map
        (s.names.resolveType typeVariables) =
      (parametersOf content).map (s.parameterType typeVariables) := by
  rw [parametersOf, List.filterMap_map, List.map_filterMap, List.map_filterMap]
  exact List.filterMap_congr fun part _ => parameterText?_node s typeVariables part

/-! ## Members -/

theorem name_typeParameterNode (part : List Tree) :
    ((typeParameterNode part).children.find? fun n =>
      n.kind = .typeIdentifier || n.kind = .identifier).map Node.text =
    (part.findSome? Tree.word?).map (·.text) := by
  unfold typeParameterNode
  cases part.findSome? Tree.word? with
  | none => rfl
  | some w => exact congrArg some (Token.textOf_singleton w)

theorem names_typeParameterNodes (parts : List (List Tree)) :
    ((parts.map typeParameterNode).filter (·.kind = .typeParameter)).filterMap (fun p =>
      (p.children.find? fun n => n.kind = .typeIdentifier || n.kind = .identifier).map Node.text) =
    parts.filterMap fun p => (p.findSome? Tree.word?).map (·.text) := by
  have hkind : ∀ n ∈ parts.map typeParameterNode, n.kind = .typeParameter := by
    intro n hn
    obtain ⟨part, _, rfl⟩ := List.mem_map.mp hn
    rfl
  rw [List.filter_eq_self.mpr fun n hn => by simpa using hkind n hn, List.filterMap_map]
  exact List.filterMap_congr fun part _ => name_typeParameterNode part

theorem typeVariables_modifiedNode (kind : NodeKind) (declaration : List Tree)
    (ts : List Tree) (before after : List Node)
    (hbefore : ∀ n ∈ before, n.role ≠ some .typeParameters)
    (hafter : ∀ n ∈ after, n.role ≠ some .typeParameters) :
    (modifiedNode kind declaration (before ++ (typeParameterNodes ts ++ after))).typeVariables =
      (typeParametersOf ts).1 := by
  have hnone : after.find? (·.role = some .typeParameters) = none :=
    List.find?_eq_none.mpr fun n hn => by simpa using hafter n hn
  rw [Node.typeVariables, field?_modifiedNode,
    find?_append_of_forall fun n hn => by simpa using hbefore n hn, List.find?_append, hnone,
    Option.or_none]
  rcases ts with _ | ⟨t | _ | _, ts⟩
  case cons.leaf =>
    by_cases hangle : t.isSymbol "<"
    · simp only [typeParameterNodes, typeParametersOf, hangle, if_true]
      exact names_typeParameterNodes _
    · simp only [typeParameterNodes, typeParametersOf, hangle]
      rfl
  all_goals rfl

theorem mem_typeParameterNodes {ts : List Tree} {n : Node} (h : n ∈ typeParameterNodes ts) :
    n.role = some .typeParameters ∧ n.kind = .typeParameters := by
  rcases ts with _ | ⟨t | _ | _, ts⟩
  case cons.leaf =>
    rw [typeParameterNodes] at h
    split at h
    · obtain rfl := List.mem_singleton.mp h
      exact ⟨rfl, rfl⟩
    · cases h
  all_goals cases h

theorem find?_typeParameterNodes {role : Role} (hrole : role ≠ .typeParameters) (ts : List Tree)
    (rest : List Node) :
    (typeParameterNodes ts ++ rest).find? (·.role = some role) =
      rest.find? (·.role = some role) :=
  find?_append_of_forall (fun n hn => by simpa [(mem_typeParameterNodes hn).1] using hrole.symm) rest

section
variable (s : Setting) (outer : Kind) (typeVariables : List String) (declaration : List Tree)
  (type : List Token)

theorem lowerMethod?_methodNode (ts : List Tree) (name opening : Token) (content : List Tree)
    (closing : Option Token) :
    s.lowerMethod? typeVariables
        (methodNode outer declaration ts (methodHead type name opening content closing)) =
      some (s.method typeVariables ⟨(modifiers declaration).1, (typeParametersOf ts).1, type, name,
        parametersOf content⟩) := by
  let head := methodHead type name opening content closing
  have hhead : ∀ n ∈ head, n.role ≠ some .typeParameters ∧ n.kind ≠ .modifiers := by
    simp [head, methodHead, typeNode, nameNode]
  have hmodifiers : ∀ n ∈ typeParameterNodes ts ++ head, n.kind ≠ .modifiers := by
    intro n hn
    rcases List.mem_append.mp hn with hn | hn
    · simp [(mem_typeParameterNodes hn).2]
    · exact (hhead n hn).2
  have hannotations : s.lowerAnnotations (methodNode outer declaration ts head) =
      (modifiers declaration).1.map s.annotation :=
    lowerAnnotations_modifiedNode _ declaration _ s hmodifiers
  have hvariables : (methodNode outer declaration ts head).typeVariables = (typeParametersOf ts).1 :=
    typeVariables_modifiedNode _ declaration ts [] head (fun n hn => by cases hn) fun n hn =>
      (hhead n hn).1
  have hfield : ∀ role, role ≠ .typeParameters →
      (methodNode outer declaration ts head).field? role = head.find? (·.role = some role) :=
    fun role hrole => (field?_modifiedNode _ _ _ role).trans (find?_typeParameterNodes hrole ts _)
  have hname : head.find? (·.role = some .name) = some (nameNode name) := rfl
  have htype : head.find? (·.role = some .type) = some (typeNode (some .type) type) := rfl
  have hparameters : (head.find? (·.role = some .parameters)).elim [] Node.children =
      (typedParts content).map parameterNode := rfl
  rw [Setting.lowerMethod?, hfield .name (by decide), hfield .type (by decide),
    hfield .parameters (by decide), hname, htype, hparameters, hannotations, hvariables,
    Option.map_some]
  simp only [parameterTexts, nameNode, Node.text_ofTokens, Token.textOf_singleton]
  rfl

theorem declarators_fieldNode (names : List Token) :
    ((fieldNode outer declaration type names).children.filter
        (·.kind = .variableDeclarator)).filterMap (·.field? .name) = names.map nameNode := by
  have hmodifiers : (modifierNodes (modifiersOf declaration)).filter
      (·.kind = .variableDeclarator) = [] :=
    List.filter_eq_nil_iff.mpr fun n hn => by simp [(role_of_mem_modifierNodes hn).2]
  have hdeclarators : (names.map declaratorNode).filter (·.kind = .variableDeclarator) =
      names.map declaratorNode := by
    refine List.filter_eq_self.mpr fun n hn => ?_
    obtain ⟨name, _, rfl⟩ := List.mem_map.mp hn
    rfl
  rw [fieldNode, modifiedNode, Node.children_ofTokens, List.filter_append, hmodifiers,
    List.nil_append, List.filter_cons_of_neg (by simp [typeNode]), hdeclarators, List.filterMap_map]
  exact congrFun (List.filterMap_eq_map (f := nameNode)) names

theorem lowerFields_fieldNode (names : List Token) :
    s.lowerFields typeVariables (fieldNode outer declaration type names) =
      s.fields typeVariables ⟨(modifiers declaration).1, type, names⟩ := by
  have hmodifiers : ∀ n ∈ typeNode (some .type) type :: names.map declaratorNode,
      n.kind ≠ .modifiers := by
    simp [typeNode, declaratorNode]
  have hannotations : s.lowerAnnotations (fieldNode outer declaration type names) =
      (modifiers declaration).1.map s.annotation :=
    lowerAnnotations_modifiedNode _ declaration _ s hmodifiers
  have htype : (fieldNode outer declaration type names).field? .type =
      some (typeNode (some .type) type) := field?_modifiedNode _ _ _ _
  rw [Setting.lowerFields, htype, declarators_fieldNode, hannotations, Option.elim_some,
    Setting.fields, List.map_map]
  refine List.map_congr_left fun name _ => ?_
  simp only [Function.comp_apply, nameNode, typeNode, Node.text_ofTokens, Token.textOf_singleton]
  rfl

end

end FaultTolerance.Java.Source
