import FaultTolerance.Java.Source.Lowering
import FaultTolerance.Java.Source.Reader
import FaultTolerance.Proofs.Source.Annotations

/-! What the nodes of values and annotations mean. Such a node is lowered to what the trees mean that it
was read from: values (`lowerValue_node`), and the annotations in front of a declaration
(`lowerAnnotations_modifiedNode`). -/
namespace FaultTolerance.Java.Source
set_option autoImplicit false

/-! ## Nodes over tokens -/

namespace Node
variable (kind : NodeKind) (role : Option Role) (ts : List Token) (children : List Node)

@[simp] theorem kind_ofTokens : (ofTokens kind role ts children).kind = kind := rfl

@[simp] theorem role_ofTokens : (ofTokens kind role ts children).role = role := rfl

@[simp] theorem text_ofTokens : (ofTokens kind role ts children).text = Token.textOf ts := rfl

@[simp] theorem children_ofTokens : (ofTokens kind role ts children).children = children := rfl

@[simp] theorem compactText_ofTokens :
    (ofTokens kind role ts children).compactText = Token.compactText ts := rfl

end Node

@[simp] theorem nodeRange_ofTokens (s : Setting) (kind : NodeKind) (role : Option Role)
    (ts : List Token) (children : List Node) :
    s.nodeRange (.ofTokens kind role ts children) = s.rangeOf ts := rfl

theorem Token.textOf_singleton (t : Token) : textOf [t] = t.text := by
  rw [textOf, List.map_nil, String.join_nil, String.append_empty]

/-- A search passes over a list in which nothing is found. -/
theorem find?_append_of_forall {α : Type} {p : α → Bool} {l : List α} (h : ∀ a ∈ l, p a = false)
    (l' : List α) : (l ++ l').find? p = l'.find? p := by
  have hnone : l.find? p = none := List.find?_eq_none.mpr fun a ha => by simp [h a ha]
  rw [List.find?_append, hnone, Option.none_or]

theorem isPath_pathNode (role : Option Role) (ts : List Token) : (pathNode role ts).isPath := by
  unfold pathNode Node.isPath
  rw [Node.kind_ofTokens]
  split <;> rfl

theorem kind_of_mem_commentNodes {start : Nat} {ls : List Lexeme} {n : Node}
    (h : n ∈ commentNodes start ls) : n.kind = .comment := by
  induction ls generalizing start with
  | nil => cases h
  | cons l ls ih =>
    rw [commentNodes] at h
    split at h
    · rcases List.mem_cons.mp h with rfl | h
      · rfl
      · exact ih h
    · exact ih h

theorem kind_of_mem_commentsBeforeAll {ts : List Token} {n : Node} (h : n ∈ commentsBeforeAll ts) :
    n.kind = .comment := by
  cases ts with
  | nil => cases h
  | cons t ts => exact kind_of_mem_commentNodes h

/-! ## Values -/

/-- The token that an expression is, if its form says so. -/
def Form.token? : Form → Option Token
  | .string t => some t
  | .char t => some t
  | .number t => some t
  | .name t => some t
  | _ => none

theorem eq_leaf_of_token? {ts : List Tree} {t : Token} (h : (formOf ts).token? = some t) :
    ts = [.leaf t] := by
  unfold formOf at h
  split at h
  · rename_i tree
    unfold formOfTree at h
    split at h
    · rename_i u
      split at h
      all_goals try (obtain rfl := Option.some.inj h; rfl)
      · split at h
        · cases h
        · split at h
          · cases h
          · split at h
            · obtain rfl := Option.some.inj h
              rfl
            · cases h
      · cases h
    · cases h
  · split at h
    · cases h
    · split at h
      · unfold formOfChain at h
        split at h
        · split at h
          · cases h
          · split at h
            · cases h
            · split at h <;> cases h
        · cases h
      · cases h

theorem textOf_of_token? {ts : List Tree} {t : Token} (h : (formOf ts).token? = some t) :
    Token.textOf (Tree.tokensOf ts) = t.text := by
  rw [eq_leaf_of_token? h]
  exact Token.textOf_singleton t

theorem lowerValue_expression (s : Setting) (role : Option Role) (ts : List Tree) :
    s.lowerValue ((ValueSyntax.expression ts).node role) = s.expression ts := by
  have htoken := @textOf_of_token? ts
  rw [ValueSyntax.node, Setting.lowerValue, Setting.expression, Node.kind_ofTokens]
  cases hform : formOf ts with
  | string t => simp [Form.kind, htoken (congrArg Form.token? hform)]
  | char t => simp [Form.kind, htoken (congrArg Form.token? hform)]
  | number t => simp [Form.kind, htoken (congrArg Form.token? hform)]
  | name t => simp [Form.kind, htoken (congrArg Form.token? hform)]
  | boolean b => cases b <;> rfl
  | field owner name =>
    simp [Form.kind, Form.children, Node.field?, Token.textOf_singleton]
  | signed => rfl
  | classLiteral => rfl
  | other => rfl

theorem Form.kind_ne (f : Form) : f.kind ≠ .comment ∧ f.kind ≠ .elementValuePair := by
  cases f with
  | boolean b => cases b <;> simp [kind]
  | _ => simp [kind]

theorem kind_node (role : Option Role) (v : ValueSyntax) :
    (v.node role).kind ≠ .comment ∧ (v.node role).kind ≠ .elementValuePair := by
  cases v with
  | array => simp [ValueSyntax.node]
  | expression ts => exact Form.kind_ne (formOf ts)

theorem role_node (role : Option Role) (v : ValueSyntax) : (v.node role).role = role := by
  cases v <;> rfl

theorem filterMap_attach {α β : Type} (l : List α) (f : α → Option β) :
    (l.attach.filterMap fun x => f x.1) = l.filterMap f :=
  (List.filterMap_subtype fun _ _ => rfl).trans (congrArg _ List.unattach_attach)

/-- The value of an item; a comment has none. -/
def Setting.lowerItem? (s : Setting) (item : Node) : Option Value :=
  if item.kind = .comment then none else some (s.lowerValue item)

theorem lowerValue_array (s : Setting) {n : Node} (h : n.kind = .elementValueArray) :
    s.lowerValue n = .array (n.children.filterMap s.lowerItem?) := by
  rw [Setting.lowerValue, h]
  exact congrArg Value.array (filterMap_attach n.children s.lowerItem?)

theorem filterMap_comments {α : Type} {f : Node → Option α}
    (hf : ∀ n, n.kind = .comment → f n = none) (ts : List Token) :
    (commentsBeforeAll ts).filterMap f = [] :=
  List.filterMap_eq_nil_iff.mpr fun n hn => hf n (kind_of_mem_commentsBeforeAll hn)

mutual

theorem lowerValue_node (s : Setting) (role : Option Role) (v : ValueSyntax) :
    s.lowerValue (v.node role) = s.value v := by
  cases v with
  | array group items =>
    rw [lowerValue_array s rfl, Setting.value]
    exact congrArg Value.array (lowerItem?_itemNodes s items)
  | expression ts => exact lowerValue_expression s role ts

theorem lowerItem?_itemNodes (s : Setting) (vs : List ValueSyntax) :
    (ValueSyntax.itemNodes vs).filterMap s.lowerItem? = s.values vs := by
  cases vs with
  | nil => rfl
  | cons v vs =>
    have hitem : s.lowerItem? (v.node none) = some (s.value v) := by
      rw [Setting.lowerItem?, if_neg (kind_node none v).1, lowerValue_node s none v]
    have hcomments : (commentsBeforeAll v.tokens).filterMap s.lowerItem? = [] :=
      filterMap_comments (fun n hn => if_pos hn) v.tokens
    rw [ValueSyntax.itemNodes, List.filterMap_append, hcomments, List.nil_append,
      List.filterMap_cons_some hitem, lowerItem?_itemNodes s vs, Setting.values]

end

/-! ## Annotations -/

theorem nodeRange_node (s : Setting) (role : Option Role) (v : ValueSyntax) :
    s.nodeRange (v.node role) = s.valueRange v := by
  cases v <;> rfl

theorem lowerArgument?_node (s : Setting) (part : List Tree) :
    s.lowerArgument? (argumentNode part) = some (s.member (argumentOf part)) := by
  unfold argumentNode
  obtain ⟨key, v⟩ := argumentOf part
  cases key with
  | none =>
    have hvalue : s.lowerArgument? (v.node none) =
        some ⟨"value", s.lowerValue (v.node none), s.nodeRange (v.node none)⟩ := by
      obtain ⟨hcomment, hpair⟩ := kind_node none v
      unfold Setting.lowerArgument?
      split <;> simp_all
    rw [hvalue, lowerValue_node, nodeRange_node]
    rfl
  | some key =>
    simp [Setting.lowerArgument?, Node.field?, role_node, Token.textOf_singleton, lowerValue_node,
      nodeRange_node, Setting.member]

theorem filterMap_argumentNodes (s : Setting) (parts : List (List Tree)) :
    (parts.flatMap fun part =>
        commentsBeforeAll (Tree.tokensOf part) ++ [argumentNode part]).filterMap s.lowerArgument? =
      (parts.map argumentOf).map s.member := by
  induction parts with
  | nil => rfl
  | cons part parts ih =>
    have hcomments : (commentsBeforeAll (Tree.tokensOf part)).filterMap s.lowerArgument? = [] :=
      filterMap_comments (fun n hn => by rw [Setting.lowerArgument?, hn]) (Tree.tokensOf part)
    rw [List.flatMap_cons, List.filterMap_append, List.filterMap_append, hcomments, List.nil_append,
      List.filterMap_cons_some (lowerArgument?_node s part), ih]
    rfl

theorem lowerArguments (s : Setting) (name : Node) (hname : name.role = some .name)
    (kind : NodeKind) (ts : List Token) (arguments : Option Tree) :
    (((Node.ofTokens kind none ts (name :: argumentNodes arguments)).field? .arguments).elim []
        Node.children).filterMap s.lowerArgument? =
      (argumentsOf arguments).map s.member := by
  unfold argumentNodes argumentsOf
  split
  · simp [Node.field?, hname, filterMap_argumentNodes]
  · simp [Node.field?, hname]

theorem annotationNode?_eq_none_iff (t : Tree) : annotationNode? t = none ↔ annotationOf? t = none := by
  cases t <;> simp [annotationNode?, annotationOf?]

theorem lowerAnnotation?_node (s : Setting) {t : Tree} {n : Node} {a : AnnotationSyntax}
    (hn : annotationNode? t = some n) (ha : annotationOf? t = some a) :
    n.isAnnotationUse ∧ s.lowerAnnotation? n = some (s.annotation a) := by
  cases t with
  | leaf => cases ha
  | group => cases ha
  | marked mark name arguments =>
    obtain rfl := Option.some.inj hn
    obtain rfl := Option.some.inj ha
    have hname : ∀ kind ts, (Node.ofTokens kind none ts
        (pathNode (some .name) name :: argumentNodes arguments)).field? .name =
          some (pathNode (some .name) name) := fun _ _ => rfl
    have hrange : s.rangeOf (Tree.marked mark name arguments).tokens =
        s.table.range mark.start (stopOf (Tree.marked mark name arguments).tokens) := by
      cases arguments <;> simp [Setting.rangeOf, Tree.tokens]
    refine ⟨by cases arguments <;> rfl, ?_⟩
    rw [Setting.lowerAnnotation?, hname, Option.map_some, lowerArguments s _ rfl,
      nodeRange_ofTokens, hrange]
    rfl

/-! ## Modifiers -/

/-- What stands in front of a declaration, and the annotations in it. -/
theorem exists_modifiers (ts : List Tree) :
    ∃ front, ts = front ++ (modifiers ts).2 ∧ (modifiers ts).1 = front.filterMap annotationOf? := by
  fun_induction modifiers ts with
  | case1 a b c ts _ ih =>
    obtain ⟨front, hts, has⟩ := ih
    refine ⟨.leaf a :: .leaf b :: .leaf c :: front, ?_, has⟩
    rw [List.cons_append, List.cons_append, List.cons_append, ← hts]
  | case2 a b c ts _ _ ih =>
    obtain ⟨front, hts, has⟩ := ih
    refine ⟨.leaf a :: front, ?_, has⟩
    rw [List.cons_append, ← hts]
  | case3 => exact ⟨[], rfl, rfl⟩
  | case4 a ts _ _ ih =>
    obtain ⟨front, hts, has⟩ := ih
    refine ⟨.leaf a :: front, ?_, has⟩
    rw [List.cons_append, ← hts]
  | case5 => exact ⟨[], rfl, rfl⟩
  | case6 mark name arguments ts as rest hrest ih =>
    obtain ⟨front, hts, has⟩ := ih
    rw [hrest] at hts has
    refine ⟨.marked mark name arguments :: front, ?_, ?_⟩
    · rw [List.cons_append, ← hts]
    · exact congrArg ((annotationOf? (.marked mark name arguments)).toList ++ ·) has
  | case7 => exact ⟨[], rfl, rfl⟩

theorem annotations_modifiersOf (ts : List Tree) :
    (modifiers ts).1 = (modifiersOf ts).filterMap annotationOf? := by
  obtain ⟨front, hts, has⟩ := exists_modifiers ts
  have hlength : ts.length - (modifiers ts).2.length = front.length := by
    have := congrArg List.length hts
    rw [List.length_append] at this
    omega
  have htake : ts.take front.length = front := by
    conv_lhs => rw [hts]
    exact List.take_left
  rw [has, modifiersOf, hlength, htake]

theorem filterMap_lowerAnnotation? (s : Setting) (front : List Tree) :
    ((front.filterMap annotationNode?).filter (·.isAnnotationUse)).filterMap s.lowerAnnotation? =
      (front.filterMap annotationOf?).map s.annotation := by
  induction front with
  | nil => rfl
  | cons t front ih =>
    cases ha : annotationOf? t with
    | none =>
      have hn : annotationNode? t = none := (annotationNode?_eq_none_iff t).mpr ha
      rw [List.filterMap_cons_none hn, List.filterMap_cons_none ha, ih]
    | some a =>
      obtain ⟨n, hn⟩ : ∃ n, annotationNode? t = some n := by
        rw [← Option.ne_none_iff_exists', ne_eq, annotationNode?_eq_none_iff, ha]
        exact Option.some_ne_none a
      obtain ⟨huse, hlower⟩ := lowerAnnotation?_node s hn ha
      rw [List.filterMap_cons_some hn, List.filterMap_cons_some ha, List.filter_cons_of_pos huse,
        List.filterMap_cons_some hlower, ih, List.map_cons]

theorem role_of_mem_modifierNodes {front : List Tree} {n : Node} (h : n ∈ modifierNodes front) :
    n.role = none ∧ n.kind = .modifiers := by
  unfold modifierNodes at h
  split at h
  · cases h
  · obtain rfl := List.mem_singleton.mp h
    exact ⟨rfl, rfl⟩

section
variable (kind : NodeKind) (declaration : List Tree) (children : List Node)

@[simp] theorem kind_modifiedNode : (modifiedNode kind declaration children).kind = kind := rfl

/-- The children with a place of their own stand behind the modifiers. -/
theorem field?_modifiedNode (role : Role) :
    (modifiedNode kind declaration children).field? role =
      children.find? (·.role = some role) := by
  rw [Node.field?, modifiedNode, Node.children_ofTokens]
  exact find?_append_of_forall (fun n hn => by simp [(role_of_mem_modifierNodes hn).1]) children

/-- The annotations of a declaration are those among its modifiers, whatever else its node holds. -/
theorem lowerAnnotations_modifiedNode (s : Setting) (h : ∀ n ∈ children, n.kind ≠ .modifiers) :
    s.lowerAnnotations (modifiedNode kind declaration children) =
      (modifiers declaration).1.map s.annotation := by
  have hother : children.find? (·.kind = .modifiers) = none :=
    List.find?_eq_none.mpr fun n hn => by simpa using h n hn
  rw [Setting.lowerAnnotations, Node.child?, modifiedNode, Node.children_ofTokens,
    annotations_modifiersOf]
  unfold modifierNodes
  split
  · rename_i hempty
    rw [List.isEmpty_iff.mp hempty, List.nil_append, hother]
    rfl
  · rw [List.singleton_append, List.find?_cons_of_pos (by rfl)]
    exact filterMap_lowerAnnotation? s _

end

end FaultTolerance.Java.Source
