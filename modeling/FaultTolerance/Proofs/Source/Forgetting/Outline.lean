import FaultTolerance.Proofs.Source.Annotations
import FaultTolerance.Proofs.Source.Forgetting.Trees
import Mathlib.Tactic.SplitIfs

/-! Declarations of which something is forgotten. Each reader of declarations, given changed trees, gives
what it gives for the trees themselves, changed in the same way; so the changed outline of a source is
that of its changed tokens (`Outline.forget_ofSource`). -/
namespace FaultTolerance.Java.Source
open Source.Tree Text
set_option autoImplicit false

variable {g : Forgetting}

/-! ## Lists of trees -/

theorem splitAngles_map_forget (depth : Nat) (ts : List Tree) :
    splitAngles depth (ts.map (forget g)) =
      ((splitAngles depth ts).1.map (forget g), (splitAngles depth ts).2.map (forget g)) := by
  induction ts generalizing depth with
  | nil => rfl
  | cons t ts ih =>
    rw [List.map_cons, splitAngles.eq_def, splitAngles.eq_def]
    simp only [isSymbol_forget]
    split
    · cases depth <;> simp [ih]
    · simp [ih]

@[simp] theorem isTypePart_forget (t : Tree) : isTypePart (t.forget g) = isTypePart t := by
  simp [isTypePart]

theorem closeTypeArguments_map_forget (ts : List Tree) :
    closeTypeArguments (ts.map (forget g)) = closeTypeArguments ts := by
  simp [closeTypeArguments, splitAngles_map_forget, Function.comp_def]

theorem areTypeArguments_map_forget (ts : List Tree) :
    areTypeArguments (ts.map (forget g)) = areTypeArguments ts := by
  unfold areTypeArguments
  rw [closeTypeArguments_map_forget, splitAngles_map_forget]
  cases (splitAngles 0 ts).2 <;> simp

theorem ListState.next_forget (s : ListState) (t : Tree) (rest : List Tree) :
    (s.next (t.forget g) fun _ => rest.map (forget g)) = s.next t fun _ => rest := by
  simp [ListState.next, ListState.opensTypeArguments, closeTypeArguments_map_forget,
    areTypeArguments_map_forget]

/-- Splitting the images of some elements gives the images of the parts, when the trees of the images
are the changed trees of the elements. -/
theorem splitParts_map {α β : Type} (tree : α → Tree) (tree' : β → Tree) (f : α → β)
    (hf : ∀ x, tree' (f x) = (tree x).forget g) (s : ListState) (part xs : List α) :
    splitParts tree' s (part.map f) (xs.map f) = (splitParts tree s part xs).map (List.map f) := by
  induction xs generalizing s part with
  | nil =>
    rw [List.map_nil, splitParts, splitParts, List.isEmpty_map]
    split
    · rfl
    · rw [List.map_cons, List.map_reverse, List.map_nil]
  | cons x xs ih =>
    have hseparates : s.separates (tree' (f x)) = s.separates (tree x) := by
      simp [ListState.separates, hf]
    have hrest : (xs.map f).map tree' = (xs.map tree).map (forget g) := by
      simp [Function.comp_def, hf]
    have hnext : (s.next (tree' (f x)) fun _ => (xs.map f).map tree') =
        s.next (tree x) fun _ => xs.map tree := by
      rw [hrest, hf, ListState.next_forget]
    rw [List.map_cons, splitParts, splitParts, hseparates, hnext]
    split
    · rw [List.map_cons, List.map_reverse]
      exact congrArg _ (ih {} [])
    · exact ih _ (x :: part)

theorem listParts_map_forget (ts : List Tree) :
    listParts (ts.map (forget g)) = (listParts ts).map (List.map (forget g)) :=
  splitParts_map id id (forget g) (fun _ => rfl) {} [] ts

theorem splitTyped_map_forget (depth : Nat) (part ts : List Tree) :
    splitTyped depth (part.map (forget g)) (ts.map (forget g)) =
      (splitTyped depth part ts).map (List.map (forget g)) := by
  induction ts generalizing depth part with
  | nil =>
    rw [List.map_nil, splitTyped, splitTyped, List.isEmpty_map]
    split
    · rfl
    · rw [List.map_cons, List.map_reverse, List.map_nil]
  | cons t ts ih =>
    rw [List.map_cons, splitTyped, splitTyped]
    simp only [isSymbol_forget]
    split
    · rw [List.map_cons, List.map_reverse]
      exact congrArg _ (ih 0 [])
    · exact ih _ (t :: part)

theorem typedParts_map_forget (ts : List Tree) :
    typedParts (ts.map (forget g)) = (typedParts ts).map (List.map (forget g)) :=
  splitTyped_map_forget 0 [] ts

/-! ## Annotations -/

mutual

/-- The value with its tokens changed. -/
def ValueSyntax.forget (g : Forgetting) : ValueSyntax → ValueSyntax
  | .array brackets items => .array (brackets.forget g) (forgetValues g items)
  | .expression ts => .expression (ts.map (Tree.forget g))

def forgetValues (g : Forgetting) : List ValueSyntax → List ValueSyntax
  | [] => []
  | v :: vs => v.forget g :: forgetValues g vs

end

theorem forgetValues_eq_map (vs : List ValueSyntax) :
    forgetValues g vs = vs.map (ValueSyntax.forget g) := by
  induction vs with
  | nil => rfl
  | cons v vs ih => rw [forgetValues, ih, List.map_cons]

mutual

theorem ValueSyntax.forget_forget (v : ValueSyntax) : (v.forget g).forget g = v.forget g := by
  cases v with
  | array brackets items =>
    rw [ValueSyntax.forget, ValueSyntax.forget, Tree.forget_forget,
      forgetValues_forgetValues items]
  | expression ts => rw [ValueSyntax.forget, ValueSyntax.forget, map_forget_forget]

theorem forgetValues_forgetValues (vs : List ValueSyntax) :
    forgetValues g (forgetValues g vs) = forgetValues g vs := by
  cases vs with
  | nil => rfl
  | cons v vs =>
    rw [forgetValues, forgetValues, v.forget_forget, forgetValues_forgetValues vs]

end

def ArgumentSyntax.forget (g : Forgetting) (a : ArgumentSyntax) : ArgumentSyntax :=
  ⟨a.key.map g.token, a.value.forget g⟩

/-- The annotation with its tokens changed and no end. -/
def AnnotationSyntax.forget (g : Forgetting) (a : AnnotationSyntax) : AnnotationSyntax :=
  ⟨g.token a.mark, a.name.map g.token, a.arguments.map (ArgumentSyntax.forget g), 0⟩

/-- A tree with the array it may be, both changed. -/
def forgetPair (g : Forgetting) (p : Tree × Option ValueSyntax) : Tree × Option ValueSyntax :=
  (p.1.forget g, p.2.map (ValueSyntax.forget g))

theorem valueOfPart_map_forget (part : List (Tree × Option ValueSyntax)) :
    valueOfPart (part.map (forgetPair g)) = (valueOfPart part).forget g := by
  have hplain : ∀ part : List (Tree × Option ValueSyntax),
      ValueSyntax.expression ((part.map (forgetPair g)).map Prod.fst) =
        (ValueSyntax.expression (part.map Prod.fst)).forget g := by
    intro part
    rw [ValueSyntax.forget, List.map_map, List.map_map]
    rfl
  rcases part with _ | ⟨⟨t, _ | array⟩, _ | ⟨p, ps⟩⟩
  case cons.some.nil => simp [valueOfPart, forgetPair]
  all_goals simp only [List.map_cons, List.map_nil, forgetPair, Option.map_none, Option.map_some,
    valueOfPart]
  · exact hplain []
  · exact hplain [(t, none)]
  · exact hplain ((t, none) :: p :: ps)
  · exact hplain ((t, some array) :: p :: ps)

mutual

theorem arrayOf?_forget (t : Tree) :
    arrayOf? (t.forget g) = (arrayOf? t).map (ValueSyntax.forget g) := by
  cases t with
  | leaf t => simp [arrayOf?]
  | marked mark name arguments => simp [arrayOf?]
  | group bracket opening content closing =>
    cases bracket with
    | round => simp [arrayOf?]
    | square => simp [arrayOf?]
    | curly =>
      have hsplit := splitParts_map Prod.fst Prod.fst (forgetPair g) (fun _ => rfl) {} []
        (withArrays content)
      rw [List.map_nil] at hsplit
      rw [forget_group, arrayOf?, arrayOf?, withArrays_map_forget content, hsplit,
        List.filter_map, List.map_map, Option.map_some, ValueSyntax.forget,
        forgetValues_eq_map, List.map_map, forget_group]
      simp only [Function.comp_def, List.isEmpty_map, valueOfPart_map_forget]

theorem withArrays_map_forget (ts : List Tree) :
    withArrays (ts.map (forget g)) = (withArrays ts).map (forgetPair g) := by
  cases ts with
  | nil => simp [withArrays]
  | cons t ts =>
    rw [List.map_cons, withArrays, withArrays, withArrays_map_forget ts, arrayOf?_forget t,
      List.map_cons]
    rfl

end

theorem valueOf_map_forget (ts : List Tree) :
    valueOf (ts.map (forget g)) = (valueOf ts).forget g := by
  rw [valueOf, withArrays_map_forget, valueOfPart_map_forget, valueOf]

theorem argumentOf_map_forget (ts : List Tree) :
    argumentOf (ts.map (forget g)) = (argumentOf ts).forget g := by
  have hplain : ∀ ts : List Tree, ArgumentSyntax.mk none (valueOf (ts.map (forget g))) =
      (ArgumentSyntax.mk none (valueOf ts)).forget g := by
    intro ts
    rw [valueOf_map_forget]
    rfl
  fun_cases argumentOf ts with
  | case1 key eq ts h =>
    simp [argumentOf, h, valueOf_map_forget, ArgumentSyntax.forget]
  | case2 key eq ts h =>
    have hp := hplain (.leaf key :: eq :: ts)
    simp only [List.map_cons, forget_leaf] at hp
    simp [argumentOf, h, hp]
  | case3 ts h =>
    have hp := hplain ts
    rcases ts with _ | ⟨key | _ | _, _ | ⟨eq, ts⟩⟩
    case nil => exact hp
    case cons.leaf.cons => exact absurd rfl (h key eq ts)
    all_goals
      simp only [List.map_cons, List.map_nil, forget_leaf, forget_group, forget_marked,
        argumentOf] at hp ⊢
      exact hp

theorem argumentsOf_map_forget (arguments : Option Tree) :
    argumentsOf (arguments.map (forget g)) = (argumentsOf arguments).map (ArgumentSyntax.forget g) := by
  rcases arguments with _ | _ | ⟨bracket, opening, content, closing⟩ | _
  case some.group =>
    rw [Option.map_some, forget_group, argumentsOf, argumentsOf, listParts_map_forget,
      List.filter_map, List.map_map, List.map_map]
    simp only [Function.comp_def, List.isEmpty_map, argumentOf_map_forget]
  all_goals simp [argumentsOf]

theorem ArgumentSyntax.forget_forget (a : ArgumentSyntax) : (a.forget g).forget g = a.forget g := by
  simp [ArgumentSyntax.forget, ValueSyntax.forget_forget, Function.comp_def]

theorem annotationOf?_forget (t : Tree) :
    (annotationOf? (t.forget g)).map (AnnotationSyntax.forget g) =
      (annotationOf? t).map (AnnotationSyntax.forget g) := by
  cases t with
  | leaf t => simp [annotationOf?]
  | group => simp [annotationOf?]
  | marked mark name arguments =>
    simp [annotationOf?, AnnotationSyntax.forget, argumentsOf_map_forget, Function.comp_def,
      ArgumentSyntax.forget_forget]

theorem modifiers_map_forget (ts : List Tree) :
    (modifiers (ts.map (forget g))).1.map (AnnotationSyntax.forget g) =
        (modifiers ts).1.map (AnnotationSyntax.forget g) ∧
      (modifiers (ts.map (forget g))).2 = (modifiers ts).2.map (forget g) := by
  fun_induction modifiers ts with
  | case1 a b c ts h ih => simpa [modifiers, h] using ih
  | case2 a b c ts h h' ih => simpa [modifiers, h, h'] using ih
  | case3 a b c ts h h' => simp [modifiers, h, h']
  -- `modifiers` looks two trees ahead for `non-sealed`; only two leaves may be it
  | case4 a ts hshape h ih =>
    rcases ts with _ | ⟨b | _ | _, ts⟩
    case cons.leaf =>
      rcases ts with _ | ⟨c | _ | _, ts⟩
      case cons.leaf => exact absurd rfl (hshape b c ts)
      all_goals simpa [modifiers, h] using ih
    case cons.marked => simpa [modifiers, h] using ih
    all_goals simp [modifiers, h]
  | case5 a ts hshape h =>
    rcases ts with _ | ⟨b | _ | _, _ | ⟨c | _ | _, ts⟩⟩
    case cons.leaf.cons.leaf => exact absurd rfl (hshape b c ts)
    all_goals simp [modifiers, h]
  | case6 mark name arguments ts as rest hrest ih =>
    have hannotation := annotationOf?_forget (g := g) (.marked mark name arguments)
    rw [forget_marked] at hannotation
    rw [hrest] at ih
    simp only [List.map_cons, forget_marked, modifiers, List.map_append,
      ← Option.toList_map, hannotation, ih.1, ih.2, and_self]
  | case7 ts hthree hone hmarked =>
    rcases ts with _ | ⟨a | _ | ⟨mark, name, arguments⟩, ts⟩
    case cons.leaf => exact absurd rfl (hone a ts)
    case cons.marked => exact absurd rfl (hmarked mark name arguments ts)
    all_goals simp [modifiers]

theorem skipAnnotations_map_forget (ts : List Tree) :
    skipAnnotations (ts.map (forget g)) = (skipAnnotations ts).map (forget g) := by
  unfold skipAnnotations
  rw [List.dropWhile_map]
  simp only [Function.comp_def, isAnnotation_forget]

/-! ## Types -/

theorem TypeState.next_forget (s : TypeState) (t : Tree) (rest : List Tree) :
    s.next (t.forget g) (rest.map (forget g)) = s.next t rest := by
  have hdimension : (skipAnnotations (rest.map (forget g))).head?.any Tree.isDimension =
      (skipAnnotations rest).head?.any Tree.isDimension := by
    rw [skipAnnotations_map_forget, List.head?_map, Option.any_map]
    simp only [isDimension_forget]
  unfold TypeState.next
  simp only [hdimension, isDimension_forget, isAnnotation_forget, isSymbol_forget,
    word?_forget, Option.isSome_map]

theorem typeRest_map_forget (s : TypeState) (ts : List Tree) :
    typeRest s (ts.map (forget g)) =
      ((typeRest s ts).1.map g.token, (typeRest s ts).2.map (forget g)) := by
  induction ts generalizing s with
  | nil => rfl
  | cons t ts ih =>
    rw [List.map_cons, typeRest, typeRest, TypeState.next_forget]
    cases s.next t ts with
    | none => rfl
    | some s => simp [ih]

theorem typeOf_map_forget (ts : List Tree) :
    typeOf (ts.map (forget g)) = ((typeOf ts).1.map g.token, (typeOf ts).2.map (forget g)) := by
  fun_cases typeOf ts with
  | case1 w ts h type rest hrest =>
    have hcommute := typeRest_map_forget (g := g) .afterName ts
    rw [hrest] at hcommute
    simp [typeOf, h, hcommute]
  | case2 w ts h => simp [typeOf, h]
  | case3 ts h => rcases ts with _ | ⟨_ | _ | _, ts⟩ <;> simp_all [typeOf]

theorem typeParametersOf_map_forget (ts : List Tree) :
    typeParametersOf (ts.map (forget g)) =
      ((typeParametersOf ts).1, (typeParametersOf ts).2.map (forget g)) := by
  fun_cases typeParametersOf ts with
  | case1 t ts h inside rest hrest =>
    have hcommute := splitAngles_map_forget (g := g) 0 ts
    rw [hrest] at hcommute
    have hword : ∀ p : List Tree, (((p.map (forget g)).findSome? Tree.word?).map (·.text)) =
        (p.findSome? Tree.word?).map (·.text) := by
      intro p
      induction p with
      | nil => rfl
      | cons t p ih =>
        rw [List.map_cons, List.findSome?_cons, List.findSome?_cons, word?_forget]
        cases t.word? with
        | none => exact ih
        | some w => exact congrArg some (g.text_token w)
    simp only [List.map_cons, forget_leaf, typeParametersOf, g.isSymbol_token, h, hcommute,
      typedParts_map_forget, List.filterMap_map, Function.comp_def, hword]
    rfl
  | case2 t ts h => simp [typeParametersOf, h]
  | case3 ts h => rcases ts with _ | ⟨_ | _ | _, ts⟩ <;> simp_all [typeParametersOf]

/-! ## Members -/

def ParameterSyntax.forget (g : Forgetting) : ParameterSyntax → ParameterSyntax
  | .fixed type dimensions => .fixed (type.map g.token) dimensions
  | .variable comment type => .variable (comment.map g.text) (type.map g.token)

theorem ParameterSyntax.forget_forget (p : ParameterSyntax) :
    (p.forget g).forget g = p.forget g := by
  cases p <;> simp [ParameterSyntax.forget, Function.comp_def]

def MethodSyntax.forget (g : Forgetting) (m : MethodSyntax) : MethodSyntax :=
  ⟨m.annotations.map (AnnotationSyntax.forget g), m.typeParameters, m.type.map g.token,
    g.token m.name, m.parameters.map (ParameterSyntax.forget g)⟩

def FieldSyntax.forget (g : Forgetting) (f : FieldSyntax) : FieldSyntax :=
  ⟨f.annotations.map (AnnotationSyntax.forget g), f.type.map g.token,
    f.names.map g.token⟩

def MemberSyntax.forget (g : Forgetting) : MemberSyntax → MemberSyntax
  | .method m => .method (m.forget g)
  | .field f => .field (f.forget g)

theorem countSquares_map_forget (ts : List Tree) :
    countSquares (ts.map (forget g)) = countSquares ts := by
  have hcount (s : String) : s.toList.count '[' = (compacted s).toList.count '[' := by
    rw [compacted, String.toList_ofList, compact, List.count_filter (by decide)]
  rw [countSquares, tokensOf_map_forget, hcount, g.compacted_textOf, ← hcount, countSquares]

theorem parameterOf?_map_forget (ts : List Tree) :
    parameterOf? (ts.map (forget g)) = (parameterOf? ts).map (ParameterSyntax.forget g) := by
  simp only [parameterOf?, (modifiers_map_forget ts).2, typeOf_map_forget]
  rcases htype : typeOf (modifiers ts).2 with ⟨_ | ⟨w, type⟩, rest⟩
  · rfl
  · simp only [List.map_cons, skipAnnotations_map_forget]
    cases skipAnnotations rest with
    | nil => rfl
    | cons t after =>
      have hthis : ((t.forget g) :: after.map (forget g)).any (·.isKeyword "this") =
          (t :: after).any (·.isKeyword "this") := by
        simp [Function.comp_def]
      have hcomment : (if (modifiers ts).2.length < ts.length then commentBefore (g.token w) else none) =
          (if (modifiers ts).2.length < ts.length then commentBefore w else none).map g.text := by
        rw [g.commentBefore_token, apply_ite (Option.map g.text)]
        rfl
      simp only [List.map_cons, isSymbol_forget, List.length_map, word?_forget,
        Option.isSome_map, countSquares_map_forget, hthis, hcomment]
      split
      · rfl
      · split <;> rfl

theorem parametersOf_map_forget (content : List Tree) :
    parametersOf (content.map (forget g)) = (parametersOf content).map (ParameterSyntax.forget g) := by
  rw [parametersOf, typedParts_map_forget, List.filterMap_map, parametersOf, List.map_filterMap]
  simp only [Function.comp_def, parameterOf?_map_forget]

theorem startsDeclarator_map_forget (ts : List Tree) :
    startsDeclarator (ts.map (forget g)) = startsDeclarator ts := by
  induction ts with
  | nil => rfl
  | cons t ts ih => simp [startsDeclarator, ih]

theorem laterNames_map_forget (ts : List Tree) :
    laterNames (ts.map (forget g)) = (laterNames ts).map g.token := by
  induction ts with
  | nil => rfl
  | cons t ts ih =>
    have hfirst : ((ts.map (forget g)).head?.bind Tree.word?).toList =
        ((ts.head?.bind Tree.word?).toList).map g.token := by
      cases ts <;> simp [Option.toList_map]
    rw [List.map_cons, laterNames, laterNames, isSymbol_forget, startsDeclarator_map_forget, ih,
      hfirst]
    split
    · rw [List.map_append]
    · rfl

theorem memberOf?_map_forget {annotations annotations' : List AnnotationSyntax}
    (h : annotations'.map (AnnotationSyntax.forget g) = annotations.map (AnnotationSyntax.forget g))
    (ts : List Tree) :
    (memberOf? annotations' (ts.map (forget g))).map (MemberSyntax.forget g) =
      (memberOf? annotations ts).map (MemberSyntax.forget g) := by
  simp only [memberOf?, typeParametersOf_map_forget, skipAnnotations_map_forget,
    typeOf_map_forget]
  obtain ⟨type, rest⟩ := typeOf (skipAnnotations (typeParametersOf ts).2)
  rcases type with _ | ⟨w, type⟩
  · rfl
  -- without a word there is no member, before parameters it names a method, else a field
  rcases rest with _ | ⟨name | _ | _, rest⟩
  case cons.leaf =>
    have hnames := laterNames_map_forget (g := g) rest
    cases hword : name.isWord with
    | false => rcases rest with _ | ⟨_ | ⟨_ | _ | _, _, _, _⟩ | _, rest⟩ <;> simp [hword]
    | true =>
      rcases rest with _ | ⟨_ | ⟨_ | _ | _, _, content, _⟩ | _, rest⟩
      case cons.group.round =>
        simp [hword, MemberSyntax.forget, MethodSyntax.forget, h, parametersOf_map_forget,
          ParameterSyntax.forget_forget]
      case nil => simp [hword, MemberSyntax.forget, FieldSyntax.forget, h, laterNames]
      all_goals
        simp only [List.map_cons, forget_leaf, forget_group, forget_marked] at hnames
        simp [hword, MemberSyntax.forget, FieldSyntax.forget, h, hnames, Function.comp_def]
  all_goals simp

/-! ## Declarations -/

theorem hasParameters_map_forget (part : List Tree) :
    hasParameters (part.map (forget g)) = hasParameters part := by
  simp [hasParameters, Function.comp_def]

theorem splitDeclarations_map_forget (inValue : Bool) (part ts : List Tree) :
    splitDeclarations inValue (part.map (forget g)) (ts.map (forget g)) =
      (splitDeclarations inValue part ts).map (List.map (forget g)) := by
  induction ts generalizing inValue part with
  | nil =>
    rw [List.map_nil, splitDeclarations, splitDeclarations, List.isEmpty_map]
    split
    · rfl
    · rw [List.map_cons, List.map_reverse, List.map_nil]
  | cons t ts ih =>
    rw [List.map_cons, splitDeclarations, splitDeclarations]
    simp only [isSymbol_forget, isGroup_forget, isKeyword_forget, hasParameters_map_forget]
    split
    · rw [List.map_cons, List.map_reverse]
      exact congrArg _ (ih false [])
    · split
      · rw [List.map_cons, List.map_reverse, List.map_cons]
        exact congrArg _ (ih false [])
      · exact ih _ (t :: part)

theorem declarationsOf_map_forget (kind : Kind) (content : List Tree) :
    declarationsOf kind (content.map (forget g)) =
      (declarationsOf kind content).map (List.map (forget g)) := by
  cases kind with
  | enumType =>
    have hmembers : ((content.map (forget g)).dropWhile (!·.isSymbol ";")).drop 1 =
        ((content.dropWhile (!·.isSymbol ";")).drop 1).map (forget g) := by
      rw [List.dropWhile_map, ← List.map_drop]
      simp only [Function.comp_def, isSymbol_forget]
    rw [declarationsOf, hmembers]
    exact splitDeclarations_map_forget false [] _
  | _ => exact splitDeclarations_map_forget false [] content

/-- The head of a type with its tokens changed. -/
def forgetHead (g : Forgetting) (head : Kind × Token × List Tree) : Kind × Token × List Tree :=
  (head.1, g.token head.2.1, head.2.2.map (forget g))

theorem typeHead?_map_forget (ts : List Tree) :
    typeHead? (ts.map (forget g)) = (typeHead? ts).map (forgetHead g) := by
  rcases ts with _ | ⟨a | _ | _, _ | ⟨b | _ | _, ts⟩⟩
  case cons.leaf.cons.leaf =>
    rcases ts with _ | ⟨c | _ | _, ts⟩
    all_goals
      simp [typeHead?, forgetHead, apply_ite (Option.map (forgetHead g)), Tree.isGroup,
        Tree.isSymbol]
  all_goals simp [typeHead?]

theorem bodyOf?_map_forget (ts : List Tree) :
    bodyOf? (ts.map (forget g)) = (bodyOf? ts).map (List.map (forget g)) := by
  unfold bodyOf?
  induction ts with
  | nil => rfl
  | cons t ts ih =>
    rw [List.map_cons, List.findSome?_cons, List.findSome?_cons, ih]
    rcases t with _ | ⟨_ | _ | _, _⟩ | _ <;> simp

mutual

/-- The declaration of a type with its tokens changed. -/
def TypeSyntax.forget (g : Forgetting) : TypeSyntax → TypeSyntax
  | .mk kind annotations name typeParameters methods fields nested =>
    .mk kind (annotations.map (AnnotationSyntax.forget g)) (g.token name) typeParameters
      (methods.map (MethodSyntax.forget g)) (fields.map (FieldSyntax.forget g))
      (forgetTypes g nested)

def forgetTypes (g : Forgetting) : List TypeSyntax → List TypeSyntax
  | [] => []
  | t :: ts => t.forget g :: forgetTypes g ts

end

/-- The members with their tokens changed. -/
def Members.forget (g : Forgetting) (m : Members) : Members :=
  ⟨forgetTypes g m.types, m.methods.map (MethodSyntax.forget g), m.fields.map (FieldSyntax.forget g)⟩

theorem Members.forget_add {annotations annotations' : List AnnotationSyntax} {m m' : Members}
    (h : annotations'.map (AnnotationSyntax.forget g) = annotations.map (AnnotationSyntax.forget g))
    (hm : m'.forget g = m.forget g) (ts : List Tree) :
    (m'.add annotations' (ts.map (Tree.forget g))).forget g = (m.add annotations ts).forget g := by
  obtain ⟨htypes, hmethods, hfields⟩ := Members.mk.inj hm
  have hmember := memberOf?_map_forget h ts
  unfold Members.add
  cases hleft : memberOf? annotations' (ts.map (Tree.forget g)) with
  | none =>
    rw [hleft] at hmember
    rw [Option.map_eq_none_iff.mp hmember.symm]
    exact hm
  | some x' =>
    rw [hleft] at hmember
    obtain ⟨x, hright, hx⟩ := Option.map_eq_some_iff.mp hmember.symm
    rw [hright]
    cases x with
    | method x =>
      cases x' with
      | method x' =>
        simp only [Members.forget, List.map_cons, MemberSyntax.method.inj hx, htypes, hmethods,
          hfields]
      | field f' => cases hx
    | field f =>
      cases x' with
      | method x' => cases hx
      | field f' =>
        simp only [Members.forget, List.map_cons, MemberSyntax.field.inj hx, htypes, hmethods,
          hfields]

theorem membersWithin_map_forget (n : Nat) (declarations : List (List Tree)) :
    (membersWithin n (declarations.map (List.map (Tree.forget g)))).forget g =
      (membersWithin n declarations).forget g := by
  -- `ih` is for the declarations in a body, `ih'` for those that follow
  induction n generalizing declarations with
  | zero => rfl
  | succ n ih =>
    induction declarations with
    | nil => rfl
    | cons declaration declarations ih' =>
      rw [List.map_cons, membersWithin_cons, membersWithin_cons, Members.declare, Members.declare]
      obtain ⟨hannotations, hrest⟩ := modifiers_map_forget (g := g) declaration
      simp only [hrest, typeHead?_map_forget]
      cases typeHead? (modifiers declaration).2 with
      | none => exact Members.forget_add hannotations ih' _
      | some head =>
        obtain ⟨kind, name, ts⟩ := head
        simp only [Option.map_some, forgetHead, bodyOf?_map_forget]
        cases bodyOf? ts with
        | none => exact ih'
        | some content =>
          obtain ⟨htypes, hmethods, hfields⟩ := Members.mk.inj ih'
          obtain ⟨hnested, hinnerMethods, hinnerFields⟩ :=
            Members.mk.inj (ih (declarationsOf kind content))
          simp only [Option.map_some, declarationsOf_map_forget, typeParametersOf_map_forget]
          simp only [Members.forget, forgetTypes, TypeSyntax.forget, hannotations,
            hnested, hinnerMethods, hinnerFields, htypes, hmethods, hfields, Forgetting.token_token]

/-! ## Compilation units -/

def ImportSyntax.forget (g : Forgetting) (i : ImportSyntax) : ImportSyntax :=
  ⟨i.path.map g.token, i.isStatic, i.onDemand⟩

/-- The outline with its tokens changed. -/
def Outline.forget (g : Forgetting) (o : Outline) : Outline :=
  ⟨o.package.map (List.map g.token), o.imports.map (ImportSyntax.forget g),
    forgetTypes g o.types⟩

theorem packageOf?_map_forget (declaration : List Tree) :
    packageOf? (declaration.map (forget g)) =
      (packageOf? declaration).map (List.map g.token) := by
  unfold packageOf?
  rw [skipAnnotations_map_forget]
  rcases skipAnnotations declaration with _ | ⟨a | _ | _, ts⟩
  case cons.leaf =>
    simp only [List.map_cons, forget_leaf, dotted_map_forget]
    cases hkeyword : a.isKeyword "package" with
    | false => simp [hkeyword]
    | true =>
      obtain ⟨_ | ⟨w, name⟩, rest⟩ := dotted ts <;> simp [hkeyword]
  all_goals simp

theorem importOf?_map_forget (declaration : List Tree) :
    importOf? (declaration.map (forget g)) = (importOf? declaration).map (ImportSyntax.forget g) := by
  rcases declaration with _ | ⟨a | _ | _, ts⟩
  case cons.leaf =>
    have hstatic : (ts.map (forget g)).head?.any (·.isKeyword "static") =
        ts.head?.any (·.isKeyword "static") := by
      cases ts <;> simp
    simp only [List.map_cons, forget_leaf, importOf?, hstatic]
    cases hkeyword : a.isKeyword "import" with
    | false => simp [hkeyword]
    | true =>
      have hpath : (if ts.head?.any (·.isKeyword "static") then (ts.map (forget g)).drop 1
            else ts.map (forget g)) =
          (if ts.head?.any (·.isKeyword "static") then ts.drop 1 else ts).map (forget g) := by
        rw [apply_ite (List.map (forget g)), List.map_drop]
      rw [hpath, dotted_map_forget]
      generalize dotted (if ts.head?.any (·.isKeyword "static") then ts.drop 1 else ts) = path
      obtain ⟨_ | ⟨w, path⟩, rest⟩ := path <;>
        simp [hkeyword, ImportSyntax.forget, Function.comp_def]
  all_goals simp [importOf?]

theorem Outline.forget_ofTrees (ts : List Tree) :
    (Outline.ofTrees (ts.map (Tree.forget g))).forget g = (Outline.ofTrees ts).forget g := by
  have hsplit : splitDeclarations false [] (ts.map (Tree.forget g)) =
      (splitDeclarations false [] ts).map (List.map (Tree.forget g)) :=
    splitDeclarations_map_forget false [] ts
  have hsize : (tokensOf (ts.map (Tree.forget g))).length = (tokensOf ts).length := by
    rw [tokensOf_map_forget, List.length_map]
  have htypes := (Members.mk.inj (membersWithin_map_forget (g := g) (tokensOf ts).length
    (splitDeclarations false [] ts))).1
  have hpackage : ((splitDeclarations false [] ts).map (List.map (Tree.forget g))).findSome?
        packageOf? =
      ((splitDeclarations false [] ts).findSome? packageOf?).map (List.map g.token) := by
    rw [List.findSome?_map, List.map_findSome?]
    simp only [Function.comp_def, packageOf?_map_forget]
  have himports : ((splitDeclarations false [] ts).map (List.map (Tree.forget g))).filterMap
        importOf? =
      ((splitDeclarations false [] ts).filterMap importOf?).map (ImportSyntax.forget g) := by
    rw [List.filterMap_map, List.map_filterMap]
    simp only [Function.comp_def, importOf?_map_forget]
  simp only [Outline.ofTrees, Outline.forget, hsplit, hsize, hpackage, himports, htypes]
  simp [ImportSyntax.forget, Function.comp_def]

/-- Up to what is forgotten, a source has the outline of its changed tokens. -/
theorem Outline.forget_ofSource (cs : List Char) :
    (Outline.ofSource cs).forget g =
      (Outline.ofTrees (joinedAll (ofTokens ((tokens cs).map g.token)))).forget g := by
  rw [Outline.ofSource, ← Outline.forget_ofTrees, map_forget_ofSource]

end FaultTolerance.Java.Source
