import FaultTolerance.Proofs.Source.Meaning
import FaultTolerance.Proofs.Source.Forgetting.Outline

/-! What declarations mean does not depend on what is forgotten of their tokens, apart from the ranges at
which they stand and the texts of values that are kept as written (`Outline.toTypes_forget`). -/
namespace FaultTolerance.Java

/-! ## Types without ranges -/

def Member.withoutRange (m : Member) : Member := { m with range := none }

def Annotation.withoutRanges (a : Annotation) : Annotation :=
  { a with members := a.members.map Member.withoutRange, range := none }

def Method.withoutRanges (m : Method) : Method :=
  { m with annotations := m.annotations.map Annotation.withoutRanges, range := none }

def Field.withoutRanges (f : Field) : Field :=
  { f with annotations := f.annotations.map Annotation.withoutRanges, range := none }

/-- The type with no range at any of its parts. -/
def JavaType.withoutRanges (t : JavaType) : JavaType :=
  { t with
    annotations := t.annotations.map Annotation.withoutRanges
    methods := t.methods.map Method.withoutRanges
    fields := t.fields.map Field.withoutRanges }

/-! ## Types with other members -/

/-- The annotation without its range, and with its members changed. -/
def Annotation.withMembers (f : Member → Member) (a : Annotation) : Annotation :=
  { a with members := a.members.map f, range := none }

def Method.withMembers (f : Member → Member) (m : Method) : Method :=
  { m with annotations := m.annotations.map ( Annotation.withMembers f), range := none }

def Field.withMembers (f : Member → Member) (x : Field) : Field :=
  { x with annotations := x.annotations.map ( Annotation.withMembers f), range := none }

/-- The type with no range at any of its parts, and with the members of its annotations changed. -/
def JavaType.withMembers (f : Member → Member) (t : JavaType) : JavaType :=
  { t with
    annotations := t.annotations.map ( Annotation.withMembers f)
    methods := t.methods.map (Method.withMembers f)
    fields := t.fields.map (Field.withMembers f) }

theorem JavaType.withMembers_withoutRange : withMembers Member.withoutRange = withoutRanges := rfl

/-! ## Values reworded -/

mutual

/-- The value with its texts changed where they are kept as written. -/
def Value.reworded (w : String → String) : Value → Value
  | .other text => .other (w text)
  | .array items => .array (rewordedAll w items)
  | v => v

def rewordedAll (w : String → String) : List Value → List Value
  | [] => []
  | v :: vs => v.reworded w :: rewordedAll w vs

end

mutual

theorem Value.reworded_id (v : Value) : v.reworded id = v := by
  cases v with
  | array items => rw [Value.reworded, rewordedAll_id items]
  | _ => rfl

theorem rewordedAll_id (vs : List Value) : rewordedAll id vs = vs := by
  cases vs with
  | nil => rfl
  | cons v vs => rw [rewordedAll, v.reworded_id, rewordedAll_id vs]

end

/-- The member without its range, and with its value reworded. -/
def Member.reworded (w : String → String) (m : Member) : Member :=
  { m with value := m.value.reworded w, range := none }

theorem Member.reworded_id : reworded id = withoutRange := by
  funext m
  rw [reworded, m.value.reworded_id, withoutRange]

/-- The type with no range at any of its parts, and with its texts changed where they are kept as
written. -/
def JavaType.reworded (w : String → String) (t : JavaType) : JavaType :=
  t.withMembers (Member.reworded w)

theorem JavaType.reworded_id : reworded id = withoutRanges := by
  funext t
  rw [reworded, Member.reworded_id, withMembers_withoutRange]

namespace Source
open Source.Tree Text Naming
set_option autoImplicit false

/-! ## White space in what is read off a text -/

theorem eraseArguments_compact (depth : Nat) (cs : List Char) :
    eraseArguments depth (compact cs) = eraseArguments depth cs := by
  induction cs generalizing depth with
  | nil => rfl
  | cons c cs ih =>
    by_cases hc : isSpace c
    · have hopen : c ≠ '<' := by rintro rfl; exact absurd hc (by decide)
      have hclose : c ≠ '>' := by rintro rfl; exact absurd hc (by decide)
      have hdrop : compact (c :: cs) = compact cs := by simp [compact, hc]
      rw [hdrop, ih, eraseArguments, if_neg hopen, if_neg hclose, hc, Bool.true_or, if_pos rfl]
    · have hkeep : compact (c :: cs) = c :: compact cs := by simp [compact, hc]
      simp only [hkeep, eraseArguments, ih]

theorem NameScope.resolveType_compacted (s : NameScope) (typeVariables : List String)
    (written : String) : s.resolveType typeVariables (compacted written) =
      s.resolveType typeVariables written := by
  rw [resolveType, compacted, String.toList_ofList, eraseChars, eraseArguments_compact]
  rfl

/-- Types that differ in white space only resolve to one name. -/
theorem NameScope.resolveType_congr {s : NameScope} {typeVariables : List String} {a b : String}
    (h : compacted a = compacted b) :
    s.resolveType typeVariables a = s.resolveType typeVariables b := by
  rw [← resolveType_compacted, h, resolveType_compacted]

theorem exists_trimEnd_append (cs : List Char) :
    ∃ spaces, (∀ c ∈ spaces, isSpace c) ∧ cs = trimEnd cs ++ spaces := by
  refine ⟨(cs.reverse.takeWhile isSpace).reverse, ?_, ?_⟩
  · intro c hc
    exact List.all_eq_true.mp List.all_takeWhile c (List.mem_reverse.mp hc)
  · rw [trimEnd, ← List.reverse_append, List.takeWhile_append_dropWhile, List.reverse_reverse]

theorem compact_trimEnd (cs : List Char) : compact (trimEnd cs) = compact cs := by
  obtain ⟨spaces, hspaces, hcs⟩ := exists_trimEnd_append cs
  have hnone : compact spaces = [] := by
    rw [compact, List.filter_eq_nil_iff]
    intro c hc
    simp [hspaces c hc]
  conv_rhs => rw [hcs, compact_append, hnone, List.append_nil]

theorem isSpace_of_getLast?_trimEnd {cs : List Char} {c : Char}
    (h : (trimEnd cs).getLast? = some c) : isSpace c = false := by
  have hlast := List.head?_dropWhile_not isSpace cs.reverse
  rw [trimEnd, List.getLast?_reverse] at h
  rw [h] at hlast
  simpa using hlast

/-- White space does not hide a dot at the end of a text, unless it comes behind the dot. -/
theorem compact_dropDot {type : List Char}
    (h : ∀ c, type.getLast? = some c → isSpace c = false) :
    compact ((stripEnd? ['.'] type).getD type) =
      (stripEnd? ['.'] (compact type)).getD (compact type) := by
  rcases List.eq_nil_or_concat type with rfl | ⟨front, c, rfl⟩
  · rfl
  rw [List.concat_eq_append] at h ⊢
  have hc : isSpace c = false := h c List.getLast?_concat
  have hcompact : compact (front ++ [c]) = compact front ++ [c] := by
    rw [compact_append, compact, compact, List.filter_singleton, hc]
    rfl
  rw [hcompact]
  by_cases hdot : c = '.'
  · subst hdot
    have hstrip (cs : List Char) : stripEnd? ['.'] (cs ++ ['.']) = some cs :=
      stripEnd?_eq_some_iff.mpr rfl
    rw [hstrip, hstrip, Option.getD_some, Option.getD_some]
  · have hstrip (cs : List Char) : stripEnd? ['.'] (cs ++ [c]) = none := by
      rw [Option.eq_none_iff_forall_ne_some]
      intro rest hrest
      have hends := stripEnd?_eq_some_iff.mp hrest
      exact hdot (by simpa using congrArg List.getLast? hends)
    rw [hstrip, hstrip, Option.getD_none, Option.getD_none, hcompact]

/-- The type of a class literal, up to white space. -/
theorem Setting.compact_literalType (front : List Char) :
    compact (literalType (front ++ "class".toList)) =
      (stripEnd? ['.'] (compact front)).getD (compact front) := by
  have hclass : stripEnd? "class".toList (front ++ "class".toList) = some front :=
    stripEnd?_eq_some_iff.mpr rfl
  rw [literalType, hclass, Option.getD_some, ← compact_trimEnd front]
  exact compact_dropDot fun c hc => isSpace_of_getLast?_trimEnd hc

/-! ## Expressions -/

variable {g : Forgetting}

/-- The form with its tokens changed. -/
def Form.forget (g : Forgetting) : Form → Form
  | .string t => .string (g.token t)
  | .char t => .char (g.token t)
  | .number t => .number (g.token t)
  | .signed => .signed
  | .boolean value => .boolean value
  | .name t => .name (g.token t)
  | .classLiteral => .classLiteral
  | .field owner last => .field (owner.map (Tree.forget g)) (g.token last)
  | .other => .other

@[simp] theorem Forgetting.isIdentifier_token (t : Token) :
    (g.token t).isIdentifier = t.isIdentifier := by simp [Token.isIdentifier]

theorem ChainState.afterStart_forget (t : Tree) : afterStart (t.forget g) = afterStart t := by
  cases t with
  | leaf t => simp [afterStart]
  | group bracket opening content closing => cases bracket <;> simp [afterStart]
  | marked mark name arguments => simp [afterStart]

theorem ChainState.next_forget (s : ChainState) (t : Tree) : s.next (t.forget g) = s.next t := by
  cases s <;> simp [next, afterStart_forget, afterOperand]

theorem ChainState.accepts_map_forget (s : ChainState) (ts : List Tree) :
    s.accepts (ts.map (Tree.forget g)) = s.accepts ts := by
  induction ts generalizing s with
  | nil => rfl
  | cons t ts ih =>
    rw [List.map_cons, accepts, accepts, next_forget]
    cases s.next t with
    | none => rfl
    | some s => exact ih s

theorem formOfTree_forget (t : Tree) : formOfTree (t.forget g) = (formOfTree t).forget g := by
  cases t with
  | leaf t =>
    rw [forget_leaf, formOfTree, formOfTree]
    cases hkind : t.kind <;>
      simp only [g.kind_token, g.text_token, g.isIdentifier_token, hkind, apply_ite (Form.forget g)] <;>
      rfl
  | group => simp [formOfTree, Form.forget]
  | marked => simp [formOfTree, Form.forget]

theorem isChain_map_forget (ts : List Tree) :
    isChain (ts.map (Tree.forget g)) = isChain ts := by
  rw [isChain, ChainState.accepts_map_forget, isChain]

theorem isSigned_map_forget (ts : List Tree) :
    isSigned (ts.map (Tree.forget g)) = isSigned ts := by
  rcases ts with _ | ⟨sign | _ | _, _ | ⟨t | _ | _, ts⟩⟩
  case cons.leaf.cons.leaf =>
    have hchain := isChain_map_forget (g := g) (.leaf t :: ts)
    rw [List.map_cons, forget_leaf] at hchain
    simp only [List.map_cons, forget_leaf, isSigned, g.isSymbol_token, g.kind_token,
      g.followsBlank_token, g.text_token, hchain]
  all_goals simp [isSigned]

theorem ownerOf_map_forget (ts : List Tree) :
    ownerOf (ts.map (Tree.forget g)) = (ownerOf ts).map (Tree.forget g) := by
  unfold ownerOf
  rw [← List.map_reverse]
  rcases ts.reverse with _ | ⟨t, _ | ⟨dot, rest⟩⟩
  · rfl
  · rfl
  · simp only [List.map_cons, isKeyword_forget, isSymbol_forget, ← List.map_reverse]
    rw [apply_ite (List.map (Tree.forget g))]

theorem formOfChain_map_forget (ts : List Tree) :
    formOfChain (ts.map (Tree.forget g)) = (formOfChain ts).forget g := by
  unfold formOfChain
  rw [← List.map_reverse]
  rcases ts.reverse with _ | ⟨last | _ | _, _ | ⟨dot, owner⟩⟩
  case cons.leaf.cons =>
    simp only [List.map_cons, forget_leaf, isSymbol_forget, ← List.map_reverse,
      ownerOf_map_forget, apply_ite (Form.forget g), g.isKeyword_token, g.isIdentifier_token]
    rfl
  all_goals simp [Form.forget]

theorem formOf_map_forget (ts : List Tree) :
    formOf (ts.map (Tree.forget g)) = (formOf ts).forget g := by
  have hmany : (if isSigned (ts.map (Tree.forget g)) then .signed
      else if isChain (ts.map (Tree.forget g)) then formOfChain (ts.map (Tree.forget g))
      else .other) =
        (if isSigned ts then .signed else if isChain ts then formOfChain ts else .other : Form).forget
          g := by
    rw [isSigned_map_forget, isChain_map_forget, formOfChain_map_forget,
      apply_ite (Form.forget g), apply_ite (Form.forget g)]
    rfl
  rcases ts with _ | ⟨t, _ | ⟨u, ts⟩⟩
  · exact hmany
  · exact formOfTree_forget t
  · exact hmany

/-! ## Class literals -/

theorem Token.textOf_concat (ts : List Token) (t : Token) :
    ∃ front, textOf (ts ++ [t]) = front ++ t.text := by
  cases ts with
  | nil => exact ⟨"", by simp [textOf]⟩
  | cons u ts =>
    refine ⟨textOf (u :: ts) ++ String.join (t.before.map (·.text)), ?_⟩
    simp [textOf, String.append_assoc]

theorem exists_last_of_formOfChain {ts : List Tree} (h : formOfChain ts = .classLiteral) :
    ∃ ts' last, ts = ts' ++ [.leaf last] ∧ last.isKeyword "class" := by
  unfold formOfChain at h
  split at h
  · rename_i last dot owner hreverse
    refine ⟨(dot :: owner).reverse, last, ?_, ?_⟩
    · rw [← List.reverse_inj, hreverse]
      simp
    · by_contra hlast
      rw [if_neg hlast] at h
      split_ifs at h
  · cases h

theorem formOfTree_ne_classLiteral (t : Tree) : formOfTree t ≠ .classLiteral := by
  intro h
  unfold formOfTree at h
  split at h
  · split at h
    case h_4 => split_ifs at h
    all_goals cases h
  · cases h

/-- A class literal ends with its keyword. -/
theorem exists_textOf_classLiteral {ts : List Tree} (h : formOf ts = .classLiteral) :
    ∃ front, Token.textOf (tokensOf ts) = front ++ "class" := by
  have hchain : formOfChain ts = .classLiteral := by
    unfold formOf at h
    split at h
    · exact absurd h (formOfTree_ne_classLiteral _)
    · split_ifs at h
      exact h
  obtain ⟨ts', last, rfl, hlast⟩ := exists_last_of_formOfChain hchain
  have htext : last.text = "class" := by simpa using (Bool.and_eq_true_iff.mp hlast).2
  obtain ⟨front, hfront⟩ := Token.textOf_concat (tokensOf ts') last
  refine ⟨front, ?_⟩
  rw [tokensOf_append, ← htext, ← hfront]
  rfl

theorem compact_literalType_congr {ts ts' : List Tree} (h : formOf ts = .classLiteral)
    (h' : formOf ts' = .classLiteral)
    (htext : compacted (Token.textOf (tokensOf ts)) = compacted (Token.textOf (tokensOf ts'))) :
    compact (Setting.literalType (Token.textOf (tokensOf ts)).toList) =
      compact (Setting.literalType (Token.textOf (tokensOf ts')).toList) := by
  obtain ⟨front, hfront⟩ := exists_textOf_classLiteral h
  obtain ⟨front', hfront'⟩ := exists_textOf_classLiteral h'
  rw [hfront, hfront', compacted_append, compacted_append, String.append_left_inj] at htext
  have hcompact : compact front.toList = compact front'.toList := by
    rw [← String.ofList_inj]
    exact htext
  rw [hfront, hfront', String.toList_append, String.toList_append, Setting.compact_literalType,
    Setting.compact_literalType, hcompact]

/-! ## Settings -/

namespace Setting
variable {s s' : Setting}

theorem expression_forget (h : s.names = s'.names) (ts : List Tree) :
    (s'.expression (ts.map (Tree.forget g))).reworded g.text =
      (s.expression ts).reworded g.text := by
  have htext : compacted (Token.textOf (tokensOf (ts.map (Tree.forget g)))) =
      compacted (Token.textOf (tokensOf ts)) := by
    rw [tokensOf_map_forget, g.compacted_textOf]
  have hforget := formOf_map_forget (g := g) ts
  unfold expression
  -- the first three forms are cut out of the text as a whole, white space and all
  cases hform : formOf ts with
  | classLiteral =>
    have hform' : formOf (ts.map (Tree.forget g)) = .classLiteral := by
      rw [hforget, hform, Form.forget]
    have htype := compact_literalType_congr hform' hform htext
    rw [hform']
    simp only [Value.reworded, h]
    refine congrArg _ (NameScope.resolveType_congr ?_)
    rw [compacted, String.toList_ofList, htype, compacted, String.toList_ofList]
  | other =>
    rw [hforget, hform, Form.forget]
    simp only [Value.reworded, tokensOf_map_forget, g.text_textOf]
  | signed =>
    rw [hforget, hform, Form.forget]
    exact congrArg (fun text => (Value.number text).reworded g.text) htext
  | _ => simp [hforget, hform, Form.forget, Value.reworded, h]

mutual

theorem value_forget (h : s.names = s'.names) (v : ValueSyntax) :
    (s'.value (v.forget g)).reworded g.text = (s.value v).reworded g.text := by
  cases v with
  | array brackets items =>
    rw [ValueSyntax.forget, value, value, Value.reworded, values_forget h items, Value.reworded]
  | expression ts => rw [ValueSyntax.forget, value, value, expression_forget h]

theorem values_forget (h : s.names = s'.names) (vs : List ValueSyntax) :
    rewordedAll g.text (s'.values (forgetValues g vs)) = rewordedAll g.text (s.values vs) := by
  cases vs with
  | nil => rfl
  | cons v vs =>
    rw [forgetValues, values, values, rewordedAll, rewordedAll, value_forget h v,
      values_forget h vs]

end

theorem member_forget (h : s.names = s'.names) (a : ArgumentSyntax) :
    (s'.member (a.forget g)).reworded g.text = (s.member a).reworded g.text := by
  simp only [member, Member.reworded, ArgumentSyntax.forget, value_forget h, Option.map_map,
    Function.comp_def, g.text_token]

theorem annotation_forget (h : s.names = s'.names) (a : AnnotationSyntax) :
    (Setting.annotation s' (a.forget g)).withMembers (Member.reworded g.text) =
      (s.annotation a).withMembers (Member.reworded g.text) := by
  simp only [Setting.annotation, Annotation.withMembers, AnnotationSyntax.forget, h, List.map_map,
    g.compactText_map_token, Function.comp_def, member_forget h]

theorem parameterType_forget (h : s.names = s'.names) (typeVariables : List String)
    (p : ParameterSyntax) :
    s'.parameterType typeVariables (p.forget g) = s.parameterType typeVariables p := by
  cases p with
  | fixed type dimensions =>
    rw [ParameterSyntax.forget, parameterType, parameterType, ← h]
    apply NameScope.resolveType_congr
    rw [compacted_append, g.compacted_textOf, compacted_append]
  | «variable» comment type =>
    rw [ParameterSyntax.forget, parameterType, parameterType, ← h]
    apply NameScope.resolveType_congr
    rw [compacted_append, compacted_append]
    cases comment with
    | none => simp [g.compacted_textOf]
    | some comment => simp [g.compacted_text]

theorem resolveType_textOf_forget (names : NameScope) (typeVariables : List String)
    (ts : List Token) : names.resolveType typeVariables (Token.textOf (ts.map g.token)) =
      names.resolveType typeVariables (Token.textOf ts) :=
  NameScope.resolveType_congr (g.compacted_textOf ts)

theorem method_forget (h : s.names = s'.names) (typeVariables : List String) (m : MethodSyntax) :
    (s'.method typeVariables (m.forget g)).withMembers (Member.reworded g.text) =
      (s.method typeVariables m).withMembers (Member.reworded g.text) := by
  simp only [method, Method.withMembers, MethodSyntax.forget, annotation_forget h,
    resolveType_textOf_forget, g.text_token, h, List.map_map, Function.comp_def,
    parameterType_forget h]

theorem fields_forget (h : s.names = s'.names) (typeVariables : List String) (f : FieldSyntax) :
    (s'.fields typeVariables (f.forget g)).map (Field.withMembers (Member.reworded g.text)) =
      (s.fields typeVariables f).map (Field.withMembers (Member.reworded g.text)) := by
  simp only [fields, Field.withMembers, FieldSyntax.forget, resolveType_textOf_forget, h,
    List.map_map, Function.comp_def, g.text_token, annotation_forget h]

mutual

theorem typesOf_forget (h : s.names = s'.names) (horigin : s.origin = s'.origin) (outer : String)
    (separator : Char) (typeVariables : List String) (t : TypeSyntax) :
    (s'.typesOf outer separator typeVariables (t.forget g)).map (JavaType.reworded g.text) =
      (s.typesOf outer separator typeVariables t).map (JavaType.reworded g.text) := by
  cases t with
  | mk kind annotations name typeParameters methods fields nested =>
    simp only [TypeSyntax.forget, typesOf, List.map_cons, JavaType.reworded, JavaType.withMembers,
      annotation_forget h, g.text_token, horigin, List.map_map, Function.comp_def,
      method_forget h, List.flatMap_map, List.map_flatMap, fields_forget h]
    exact congrArg _ (typesOfAll_forget h horigin _ _ _ nested)

theorem typesOfAll_forget (h : s.names = s'.names) (horigin : s.origin = s'.origin)
    (outer : String) (separator : Char) (typeVariables : List String) (ts : List TypeSyntax) :
    (s'.typesOfAll outer separator typeVariables (forgetTypes g ts)).map (JavaType.reworded g.text) =
      (s.typesOfAll outer separator typeVariables ts).map (JavaType.reworded g.text) := by
  cases ts with
  | nil => rfl
  | cons t ts =>
    rw [forgetTypes, typesOfAll, typesOfAll, List.map_append, List.map_append,
      typesOf_forget h horigin _ _ _ t, typesOfAll_forget h horigin _ _ _ ts]

end
end Setting

/-! ## Sources -/

mutual

theorem TypeSyntax.names_forget (outer : String) (separator : Char) (t : TypeSyntax) :
    (t.forget g).names outer separator = t.names outer separator := by
  cases t with
  | mk kind annotations name typeParameters methods fields nested =>
    simp only [TypeSyntax.forget, TypeSyntax.names, namesOfAll_forgetTypes _ _ nested,
      g.text_token]

theorem namesOfAll_forgetTypes (outer : String) (separator : Char) (ts : List TypeSyntax) :
    namesOfAll outer separator (forgetTypes g ts) = namesOfAll outer separator ts := by
  cases ts with
  | nil => rfl
  | cons t ts =>
    rw [forgetTypes, namesOfAll, namesOfAll, t.names_forget, namesOfAll_forgetTypes _ _ ts]

end

namespace Outline
variable (o : Outline)

theorem packageName?_forget : (o.forget g).packageName? = o.packageName? := by
  simp [packageName?, forget, Function.comp_def]

theorem packagePrefix_forget : (o.forget g).packagePrefix = o.packagePrefix := by
  rw [packagePrefix, packageName?_forget, packagePrefix]

theorem declaredNames_forget : (o.forget g).declaredNames = o.declaredNames := by
  rw [declaredNames, packagePrefix_forget]
  exact namesOfAll_forgetTypes _ _ _

end Outline

theorem NameScope.ofOutline_forget (known : List String) (o : Outline) :
    ofOutline known (o.forget g) = ofOutline known o := by
  simp only [ofOutline, Outline.packageName?_forget, Outline.declaredNames_forget]
  simp [Outline.forget, List.filter_map, Function.comp_def, ImportSyntax.forget]

/-- Sources whose outlines are the same up to what is forgotten have the same types, apart from ranges
and from texts kept as written. -/
theorem Outline.toTypes_forget {o o' : Outline} (h : o.forget g = o'.forget g)
    (cs cs' : List Char) (origin : Origin) (known : List String) :
    (o.toTypes cs origin known).map (JavaType.reworded g.text) =
      (o'.toTypes cs' origin known).map (JavaType.reworded g.text) := by
  have hforget : ∀ (o : Outline) (cs : List Char),
      ((o.forget g).toTypes [] origin known).map (JavaType.reworded g.text) =
        (o.toTypes cs origin known).map (JavaType.reworded g.text) := by
    intro o cs
    have hnames : (Setting.mk (.ofOutline known o) (.ofText cs) origin).names =
        (Setting.mk (.ofOutline known (o.forget g)) (.ofText []) origin).names :=
      (NameScope.ofOutline_forget known o).symm
    unfold Outline.toTypes
    rw [Outline.packagePrefix_forget]
    exact Setting.typesOfAll_forget hnames rfl _ _ _ _
  rw [← hforget o cs, h, hforget o' cs']

end Source
end FaultTolerance.Java
