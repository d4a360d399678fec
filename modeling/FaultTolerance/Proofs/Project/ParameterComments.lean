import FaultTolerance.Proofs.Project.ArrayParameters
import FaultTolerance.Proofs.Source.Forgetting.Meaning
import FaultTolerance.Proofs.Source.Layout

/-! Comments in front of the type of a parameter. A comment belongs to the token behind it, so the types,
the name and the dimensions are read past it, and a list has the same parts whatever comments are in it
(`exists_isPlace`). Only in front of `...` a comment is asked for, where modifiers stand before it, and then
it is taken for the type (`Setting.comment_before_type`). -/
namespace FaultTolerance
namespace Java.Source
open Source.Tree Text Naming
set_option autoImplicit false

/-! ## Comments -/

/-- The token with one more comment in front of it, behind so many of the white spaces and comments that
are there. -/
def Token.withComment (t : Token) (n : Nat) (comment : String) : Token :=
  { t with before := t.before.take n ++ ⟨.comment, comment⟩ :: t.before.drop n }

/-! ## The parts of a list around a word -/

theorem exists_splitTyped_head (depth : Nat) (ts : List Tree) :
    ∃ back after, ∀ part ≠ [], splitTyped depth part ts = (part.reverse ++ back) :: after := by
  induction ts generalizing depth with
  | nil =>
    refine ⟨[], [], fun part hpart => ?_⟩
    rw [splitTyped, if_neg (by simpa using hpart), List.append_nil]
  | cons t ts ih =>
    simp only [splitTyped]
    split
    · exact ⟨[], splitTyped 0 [] ts, fun part _ => by rw [List.append_nil]⟩
    · obtain ⟨back, after, hsplit⟩ := ih (if t.isSymbol "<" then depth + 1 else
        if t.isSymbol ">" then depth - 1 else depth)
      refine ⟨t :: back, after, fun part _ => ?_⟩
      rw [hsplit _ (List.cons_ne_nil t part), List.reverse_cons, List.append_assoc, List.singleton_append]

/-- Whatever word stands at a place in a list, the parts of the list are the same but for it. -/
theorem exists_splitTyped_word (depth : Nat) (part pre post : List Tree) :
    ∃ before front back after, ∀ w : Token, w.isWord →
      splitTyped depth part (pre ++ .leaf w :: post) = before ++ (front ++ .leaf w :: back) :: after := by
  induction pre generalizing depth part with
  | nil =>
    obtain ⟨back, after, hsplit⟩ := exists_splitTyped_head depth post
    refine ⟨[], part.reverse, back, after, fun w hw => ?_⟩
    have hword : (Tree.leaf w).word?.isSome := by simp [Tree.word?, hw]
    have hsymbol := isSymbol_eq_false (.inl hword)
    simp [splitTyped, hsymbol, hsplit]
  | cons t pre ih =>
    simp only [List.cons_append, splitTyped]
    split
    · obtain ⟨before, front, back, after, hsplit⟩ := ih 0 []
      exact ⟨part.reverse :: before, front, back, after, fun w hw => by rw [hsplit w hw]; rfl⟩
    · exact ih _ _

/-- Where a place in the list of parameters stands that is between `pre` and `post`: in one of them behind
`front` and in front of `back`, with others before and after it. -/
def IsPlace (pre post : List Tree) (before : List (List Tree)) (front back : List Tree)
    (after : List (List Tree)) : Prop :=
  ∀ w : Token, w.isWord →
    typedParts (pre ++ .leaf w :: post) = before ++ (front ++ .leaf w :: back) :: after

theorem exists_isPlace (pre post : List Tree) :
    ∃ before front back after, IsPlace pre post before front back after :=
  exists_splitTyped_word 0 [] pre post

/-! ## A parameter from the first word of its type on -/

/-- Whether `...` follows the type that begins with a word in front of some trees. -/
def isSpread (back : List Tree) : Bool :=
  (skipAnnotations (typeRest .afterName back).2).head?.any (·.isSymbol "...")

/-- Whether the type of a parameter begins with a word: in front of it are modifiers and nothing else. -/
structure StartsType (front : List Tree) (w : Token) (back : List Tree) : Prop where
  isModifier : ∀ t ∈ front, IsModifier t
  word : w.isWord
  unmodified : (modifiers (.leaf w :: back)).2 = .leaf w :: back

theorem length_modifiers_le (ts : List Tree) : (modifiers ts).2.length ≤ ts.length := by
  fun_induction modifiers ts <;> simp_all <;> omega

/-- A type begins with a word whatever comments are in front of it. -/
theorem StartsType.withComment {front back : List Tree} {w : Token} (h : StartsType front w back)
    (n : Nat) (comment : String) : StartsType front (w.withComment n comment) back := by
  refine ⟨h.isModifier, h.word, ?_⟩
  have hsealed : dropSealed? (w.withComment n comment) back = dropSealed? w back := rfl
  have hunmodified := h.unmodified
  rw [modifiers_leaf] at hunmodified
  rw [modifiers_leaf, hsealed]
  -- after a modifier fewer trees would be left
  cases hdrop : dropSealed? w back with
  | some rest =>
    have hrest := length_dropSealed? hdrop
    have hless := length_modifiers_le rest
    rw [hdrop] at hunmodified
    simp only [hunmodified, List.length_cons] at hless
    omega
  | none =>
    by_cases hmodifier : modifierWords.any fun word => w.isKeyword word
    · have hless := length_modifiers_le back
      simp only [hdrop, hmodifier, if_true] at hunmodified
      simp only [hunmodified, List.length_cons] at hless
      omega
    · exact congrArg Prod.snd (if_neg hmodifier)

theorem StartsType.modifiers_eq {front back : List Tree} {w : Token} (h : StartsType front w back) :
    (modifiers (front ++ .leaf w :: back)).2 = .leaf w :: back := by
  rw [modifiers_skip h.isModifier, h.unmodified]

/-- The parameter whose type begins with `w`, and what it is read with as a comment. -/
def parameterFrom? (comment : Option String) (w : Token) (back : List Tree) : Option ParameterSyntax :=
  let type := w :: (typeRest .afterName back).1
  match skipAnnotations (typeRest .afterName back).2 with
  | t :: after =>
    if t.isSymbol "..." then some (.variable comment type)
    else if t.word?.isSome && !(t :: after).any (·.isKeyword "this") then
      some (.fixed type (countSquares after))
    else none
  | [] => none

theorem parameterOf?_startsType {front back : List Tree} {w : Token} (h : StartsType front w back) :
    parameterOf? (front ++ .leaf w :: back) =
      parameterFrom? (if front.isEmpty then none else commentBefore w) w back := by
  have htype : typeOf (.leaf w :: back) = (w :: (typeRest .afterName back).1, (typeRest .afterName back).2) := by
    rw [typeOf, if_pos h.word]
  unfold parameterOf? parameterFrom?
  simp only [h.modifiers_eq, htype]
  cases front with
  | nil =>
    have hsame : ¬(Tree.leaf w :: back).length < ([] ++ Tree.leaf w :: back).length := Nat.lt_irrefl _
    simp only [if_neg hsame]
    rfl
  | cons t front =>
    have hless : (Tree.leaf w :: back).length < (t :: front ++ Tree.leaf w :: back).length := by
      simp only [List.length_append, List.length_cons]
      omega
    simp only [if_pos hless]
    rfl

namespace Setting
variable (s : Setting) (typeVariables : List String)

/-- What the type in front of `...` is read as: the text of a comment, or else that of the type. -/
def spreadType (comment : Option String) (w : Token) (back : List Tree) : String :=
  s.names.resolveType typeVariables
    (comment.getD (Token.textOf (w :: (typeRest .afterName back).1)) ++ "[]")

theorem map_parameterFrom?_spread {back : List Tree} (h : isSpread back) (comment : Option String)
    (w : Token) : (parameterFrom? comment w back).map (s.parameterType typeVariables) =
      some (s.spreadType typeVariables comment w back) := by
  unfold isSpread at h
  unfold parameterFrom?
  cases hrest : skipAnnotations (typeRest .afterName back).2 with
  | nil =>
    rw [hrest] at h
    cases h
  | cons t after =>
    rw [hrest] at h
    have hdots : t.isSymbol "..." := h
    simp only [hdots, if_true]
    rfl

theorem map_parameterFrom?_fixed {back : List Tree} (h : isSpread back = false)
    (comment comment' : Option String) (w : Token) (n : Nat) (text : String) :
    (parameterFrom? comment' (w.withComment n text) back).map (s.parameterType typeVariables) =
      (parameterFrom? comment w back).map (s.parameterType typeVariables) := by
  unfold isSpread at h
  unfold parameterFrom?
  cases hrest : skipAnnotations (typeRest .afterName back).2 with
  | nil => rfl
  | cons t after =>
    rw [hrest] at h
    have hdots : t.isSymbol "..." = false := h
    simp only [hdots, Bool.false_eq_true, if_false]
    split <;> rfl

/-- A comment in front of a type goes unread, unless `...` follows the type and modifiers stand in front of
both. -/
theorem map_parameterOf?_withComment {front back : List Tree} {w : Token} (h : StartsType front w back)
    (n : Nat) (comment : String)
    (hunread : isSpread back = false ∨ front = [] ∨
      commentBefore (w.withComment n comment) = commentBefore w) :
    (parameterOf? (front ++ .leaf (w.withComment n comment) :: back)).map (s.parameterType typeVariables) =
      (parameterOf? (front ++ .leaf w :: back)).map (s.parameterType typeVariables) := by
  rw [parameterOf?_startsType h, parameterOf?_startsType (h.withComment n comment)]
  cases hspread : isSpread back with
  | false => exact s.map_parameterFrom?_fixed typeVariables hspread ..
  | true =>
    rw [s.map_parameterFrom?_spread typeVariables hspread, s.map_parameterFrom?_spread typeVariables hspread]
    rcases hunread with hfixed | rfl | hcomment
    · rw [hspread] at hfixed
      cases hfixed
    · rfl
    · rw [hcomment]
      rfl

/-- The types of the parameters that the parts of a list are. -/
def partTypes (parts : List (List Tree)) : List String :=
  (parts.filterMap parameterOf?).map (s.parameterType typeVariables)

theorem map_parameterType_parts {content : List Tree} {before after : List (List Tree)} {part : List Tree}
    (h : typedParts content = before ++ part :: after) :
    (parametersOf content).map (s.parameterType typeVariables) =
      s.partTypes typeVariables before ++
        ((parameterOf? part).map (s.parameterType typeVariables)).toList ++
        s.partTypes typeVariables after := by
  unfold parametersOf partTypes
  rw [h, List.filterMap_append, List.filterMap_cons, List.map_append]
  cases parameterOf? part <;> simp

end Setting

/-! ## Methods -/

/-- Methods that are the same apart from what is forgotten of their tokens have the same types. -/
theorem Setting.method_types_forget {s s' : Setting} (hnames : s.names = s'.names) {g : Forgetting}
    {m m' : MethodSyntax} (h : m'.forget g = m.forget g) (typeVariables : List String) :
    (s'.method typeVariables m').parameterTypes = (s.method typeVariables m).parameterTypes ∧
      (s'.method typeVariables m').descriptor = (s.method typeVariables m).descriptor ∧
      (s'.method typeVariables m').signature = (s.method typeVariables m).signature := by
  have hsame : (s'.method typeVariables m').withMembers (Member.reworded g.text) =
      (s.method typeVariables m).withMembers (Member.reworded g.text) := by
    rw [← Setting.method_forget (s := s') rfl, h, Setting.method_forget hnames]
  have htypes := congrArg Method.parameterTypes hsame
  have hdescriptor := congrArg Method.descriptor hsame
  have hsignature := congrArg Method.signature hsame
  exact ⟨htypes, hdescriptor, hsignature⟩

theorem Setting.method_types_of_parameters (s : Setting) (typeVariables : List String) (m : MethodSyntax)
    {parameters : List ParameterSyntax}
    (h : parameters.map (s.parameterType (typeVariables ++ m.typeParameters)) =
      m.parameters.map (s.parameterType (typeVariables ++ m.typeParameters))) :
    (s.method typeVariables { m with parameters }).parameterTypes =
        (s.method typeVariables m).parameterTypes ∧
      (s.method typeVariables { m with parameters }).descriptor = (s.method typeVariables m).descriptor ∧
      (s.method typeVariables { m with parameters }).signature = (s.method typeVariables m).signature := by
  have hdescriptor : (s.method typeVariables { m with parameters }).descriptor =
      (s.method typeVariables m).descriptor :=
    congrArg (Descriptor.ofMethod (s.method typeVariables m).returnType) h
  exact ⟨h, hdescriptor, congrArg (m.name.text ++ ·) hdescriptor⟩

/-- A comment put in front of the type of a parameter, wherever the tokens behind it move to. It changes
no parameter type, no descriptor and no signature, unless the parameter has modifiers and `...` follows its
type. Then the type is read from the first comment in front of it, if there is one. -/
theorem Setting.comment_before_type (s s' : Setting) (hnames : s.names = s'.names) (g : Forgetting)
    (typeVariables : List String) (m m' : MethodSyntax) (pre post : List Tree) (w : Token) (n : Nat)
    (comment : String) (hm : m.parameters = parametersOf (pre ++ .leaf w :: post))
    (hm' : m'.forget g = MethodSyntax.forget g
      { m with parameters := parametersOf (pre ++ .leaf (w.withComment n comment) :: post) }) :
    (∃ before front back after, IsPlace pre post before front back after) ∧
    ∀ before front back after, IsPlace pre post before front back after → StartsType front w back →
      (isSpread back = false ∨ front = [] ∨ commentBefore (w.withComment n comment) = commentBefore w →
        (s'.method typeVariables m').parameterTypes = (s.method typeVariables m).parameterTypes ∧
        (s'.method typeVariables m').descriptor = (s.method typeVariables m).descriptor ∧
        (s'.method typeVariables m').signature = (s.method typeVariables m).signature) ∧
      (isSpread back → front ≠ [] → ∃ types types',
        (s.method typeVariables m).parameterTypes = types ++
          s.spreadType (typeVariables ++ m.typeParameters) (commentBefore w) w back :: types' ∧
        (s'.method typeVariables m').parameterTypes = types ++
          s.spreadType (typeVariables ++ m.typeParameters)
            (commentBefore (w.withComment n comment)) w back :: types') := by
  refine ⟨exists_isPlace pre post, fun before front back after hplace hstart => ?_⟩
  have hmoved := Setting.method_types_forget hnames hm' typeVariables
  have htypes := s.map_parameterType_parts (typeVariables ++ m.typeParameters) (hplace w hstart.word)
  have htypes' := s.map_parameterType_parts (typeVariables ++ m.typeParameters)
    (hplace (w.withComment n comment) hstart.word)
  rw [← hm] at htypes
  constructor
  · intro hunread
    rw [s.map_parameterOf?_withComment _ hstart n comment hunread, ← htypes] at htypes'
    obtain ⟨hsame, hdescriptor, hsignature⟩ := s.method_types_of_parameters typeVariables m htypes'
    exact ⟨hmoved.1.trans hsame, hmoved.2.1.trans hdescriptor, hmoved.2.2.trans hsignature⟩
  · intro hspread hfront
    have hempty : front.isEmpty = false := List.isEmpty_eq_false_iff.mpr hfront
    rw [parameterOf?_startsType hstart, hempty, s.map_parameterFrom?_spread _ hspread] at htypes
    rw [parameterOf?_startsType (hstart.withComment n comment), hempty,
      s.map_parameterFrom?_spread _ hspread] at htypes'
    simp only [Bool.false_eq_true, if_false, Option.toList_some, List.append_assoc,
      List.singleton_append] at htypes htypes'
    exact ⟨_, _, htypes, hmoved.1.trans htypes'⟩

/-- A method `all` with these parameters. -/
def allMethod (content : List Tree) : MethodSyntax where
  annotations := []
  typeParameters := []
  type := [spacedToken .word "void"]
  name := spacedToken .word "all"
  parameters := parametersOf content

def dotsLeaf : Tree := .leaf (spacedToken .symbol "...")

def commaLeaf : Tree := .leaf (spacedToken .symbol ",")

/-- What follows `int` in `final int n , final String ... parts`. -/
def behindInt : List Tree :=
  [wordLeaf "n", commaLeaf, wordLeaf "final", wordLeaf "String", dotsLeaf, wordLeaf "parts"]

/-- What stands in front of `String` there. -/
def beforeString : List Tree :=
  [wordLeaf "final", wordLeaf "int", wordLeaf "n", commaLeaf, wordLeaf "final"]

theorem isPlace_int : IsPlace [wordLeaf "final"] behindInt [] [wordLeaf "final"] [wordLeaf "n"]
    [[wordLeaf "final", wordLeaf "String", dotsLeaf, wordLeaf "parts"]] := by
  intro w hw
  have hkind : w.kind = .word := by simpa [Token.isWord] using hw
  simp [typedParts, splitTyped, hkind, behindInt, wordLeaf, dotsLeaf, commaLeaf, spacedToken, Tree.isSymbol,
    Token.isSymbol]

theorem isPlace_string : IsPlace beforeString [dotsLeaf, wordLeaf "parts"]
    [[wordLeaf "final", wordLeaf "int", wordLeaf "n"]] [wordLeaf "final"] [dotsLeaf, wordLeaf "parts"]
    [] := by
  intro w hw
  have hkind : w.kind = .word := by simpa [Token.isWord] using hw
  simp [typedParts, splitTyped, hkind, beforeString, wordLeaf, dotsLeaf, commaLeaf, spacedToken, Tree.isSymbol,
    Token.isSymbol]

theorem startsType_behindFinal {text : String} {back : List Tree}
    (h : (modifiers (.leaf (spacedToken .word text) :: back)).2 = .leaf (spacedToken .word text) :: back) :
    StartsType [wordLeaf "final"] (spacedToken .word text) back := by
  refine ⟨?_, rfl, h⟩
  intro t ht
  obtain rfl := List.mem_singleton.mp ht
  exact .inr ⟨_, rfl, by decide, by decide⟩

/-- In front of `int` the comment goes unread, but in front of `String ...` it is taken for the type. -/
theorem Setting.comment_before_type_all :
    let content := [wordLeaf "final"] ++ wordLeaf "int" :: behindInt
    let fixed := [wordLeaf "final"] ++ .leaf ((spacedToken .word "int").withComment 1 "/* n */") :: behindInt
    let spread := beforeString ++ .leaf ((spacedToken .word "String").withComment 1 "/* more */") ::
      [dotsLeaf, wordLeaf "parts"]
    let s := bookUnit.setting []
    (s.method [] (allMethod content)).signature = "all(I[Ljava/lang/String;)V" ∧
      (s.method [] (allMethod fixed)).signature = "all(I[Ljava/lang/String;)V" ∧
      ∃ types types',
        (s.method [] (allMethod content)).parameterTypes = types ++ "java.lang.String[]" :: types' ∧
        (s.method [] (allMethod spread)).parameterTypes = types ++ "/*more*/[]" :: types' := by
  intro content fixed spread s
  have hsignature : (s.method [] (allMethod content)).signature = "all(I[Ljava/lang/String;)V" := by
    decide +kernel
  have htype : s.spreadType [] (commentBefore (spacedToken .word "String")) (spacedToken .word "String")
      [dotsLeaf, wordLeaf "parts"] = "java.lang.String[]" := by
    decide +kernel
  have hcomment : s.spreadType [] (commentBefore ((spacedToken .word "String").withComment 1 "/* more */"))
      (spacedToken .word "String") [dotsLeaf, wordLeaf "parts"] = "/*more*/[]" := by
    decide +kernel
  obtain ⟨-, hfixed⟩ := Setting.comment_before_type s s rfl layout [] (allMethod content) (allMethod fixed)
    [wordLeaf "final"] behindInt (spacedToken .word "int") 1 "/* n */" rfl rfl
  obtain ⟨-, hspread⟩ := Setting.comment_before_type s s rfl layout [] (allMethod content) (allMethod spread)
    beforeString [dotsLeaf, wordLeaf "parts"] (spacedToken .word "String") 1 "/* more */" rfl rfl
  obtain ⟨hunread, -⟩ := hfixed _ _ _ _ isPlace_int (startsType_behindFinal rfl)
  obtain ⟨-, hread⟩ := hspread _ _ _ _ isPlace_string (startsType_behindFinal rfl)
  obtain ⟨-, -, hsame⟩ := hunread (.inl rfl)
  obtain ⟨types, types', htypes, htypes'⟩ := hread rfl (List.cons_ne_nil _ _)
  have hvariables : ([] : List String) ++ (allMethod content).typeParameters = [] := rfl
  rw [hvariables, htype] at htypes
  rw [hvariables, hcomment] at htypes'
  exact ⟨hsignature, hsame.trans hsignature, types, types', htypes, htypes'⟩

end Java.Source
end FaultTolerance
