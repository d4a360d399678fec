import FaultTolerance.Proofs.Project.Imports
import FaultTolerance.Proofs.Source.ElementTypes

/-! The spellings of an array parameter. Dimensions may stand on the type or behind the parameter's name,
and `...` stands for one more; `SpellsParameter` has them all, as long as no comment stands where a type is
read from. They give one type, which is that of the element with the dimensions behind it, and a descriptor
with as many brackets in front, unless the name of the element has an angle bracket that nothing closes
(`SourceUnit.array_parameters_agree`). -/
namespace FaultTolerance
namespace Java.Source
open Source.Tree Text Naming Fallback Descriptor
set_option autoImplicit false

/-! ## Resolved names -/

namespace NameScope

/-- What the name of an element type stands for. -/
def elementName (s : NameScope) (typeVariables : List String) (name : String) : String :=
  if typeVariables.contains name then "java.lang.Object" else s.resolve name

theorem resolveType_of_erased (s : NameScope) (typeVariables : List String) {raw : String}
    {base : List Char} {n : Nat} (hends : EndsInWord base)
    (h : eraseArguments 0 raw.toList = base ++ dimensions n) :
    s.resolveType typeVariables raw =
      s.elementName typeVariables (.ofList base) ++ .ofList (dimensions n) := by
  have herased : eraseChars raw.toList = base ++ dimensions n := by
    rw [eraseChars, h, varargsToArray_dimensions hends]
  rw [resolveType, herased, hends.splitDimensions_append]
  rfl

theorem suffix_qualify (outer : String) (separator : Char) (name : String) :
    name.toList <:+ (qualify outer separator name).toList := by
  unfold qualify
  split
  · exact List.suffix_refl _
  · rw [String.toList_append]
    exact List.suffix_append _ _

theorem suffix_qualifiedName (outer : String) (separator : Char) (path : List TypeSyntax)
    (t : TypeSyntax) : t.simple.toList <:+ (qualifiedName outer separator path t).toList := by
  induction path generalizing outer separator with
  | nil => exact suffix_qualify outer separator t.simple
  | cons u path ih => exact ih _ _

theorem suffix_of_mem_declared {known : List String} {o : Outline} {name q : String}
    (h : (name, q) ∈ (ofOutline known o).declared) : name.toList <:+ q.toList := by
  obtain ⟨⟨q', name'⟩, hmem, hswap⟩ := List.mem_map.mp h
  obtain ⟨rfl, rfl⟩ : name' = name ∧ q' = q := by simpa using hswap
  obtain ⟨path, t, -, rfl, rfl⟩ := (mem_namesOfAll o.types).mp (List.mem_reverse.mp hmem)
  exact suffix_qualifiedName _ _ path t

theorem suffix_of_mem_imported {known : List String} {o : Outline} {name q : String}
    (h : (name, q) ∈ (ofOutline known o).imported) : name.toList <:+ q.toList := by
  obtain ⟨i, -, -, himported⟩ := mem_imported.mp h
  obtain ⟨rfl, rfl⟩ := Prod.mk.inj himported
  have hsuffix := List.reverse_suffix.mpr
    (List.takeWhile_prefix (fun c => !decide (c = '.')) (l := i.written.toList.reverse))
  rw [List.reverse_reverse] at hsuffix
  rw [String.toList_ofList]
  exact hsuffix

/-- Every name ends in what it is written as. -/
theorem suffix_resolve (known : List String) (o : Outline) (name : String) :
    name.toList <:+ ((ofOutline known o).resolve name).toList := by
  have hchain : ∀ (a : Option String) (b : String), (∀ q, a = some q → name.toList <:+ q.toList) →
      name.toList <:+ b.toList → name.toList <:+ (a.getD b).toList := by
    intro a b ha hb
    cases a with
    | none => exact hb
    | some q => exact ha q rfl
  have hlookup : ∀ {l : List (String × String)} {q : String}, l.lookup name = some q → (name, q) ∈ l := by
    intro l q h
    obtain ⟨before, after, rfl, -⟩ := List.lookup_eq_some_iff.mp h
    exact List.mem_append_right _ List.mem_cons_self
  have hknown : ∀ {s : NameScope} {package q : String}, s.knownIn? package name = some q →
      name.toList <:+ q.toList := by
    intro s package q h
    obtain ⟨rfl, -⟩ := knownIn?_eq_some_iff.mp h
    rw [String.toList_append]
    exact List.suffix_append _ _
  unfold resolve
  split
  · exact List.suffix_refl _
  · -- A name is looked up in five places, and stays as it is where none has it.
    simp only [Option.getD_or]
    refine hchain _ _ (fun q hq => suffix_of_mem_declared (hlookup hq)) ?_
    refine hchain _ _ (fun q hq => suffix_of_mem_imported (hlookup hq)) ?_
    refine hchain _ _ (fun q hq => ?_) ?_
    · obtain ⟨package, -, hq⟩ := Option.bind_eq_some_iff.mp hq
      exact hknown hq
    · refine hchain _ _ (fun q hq => ?_) ?_
      · obtain ⟨package, -, hq⟩ := List.exists_of_findSome?_eq_some hq
        exact hknown hq
      · refine hchain _ _ (fun q hq => ?_) (List.suffix_refl _)
        obtain ⟨-, hq⟩ := Option.ite_none_right_eq_some.mp hq
        rw [← Option.some.inj hq, String.toList_append]
        exact List.suffix_append _ _

theorem endsInWord_elementName (known : List String) (o : Outline) (typeVariables : List String)
    {name : List Char} (h : EndsInWord name) :
    EndsInWord ((ofOutline known o).elementName typeVariables (.ofList name)).toList := by
  unfold elementName
  split
  · exact ⟨"java.lang.Objec".toList, 't', rfl, by decide, by decide⟩
  · obtain ⟨front, hfront⟩ := suffix_resolve known o (.ofList name)
    rw [← hfront, String.toList_ofList]
    exact h.append_left front

end NameScope

/-! ## Element types -/

/-- A type without dimensions and without comments, and what is left of it without type arguments. -/
inductive IsElementType : List Tree → List Tree → Prop where
  | mk {w : Token} {bare more : List Tree} (hw : IsBareWord w) (hmodifier : w.text ∉ modifierWords)
      (hmore : Continues bare more) (hspaced : ∀ t ∈ tokensOf more, IsSpaced t) :
      IsElementType (.leaf w :: bare) (.leaf w :: more)

/-- The text of a type. -/
def typeText (type : List Tree) : String := Token.textOf (tokensOf type)

namespace IsElementType
variable {bare type : List Tree}

/-- A type with dimensions erases to its name with these dimensions behind it. -/
theorem exists_name (h : IsElementType bare type) :
    ∃ name, EndsInWord name ∧ eraseArguments 0 (typeText bare).toList = name ∧
      ∀ {n : Nat} {dims : List Tree}, AreSquares n dims → ∀ k : Nat,
        eraseArguments 0 ((typeText (type ++ dims)).toList ++ dimensions k) =
          name ++ dimensions (n + k) := by
  obtain ⟨hw, -, hmore, hspaced⟩ := h
  rename_i w bare more
  obtain ⟨cs, herases, hbare, hends⟩ := hmore.exists_erasesTo hspaced
  refine ⟨w.text.toList ++ cs, ?_, hbare.eraseArguments_textOf hw, ?_⟩
  · rcases hends with rfl | hends
    · rw [List.append_nil]
      exact hw.endsInWord
    · exact hends.append_left _
  · intro n dims hdims k
    have hall := herases.append hdims.erasesTo
    have herased := hall.eraseArguments_textOf_dimensions hw k
    rw [← List.append_assoc, List.append_assoc, ← dimensions_add] at herased
    exact herased

theorem joins (h : IsElementType bare type) : Joins type := by
  obtain ⟨hw, -, hmore, -⟩ := h
  exact (Joins.word hw.word).append hmore.joins

end IsElementType

/-! ## Spellings of a parameter -/

/-- A tree that may stand in front of a parameter's type. -/
def IsModifier (t : Tree) : Prop :=
  t.isAnnotation ∨ ∃ a : Token, t = .leaf a ∧ a.isWord ∧ a.text ∈ modifierWords

/-- The ways to write a parameter of a type with a number of dimensions. Comments are left out where the
code takes them for part of the type: between the dimensions in front of the name, with a bracket in them
between those behind it, and between the modifiers and the type in front of `...`. -/
inductive SpellsParameter (type : List Tree) : Nat → List Tree → Prop where
  | fixed {modifiers dims dims' : List Tree} {name : Token} {n : Nat}
      (hmodifiers : ∀ t ∈ modifiers, IsModifier t) (hdims : AreSquares n dims) (hname : name.isWord)
      (hthis : name.text ≠ "this") (hdims' : ∀ t ∈ dims', IsSquare t)
      (hcomments : ∀ t ∈ (tokensOf dims').tail, '[' ∉ lexemesText t.before) :
      SpellsParameter type (n + dims'.length) (modifiers ++ type ++ dims ++ .leaf name :: dims')
  | spread {modifiers dims annotations : List Tree} {dots name : Token} {n : Nat}
      (hmodifiers : ∀ t ∈ modifiers, IsModifier t)
      (hcomment : modifiers = [] ∨ ∀ w ∈ (tokensOf type).head?, commentBefore w = none)
      (hdims : AreSquares n dims) (hannotations : ∀ t ∈ annotations, t.isAnnotation)
      (hdots : dots.isSymbol "...") (hname : name.isWord) :
      SpellsParameter type (n + 1)
        (modifiers ++ type ++ dims ++ (annotations ++ [.leaf dots, .leaf name]))

theorem isKeyword_iff {t : Token} {w : String} : t.isKeyword w ↔ t.isWord ∧ t.text = w := by
  simp [Token.isKeyword, Token.isWord]

theorem any_modifierWords {a : Token} (ha : a.isWord) :
    (modifierWords.any fun w => a.isKeyword w) = decide (a.text ∈ modifierWords) := by
  rw [Bool.eq_iff_iff, List.any_eq_true, decide_eq_true_iff]
  constructor
  · rintro ⟨w, hw, hkeyword⟩
    exact (isKeyword_iff.mp hkeyword).2 ▸ hw
  · intro h
    exact ⟨a.text, h, isKeyword_iff.mpr ⟨ha, rfl⟩⟩

theorem dropSealed?_of_ne {a : Token} {ts : List Tree}
    (h : a.isKeyword "non" = false ∨ ∀ t ∈ ts.head?, t.isSymbol "-" = false) : dropSealed? a ts = none := by
  unfold dropSealed?
  split
  · rename_i b c ts
    rcases h with h | h
    · rw [h]
      rfl
    · have hb : b.isSymbol "-" = false := h (.leaf b) rfl
      rw [hb, Bool.and_false]
      rfl
  · rfl

theorem modifiers_skip {front : List Tree} (h : ∀ t ∈ front, IsModifier t) (ts : List Tree) :
    (modifiers (front ++ ts)).2 = (modifiers ts).2 := by
  induction front with
  | nil => rfl
  | cons t front ih =>
    obtain ⟨ht, hfront⟩ := List.forall_mem_cons.mp h
    rcases ht with hannotation | ⟨a, rfl, ha, hmem⟩
    · cases t with
      | marked => exact ih hfront
      | leaf => cases hannotation
      | group => cases hannotation
    · have hnon : a.isKeyword "non" = false := by
        rw [Bool.eq_false_iff, Ne, isKeyword_iff]
        rintro ⟨-, htext⟩
        rw [htext] at hmem
        exact absurd hmem (by decide)
      rw [List.cons_append, modifiers_leaf, dropSealed?_of_ne (.inl hnon)]
      simp only [any_modifierWords ha, decide_eq_true hmem, if_pos]
      exact ih hfront

/-! ## Reading a parameter -/

section reading
variable {bare type modifiers dims rest : List Tree} {x : Tree}

theorem head?_ne_minus {bare more : List Tree} (hmore : Continues bare more)
    (hdims : ∀ t ∈ dims, IsSquare t) (hx : x.isSymbol "-" = false) :
    ∀ t ∈ (more ++ (dims ++ x :: rest)).head?, t.isSymbol "-" = false := by
  cases hmore with
  | nil =>
    cases dims with
    | nil => simpa using hx
    | cons t dims =>
      intro u hu
      obtain rfl : t = u := by simpa using hu
      cases hdims t List.mem_cons_self
      rfl
  | arguments hopening =>
    intro u hu
    obtain rfl := Option.some.inj hu
    exact isSymbol_of_ne hopening (by decide)
  | member hdot =>
    intro u hu
    obtain rfl := Option.some.inj hu
    exact isSymbol_of_ne hdot (by decide)

theorem modifiers_spelled (h : IsElementType bare type) (hmodifiers : ∀ t ∈ modifiers, IsModifier t)
    (hdims : ∀ t ∈ dims, IsSquare t) (hx : x.isSymbol "-" = false) :
    (Source.modifiers (modifiers ++ type ++ dims ++ x :: rest)).2 = type ++ dims ++ x :: rest := by
  obtain ⟨hw, hmodifier, hmore, -⟩ := h
  rw [List.append_assoc, List.append_assoc, modifiers_skip hmodifiers, List.cons_append, modifiers_leaf,
    dropSealed?_of_ne (.inr (head?_ne_minus hmore hdims hx))]
  simp [any_modifierWords hw.word, hmodifier]

theorem typeOf_spelled (h : IsElementType bare type) (hdims : ∀ t ∈ dims, IsSquare t)
    (hx : EndsType x rest) : typeOf (type ++ dims ++ x :: rest) = (tokensOf (type ++ dims), x :: rest) := by
  obtain ⟨hw, -, hmore, -⟩ := h
  exact typeOf_written hw.word hmore hdims hx

theorem count_written {ts : List Tree} (h : ∀ t ∈ ts, IsSquare t)
    (hcomments : ∀ t ∈ tokensOf ts, '[' ∉ lexemesText t.before) :
    (written (tokensOf ts)).count '[' = ts.length := by
  induction ts with
  | nil => rfl
  | cons t ts ih =>
    obtain ⟨ht, hts⟩ := List.forall_mem_cons.mp h
    rw [tokensOf, List.forall_mem_append] at hcomments
    obtain ⟨hfirst, hrest⟩ := hcomments
    cases ht with
    | @mk opening closing hopening hclosing =>
      have hfront : (lexemesText opening.before).count '[' = 0 :=
        List.count_eq_zero.mpr (hfirst opening List.mem_cons_self)
      have hback : (lexemesText closing.before).count '[' = 0 :=
        List.count_eq_zero.mpr (hfirst closing (List.mem_cons_of_mem _ List.mem_cons_self))
      have htokens : tokensOf (.group .square opening [] (some closing) :: ts) =
          opening :: closing :: tokensOf ts := rfl
      simp [htokens, written_cons, hopening, hclosing, hfront, hback, ih hts hrest]

theorem countSquares_squares {ts : List Tree} (h : ∀ t ∈ ts, IsSquare t)
    (hcomments : ∀ t ∈ (tokensOf ts).tail, '[' ∉ lexemesText t.before) : countSquares ts = ts.length := by
  cases ts with
  | nil => rfl
  | cons t ts =>
    obtain ⟨ht, hts⟩ := List.forall_mem_cons.mp h
    cases ht with
    | @mk opening closing hopening hclosing =>
      have htokens : tokensOf (.group .square opening [] (some closing) :: ts) =
          opening :: closing :: tokensOf ts := rfl
      rw [htokens, List.tail_cons, List.forall_mem_cons] at hcomments
      have hback : (lexemesText closing.before).count '[' = 0 := List.count_eq_zero.mpr hcomments.1
      rw [countSquares, htokens, toList_textOf]
      simp [written_cons, hopening, hclosing, hback, count_written hts hcomments.2]

theorem parameterOf?_fixed {dims' : List Tree} {name : Token} (h : IsElementType bare type)
    (hmodifiers : ∀ t ∈ modifiers, IsModifier t) (hdims : ∀ t ∈ dims, IsSquare t) (hname : name.isWord)
    (hthis : name.text ≠ "this") (hdims' : ∀ t ∈ dims', IsSquare t)
    (hcomments : ∀ t ∈ (tokensOf dims').tail, '[' ∉ lexemesText t.before) :
    parameterOf? (modifiers ++ type ++ dims ++ .leaf name :: dims') =
      some (.fixed (tokensOf (type ++ dims)) dims'.length) := by
  have hends : EndsType (.leaf name) dims' := endsType_word hname dims'
  have hword : (Tree.leaf name).word?.isSome := by simp [Tree.word?, hname]
  have hsymbol : ∀ s, (Tree.leaf name).isSymbol s = false := isSymbol_eq_false (.inl hword)
  have hself : ((Tree.leaf name :: dims').any fun t => t.isKeyword "this") = false := by
    rw [List.any_eq_false]
    intro t ht
    rcases List.mem_cons.mp ht with rfl | ht
    · simp [Tree.isKeyword, Token.isKeyword, hthis]
    · cases hdims' t ht
      exact Bool.false_ne_true
  have hskip : skipAnnotations (Tree.leaf name :: dims') = .leaf name :: dims' := rfl
  have htype : typeOf (type ++ dims ++ .leaf name :: dims') =
      (tokensOf (type ++ dims), .leaf name :: dims') := typeOf_spelled h hdims hends
  unfold parameterOf?
  simp only [modifiers_spelled h hmodifiers hdims (hsymbol "-"), htype]
  cases h with
  | mk =>
    simp [tokensOf, Tree.tokens, hskip, hsymbol "...", hword, hself,
      countSquares_squares hdims' hcomments]

/-- The annotations in front of `...` are no part of the type. -/
theorem exists_cons_spread {annotations : List Tree} (h : ∀ t ∈ annotations, t.isAnnotation)
    {dots : Token} (hdots : dots.isSymbol "...") (name : Token) :
    ∃ x rest, annotations ++ [.leaf dots, .leaf name] = x :: rest ∧ EndsType x rest ∧
      x.isSymbol "-" = false ∧ skipAnnotations (x :: rest) = [.leaf dots, .leaf name] := by
  have hskip : ∀ marks : List Tree, (∀ t ∈ marks, t.isAnnotation) →
      skipAnnotations (marks ++ [.leaf dots, .leaf name]) = [.leaf dots, .leaf name] := by
    intro marks hmarks
    unfold skipAnnotations
    rw [List.dropWhile_append_of_pos hmarks]
    rfl
  cases annotations with
  | nil =>
    exact ⟨_, _, rfl, endsType_symbol hdots (by decide) (by decide) _,
      isSymbol_of_ne hdots (by decide), rfl⟩
  | cons t annotations =>
    obtain ⟨ht, hannotations⟩ := List.forall_mem_cons.mp h
    have hall := hskip _ h
    refine ⟨t, annotations ++ [Tree.leaf dots, Tree.leaf name], rfl, endsType_annotation ht ?_,
      isSymbol_eq_false (.inr (.inr ht)) "-", hall⟩
    rw [hskip _ hannotations]
    rfl

theorem parameterOf?_spread {annotations : List Tree} {dots name : Token} (h : IsElementType bare type)
    (hmodifiers : ∀ t ∈ modifiers, IsModifier t)
    (hcomment : modifiers = [] ∨ ∀ w ∈ (tokensOf type).head?, commentBefore w = none)
    (hdims : ∀ t ∈ dims, IsSquare t) (hannotations : ∀ t ∈ annotations, t.isAnnotation)
    (hdots : dots.isSymbol "...") :
    parameterOf? (modifiers ++ type ++ dims ++ (annotations ++ [.leaf dots, .leaf name])) =
      some (.variable none (tokensOf (type ++ dims))) := by
  obtain ⟨x, rest, hx, hends, hminus, hskip⟩ := exists_cons_spread hannotations hdots name
  have hspread : (Tree.leaf dots).isSymbol "..." := hdots
  have htype : typeOf (type ++ dims ++ x :: rest) = (tokensOf (type ++ dims), x :: rest) :=
    typeOf_spelled h hdims hends
  rw [hx]
  unfold parameterOf?
  simp only [modifiers_spelled h hmodifiers hdims hminus, htype]
  cases h with
  | @mk w bare more =>
    have hnone : modifiers = [] ∨ commentBefore w = none := by
      refine hcomment.imp_right fun hall => hall w ?_
      rfl
    rcases hnone with rfl | hnone
    · simp [tokensOf, Tree.tokens, hskip, hspread]
    · simp [tokensOf, Tree.tokens, hskip, hspread, hnone]

end reading

theorem joins_modifiers {front : List Tree} (h : ∀ t ∈ front, IsModifier t) : Joins front := by
  refine Joins.of_forall fun t ht => ?_
  rcases h t ht with hannotation | ⟨a, rfl, ha, -⟩
  · exact Joins.of_part (.inr (.inr hannotation))
  · exact Joins.word ha

theorem SpellsParameter.joins {bare type part : List Tree} {n : Nat} (htype : IsElementType bare type)
    (h : SpellsParameter type n part) : Joins part := by
  cases h with
  | fixed hmodifiers hdims hname _ hdims' _ =>
    exact (((joins_modifiers hmodifiers).append htype.joins).append (joins_squares hdims.squares)).append
      ((Joins.word hname).append (joins_squares hdims'))
  | spread hmodifiers _ hdims hannotations hdots hname =>
    have hmarks := Joins.of_forall fun t ht => Joins.of_part (.inr (.inr (hannotations t ht)))
    exact (((joins_modifiers hmodifiers).append htype.joins).append (joins_squares hdims.squares)).append
      (hmarks.append ((Joins.symbol hdots (by decide)).append (Joins.word hname)))

theorem SpellsParameter.ne_nil {type part : List Tree} {n : Nat} (h : SpellsParameter type n part) :
    part ≠ [] := by
  cases h <;> simp

/-- Some parts with a comma between each and the next. -/
inductive Separated : List (List Tree) → List Tree → Prop where
  | nil : Separated [] []
  | last (part : List Tree) : Separated [part] part
  | cons (part : List Tree) {next content : List Tree} {parts : List (List Tree)} {comma : Token}
      (hcomma : comma.isSymbol ",") (h : Separated (next :: parts) content) :
      Separated (part :: next :: parts) (part ++ .leaf comma :: content)

theorem typedParts_separated {parts : List (List Tree)} {content : List Tree}
    (h : Separated parts content) (hparts : ∀ part ∈ parts, Joins part ∧ part ≠ []) :
    typedParts content = parts := by
  unfold typedParts
  induction h with
  | nil => rfl
  | last part =>
    obtain ⟨hjoins, hne⟩ := hparts part (List.mem_singleton_self part)
    have hall := hjoins [] []
    rw [List.append_nil, List.append_nil] at hall
    rw [hall, splitTyped, List.isEmpty_reverse, List.isEmpty_eq_false_iff.mpr hne, List.reverse_reverse]
    rfl
  | @cons part next content parts comma hcomma _ ih =>
    obtain ⟨⟨hjoins, -⟩, hrest⟩ := List.forall_mem_cons.mp hparts
    have hseparates : (Tree.leaf comma).isSymbol "," := hcomma
    rw [hjoins, List.append_nil, splitTyped, hseparates]
    simp [ih hrest]

/-! ## The types of parameters -/

/-- A type of parameters: an element without type arguments, and the number of its dimensions. -/
structure ArrayType where
  element : List Tree
  dims : Nat

/-- Some trees declare a parameter of an array type, with whatever type arguments. -/
def ArrayType.SpelledBy (a : ArrayType) (part : List Tree) : Prop :=
  ∃ type, IsElementType a.element type ∧ SpellsParameter type a.dims part

namespace Setting

/-- What the element type of a parameter stands for. -/
def elementType (s : Setting) (typeVariables : List String) (a : ArrayType) : String :=
  s.names.resolveType typeVariables (typeText a.element)

def arrayType (s : Setting) (typeVariables : List String) (a : ArrayType) : String :=
  s.elementType typeVariables a ++ .ofList (dimensions a.dims)

section
variable (s : Setting) (typeVariables : List String) {bare type : List Tree}

theorem exists_resolveType (h : IsElementType bare type) :
    ∃ name, EndsInWord name ∧
      s.names.resolveType typeVariables (typeText bare) =
        s.names.elementName typeVariables (.ofList name) ∧
      ∀ {n : Nat} {dims : List Tree}, AreSquares n dims → ∀ k : Nat,
        s.names.resolveType typeVariables (typeText (type ++ dims) ++ .ofList (dimensions k)) =
          s.names.elementName typeVariables (.ofList name) ++ .ofList (dimensions (n + k)) := by
  obtain ⟨name, hends, hbare, htype⟩ := h.exists_name
  refine ⟨name, hends, ?_, ?_⟩
  · have herased : eraseArguments 0 (typeText bare).toList = name ++ dimensions 0 := by
      rw [hbare, dimensions, List.append_nil]
    rw [s.names.resolveType_of_erased typeVariables hends herased]
    exact String.append_empty
  · intro n dims hdims k
    refine s.names.resolveType_of_erased typeVariables hends ?_
    rw [String.toList_append, String.toList_ofList, htype hdims]

theorem exists_parameter {a : ArrayType} {part : List Tree} (h : a.SpelledBy part) :
    ∃ p, parameterOf? part = some p ∧ s.parameterType typeVariables p = s.arrayType typeVariables a := by
  obtain ⟨type, htype, hpart⟩ := h
  obtain ⟨name, -, hbare, harray⟩ := s.exists_resolveType typeVariables htype
  unfold arrayType elementType
  rw [hbare]
  generalize a.dims = n at hpart
  cases hpart with
  | fixed hmodifiers hdims hname hthis hdims' hcomments =>
    exact ⟨_, parameterOf?_fixed htype hmodifiers hdims.squares hname hthis hdims' hcomments,
      harray hdims _⟩
  | spread hmodifiers hcomment hdims hannotations hdots =>
    exact ⟨_, parameterOf?_spread htype hmodifiers hcomment hdims.squares hannotations hdots,
      harray hdims 1⟩

/-- Type arguments make no difference to what a type is read as. -/
theorem resolveType_bare (h : IsElementType bare type) :
    s.names.resolveType typeVariables (typeText type) =
      s.names.resolveType typeVariables (typeText bare) := by
  obtain ⟨name, -, hbare, htype⟩ := s.exists_resolveType typeVariables h
  have hsquares : AreSquares 0 [] := ⟨rfl, nofun, nofun⟩
  have hnone := htype hsquares 0
  rw [List.append_nil, dimensions, String.append_empty, String.append_empty] at hnone
  rw [hnone, hbare]

end

theorem map_parameterType (s : Setting) (typeVariables : List String) {as : List ArrayType}
    {parts : List (List Tree)} {content : List Tree} (hparts : List.Forall₂ ArrayType.SpelledBy as parts)
    (hcontent : Separated parts content) :
    (parametersOf content).map (s.parameterType typeVariables) = as.map (s.arrayType typeVariables) := by
  have hjoins : ∀ part ∈ parts, Joins part ∧ part ≠ [] := by
    clear hcontent
    induction hparts with
    | nil => exact List.forall_mem_nil _
    | cons ha _ ih =>
      obtain ⟨type, htype, hspelled⟩ := ha
      exact List.forall_mem_cons.mpr ⟨⟨hspelled.joins htype, hspelled.ne_nil⟩, ih⟩
  rw [parametersOf, typedParts_separated hcontent hjoins]
  clear hcontent hjoins
  induction hparts with
  | nil => rfl
  | cons ha _ ih =>
    obtain ⟨p, hp, htype⟩ := s.exists_parameter typeVariables ha
    rw [List.filterMap_cons, hp, List.map_cons, List.map_cons, htype, ih]

end Setting
end Java.Source
open Java Source Naming Descriptor

/-- However the dimensions of parameters are distributed, their types are the resolved element types with
all these dimensions behind them, and type arguments, modifiers and annotations make no difference. The
descriptors have a bracket for each dimension, where the resolved names close their angle brackets, and
no dimensions where they do not. -/
theorem SourceUnit.array_parameters_agree (u : SourceUnit) (known typeVariables : List String) :
    (∀ bare type, IsElementType bare type →
      (u.setting known).names.resolveType typeVariables (typeText type) =
        (u.setting known).names.resolveType typeVariables (typeText bare)) ∧
    ∀ (as : List ArrayType) (parts : List (List Tree)) (content : List Tree) (m : MethodSyntax),
      List.Forall₂ ArrayType.SpelledBy as parts → Separated parts content →
      m.parameters = parametersOf content →
      let s := u.setting known
      let element := s.elementType (typeVariables ++ m.typeParameters)
      let array := s.arrayType (typeVariables ++ m.typeParameters)
      (s.method typeVariables m).parameterTypes = as.map array ∧
      (∀ a ∈ as, (openAngles 0 (element a).toList = 0 →
          ofType (array a) = .ofList (List.replicate a.dims '[') ++ ofType (element a)) ∧
        (openAngles 0 (element a).toList ≠ 0 → ofType (array a) = ofType (element a))) ∧
      ((∀ a ∈ as, openAngles 0 (element a).toList = 0) → (s.method typeVariables m).descriptor =
        "(" ++ String.join (as.map fun a =>
          .ofList (List.replicate a.dims '[') ++ ofType (element a)) ++ ")" ++
          ofType (s.method typeVariables m).returnType) := by
  constructor
  · intro bare type h
    exact (u.setting known).resolveType_bare typeVariables h
  intro as parts content m hparts hcontent hm s element array
  have htypes : (s.method typeVariables m).parameterTypes = as.map array := by
    rw [Setting.method, hm]
    exact s.map_parameterType _ hparts hcontent
  -- A resolved name could only lose its dimensions to `...` at its end or to an open angle bracket.
  have hends : ∀ a ∈ as, EndsInWord (element a).toList := by
    clear hcontent hm htypes
    induction hparts with
    | nil => exact List.forall_mem_nil _
    | cons ha _ ih =>
      obtain ⟨type, htype, -⟩ := ha
      obtain ⟨name, hname, hbare, -⟩ := s.exists_resolveType (typeVariables ++ m.typeParameters) htype
      refine List.forall_mem_cons.mpr ⟨?_, ih⟩
      show EndsInWord (s.names.resolveType _ _).toList
      rw [hbare, u.names_setting]
      exact NameScope.endsInWord_elementName known u.outline _ hname
  have hdescriptor : ∀ a ∈ as, openAngles 0 (element a).toList = 0 →
      ofType (array a) = .ofList (List.replicate a.dims '[') ++ ofType (element a) := by
    intro a ha hclosed
    show ofType (element a ++ .ofList (dimensions a.dims)) = _
    rw [ofType, String.toList_append, String.toList_ofList, ofTypeChars_dimensions (hends a ha) hclosed,
      String.ofList_append, ofType]
  refine ⟨htypes, fun a ha => ⟨hdescriptor a ha, ?_⟩, ?_⟩
  · intro hopen
    show ofType (element a ++ .ofList (dimensions a.dims)) = _
    rw [ofType, String.toList_append, String.toList_ofList, ofTypeChars_open hopen, ofType]
  · intro hclosed
    have hmap : (as.map array).map ofType =
        as.map fun a => .ofList (List.replicate a.dims '[') ++ ofType (element a) := by
      rw [List.map_map]
      exact List.map_congr_left fun a ha => hdescriptor a ha (hclosed a ha)
    rw [Setting.descriptor_method, Method.typesDescriptor, htypes, ofMethod_eq, hmap]

def bookUnit : SourceUnit where
  uri := "file:///Book.java"
  text := "package shop; import java.util.List; class Book<T> \x7b \x7d"

/-- A token with a space in front of it. -/
def spacedToken (kind : LexemeKind) (text : String) : Token := ⟨kind, text, [⟨.blank, " "⟩], 0⟩

def wordLeaf (text : String) : Tree := .leaf (spacedToken .word text)

def squarePair : Tree := .group .square (spacedToken .symbol "[") [] (some (spacedToken .symbol "]"))

/-- The parameter `final T [ ] rows [ ]`. -/
def rowsPart : List Tree :=
  [wordLeaf "final"] ++ [wordLeaf "T"] ++ [squarePair] ++ wordLeaf "rows" :: [squarePair]

/-- The parameter `List < T > [ ] ... rest`. -/
def restPart : List Tree :=
  [] ++ [wordLeaf "List", .leaf (spacedToken .symbol "<"), wordLeaf "T",
    .leaf (spacedToken .symbol ">")] ++ [squarePair] ++
      ([] ++ [.leaf (spacedToken .symbol "..."), wordLeaf "rest"])

def bookMethod : MethodSyntax where
  annotations := []
  typeParameters := []
  type := [spacedToken .word "void"]
  name := spacedToken .word "book"
  parameters := parametersOf (rowsPart ++ .leaf (spacedToken .symbol ",") :: restPart)

def bookTypes : List ArrayType := [⟨[wordLeaf "T"], 2⟩, ⟨[wordLeaf "List"], 2⟩]

theorem spelledBy_bookParts : List.Forall₂ ArrayType.SpelledBy bookTypes [rowsPart, restPart] := by
  have hsquares : AreSquares 1 [squarePair] := by
    refine ⟨rfl, ?_, by decide⟩
    intro t ht
    obtain rfl := List.mem_singleton.mp ht
    exact .mk rfl rfl
  have hvariable : IsElementType [wordLeaf "T"] [wordLeaf "T"] :=
    .mk (by decide) (by decide) .nil (by decide)
  have harguments : Continues [] (.leaf (spacedToken .symbol "<") :: [wordLeaf "T"] ++
      [.leaf (spacedToken .symbol ">")] ++ []) := .arguments rfl rfl (by decide) (by decide) .nil
  have hlist : IsElementType [wordLeaf "List"] [wordLeaf "List", .leaf (spacedToken .symbol "<"),
      wordLeaf "T", .leaf (spacedToken .symbol ">")] :=
    .mk (by decide) (by decide) harguments (by decide)
  have hfinal : ∀ t ∈ [wordLeaf "final"], IsModifier t := by
    intro t ht
    obtain rfl := List.mem_singleton.mp ht
    exact .inr ⟨_, rfl, by decide, by decide⟩
  refine .cons ⟨_, hvariable, ?_⟩ (.cons ⟨_, hlist, ?_⟩ .nil)
  · exact .fixed hfinal hsquares (by decide) (by decide) hsquares.squares (by decide)
  · exact .spread nofun (.inl rfl) hsquares nofun (by decide) (by decide)

theorem array_parameters_agree_book :
    ((bookUnit.setting []).method ["T"] bookMethod).parameterTypes =
      ["java.lang.Object[][]", "java.util.List[][]"] ∧
    ((bookUnit.setting []).method ["T"] bookMethod).descriptor =
      "([[Ljava/lang/Object;[[Ljava/util/List;)V" := by
  obtain ⟨-, harrays⟩ := bookUnit.array_parameters_agree [] ["T"]
  have hcontent : Separated [rowsPart, restPart]
      (rowsPart ++ .leaf (spacedToken .symbol ",") :: restPart) := .cons _ (by decide) (.last _)
  obtain ⟨htypes, -, hdescriptor⟩ :=
    harrays bookTypes _ _ bookMethod spelledBy_bookParts hcontent rfl
  exact ⟨htypes.trans (by decide +kernel), (hdescriptor (by decide +kernel)).trans (by decide +kernel)⟩

end FaultTolerance
