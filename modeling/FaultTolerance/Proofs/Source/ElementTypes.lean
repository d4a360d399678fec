import FaultTolerance.Proofs.Naming.Dimensions
import FaultTolerance.Proofs.Source.Bodies.Heads
import FaultTolerance.Proofs.Source.Lexing

/-! Types as trees, apart from their dimensions. A type begins with a word and goes on with type arguments
and members (`Continues`), and then with dimensions. It is read up to what follows it (`typeOf_written`),
holds no comma that separates parameters (`Continues.joins`), and erases to its words and dots with the
dimensions behind them (`Continues.exists_erasesTo`, `AreSquares.erasesTo`). -/
namespace FaultTolerance.Java.Source
open Source.Tree Text Naming Fallback Descriptor
set_option autoImplicit false

/-! ## Words -/

/-- A token that may be a name in a type: one word, without the white space beyond ASCII that a lexeme
might hold. -/
structure IsBareWord (w : Token) : Prop where
  word : w.isWord
  ne_empty : w.text ≠ ""
  plain : ∀ c ∈ w.text.toList, isWordPart c ∧ isSpace c = false

instance (w : Token) : Decidable (IsBareWord w) :=
  decidable_of_iff
    (w.isWord ∧ w.text ≠ "" ∧ w.text.toList.all fun c => isWordPart c ∧ isSpace c = false) <| by
    simp only [List.all_eq_true, decide_eq_true_eq]
    exact ⟨fun ⟨hw, hne, hplain⟩ => ⟨hw, hne, hplain⟩, fun ⟨hw, hne, hplain⟩ => ⟨hw, hne, hplain⟩⟩

theorem IsBareWord.endsInWord {w : Token} (h : IsBareWord w) : EndsInWord w.text.toList := by
  have hne : w.text.toList ≠ [] := fun hnil => h.ne_empty (String.toList_eq_nil_iff.mp hnil)
  exact ⟨w.text.toList.dropLast, w.text.toList.getLast hne, (List.dropLast_append_getLast hne).symm,
    h.plain _ (List.getLast_mem hne)⟩

theorem IsBareWord.nested {w : Token} (h : IsBareWord w) : Nested w.text.toList :=
  .of_plain fun c hc => ⟨ne_of_isWordPart (h.plain c hc).1 (by decide),
    ne_of_isWordPart (h.plain c hc).1 (by decide)⟩

theorem IsBareWord.erased {w : Token} (h : IsBareWord w) :
    eraseArguments 0 w.text.toList = w.text.toList :=
  eraseArguments_of_plain fun c hc => ⟨⟨ne_of_isWordPart (h.plain c hc).1 (by decide),
    ne_of_isWordPart (h.plain c hc).1 (by decide)⟩, (h.plain c hc).2⟩

/-! ## Texts of trees -/

/-- The text of some tokens, with what stands in front of each. -/
def written (ts : List Token) : List Char := ts.flatMap fun t => lexemesText t.before ++ t.text.toList

theorem written_append (ts ts' : List Token) : written (ts ++ ts') = written ts ++ written ts' :=
  List.flatMap_append

theorem written_cons (t : Token) (ts : List Token) :
    written (t :: ts) = lexemesText t.before ++ t.text.toList ++ written ts := rfl

theorem toList_textOf (t : Token) (ts : List Token) :
    (Token.textOf (t :: ts)).toList = t.text.toList ++ written ts := by
  have hone : ∀ u : Token, (String.join (u.before.map (·.text)) ++ u.text).toList =
      lexemesText u.before ++ u.text.toList := by
    intro u
    rw [String.toList_append, toList_join, List.flatMap_map]
    rfl
  rw [Token.textOf, String.toList_append, toList_join, List.flatMap_map]
  simp only [hone]
  rfl

/-- Nothing but white space stands in front of a token. -/
def IsSpaced (t : Token) : Prop := ∀ c ∈ lexemesText t.before, isSpace c

instance (t : Token) : Decidable (IsSpaced t) :=
  decidable_of_iff ((lexemesText t.before).all isSpace) List.all_eq_true

theorem IsSpaced.nested {t : Token} (h : IsSpaced t) : Nested (lexemesText t.before) := by
  refine .of_plain fun c hc => ⟨?_, ?_⟩
  · rintro rfl
    exact absurd (h _ hc) (by decide)
  · rintro rfl
    exact absurd (h _ hc) (by decide)

theorem IsSpaced.eraseArguments_append {t : Token} (h : IsSpaced t) (cs : List Char) :
    eraseArguments 0 (lexemesText t.before ++ cs) = eraseArguments 0 cs :=
  eraseArguments_space h 0 [] cs

/-- The text of some trees has its angle brackets in pairs, and erases to `cs`. -/
structure ErasesTo (ts : List Tree) (cs : List Char) : Prop where
  nested : Nested (written (tokensOf ts))
  erased : eraseArguments 0 (written (tokensOf ts)) = cs

namespace ErasesTo
variable {ts ts' : List Tree} {cs cs' : List Char}

theorem nil : ErasesTo [] [] := ⟨.nil, rfl⟩

theorem append (h : ErasesTo ts cs) (h' : ErasesTo ts' cs') : ErasesTo (ts ++ ts') (cs ++ cs') where
  nested := by
    rw [tokensOf_append, written_append]
    exact h.nested.append h'.nested
  erased := by
    rw [tokensOf_append, written_append, h.nested.eraseArguments_append, h.erased, h'.erased]

theorem leaf {t : Token} (hspaced : IsSpaced t) (hnested : Nested t.text.toList)
    (herased : eraseArguments 0 t.text.toList = cs) : ErasesTo [.leaf t] cs := by
  have hwritten : written (tokensOf [.leaf t]) = lexemesText t.before ++ t.text.toList :=
    List.append_nil _
  constructor
  · rw [hwritten]
    exact hspaced.nested.append hnested
  · rw [hwritten, hspaced.eraseArguments_append, herased]

theorem word {w : Token} (hspaced : IsSpaced w) (hw : IsBareWord w) :
    ErasesTo [.leaf w] w.text.toList := leaf hspaced hw.nested hw.erased

theorem arguments {opening closing : Token} {inside : List Tree} (hopening : opening.isSymbol "<")
    (hclosing : closing.isSymbol ">") (hinside : Nested (written (tokensOf inside)))
    (hspaced : IsSpaced opening) (hspaced' : IsSpaced closing) :
    ErasesTo (.leaf opening :: inside ++ [.leaf closing]) [] := by
  have htext : opening.text = "<" := by simpa using (Bool.and_eq_true_iff.mp hopening).2
  have htext' : closing.text = ">" := by simpa using (Bool.and_eq_true_iff.mp hclosing).2
  have hwritten : written (tokensOf (.leaf opening :: inside ++ [.leaf closing])) =
      lexemesText opening.before ++
        '<' :: ((written (tokensOf inside) ++ lexemesText closing.before) ++ '>' :: []) := by
    simp [tokensOf, Tree.tokens, tokensOf_append, written_append, written_cons, htext, htext']
    rfl
  have hall : Nested (written (tokensOf inside) ++ lexemesText closing.before) :=
    hinside.append hspaced'.nested
  constructor
  · rw [hwritten]
    exact hspaced.nested.append (.arguments hall .nil)
  · rw [hwritten, hspaced.eraseArguments_append]
    exact hall.eraseArguments_arguments 0 [] []

/-! The text of a type that begins with a word and goes on with trees that erase to `cs`. -/

theorem eraseArguments_textOf {w : Token} (hw : IsBareWord w) (h : ErasesTo ts cs) :
    eraseArguments 0 (Token.textOf (w :: tokensOf ts)).toList = w.text.toList ++ cs := by
  rw [toList_textOf, hw.nested.eraseArguments_append, hw.erased, h.erased]

theorem eraseArguments_textOf_dimensions {w : Token} (hw : IsBareWord w) (h : ErasesTo ts cs) (k : Nat) :
    eraseArguments 0 ((Token.textOf (w :: tokensOf ts)).toList ++ dimensions k) =
      w.text.toList ++ cs ++ dimensions k := by
  have hnested : Nested (Token.textOf (w :: tokensOf ts)).toList := by
    rw [toList_textOf]
    exact hw.nested.append h.nested
  rw [hnested.eraseArguments_append, h.eraseArguments_textOf hw, eraseArguments_dimensions, if_pos rfl]

end ErasesTo

/-! ## Dimensions -/

/-- A pair of square brackets. -/
inductive IsSquare : Tree → Prop where
  | mk {opening closing : Token} (hopening : opening.text = "[") (hclosing : closing.text = "]") :
      IsSquare (.group .square opening [] (some closing))

/-- `n` dimensions with nothing but white space between them. -/
structure AreSquares (n : Nat) (ts : List Tree) : Prop where
  length : ts.length = n
  squares : ∀ t ∈ ts, IsSquare t
  spaced : ∀ t ∈ tokensOf ts, IsSpaced t

theorem IsSquare.erasesTo {t : Tree} (h : IsSquare t) (hspaced : ∀ u ∈ t.tokens, IsSpaced u) :
    ErasesTo [t] ['[', ']'] := by
  cases h with
  | @mk opening closing hopening hclosing =>
    have hfront : IsSpaced opening := hspaced opening List.mem_cons_self
    have hback : IsSpaced closing := hspaced closing (List.mem_cons_of_mem _ List.mem_cons_self)
    have hwritten : written (tokensOf [.group .square opening [] (some closing)]) =
        lexemesText opening.before ++ ('[' :: (lexemesText closing.before ++ [']'])) := by
      simp [tokensOf, Tree.tokens, written_cons, hopening, hclosing]
      rfl
    have hclose : Nested [']'] := by decide
    constructor
    · rw [hwritten]
      exact hfront.nested.append (.char (by decide) (by decide) (hback.nested.append hclose))
    · rw [hwritten, hfront.eraseArguments_append,
        eraseArguments_cons (by decide) (by decide) (by decide), hback.eraseArguments_append]
      decide

theorem AreSquares.erasesTo {n : Nat} {ts : List Tree} (h : AreSquares n ts) :
    ErasesTo ts (dimensions n) := by
  obtain ⟨rfl, hsquares, hspaced⟩ := h
  induction ts with
  | nil => exact .nil
  | cons t ts ih =>
    obtain ⟨ht, hts⟩ := List.forall_mem_cons.mp hsquares
    rw [tokensOf, List.forall_mem_append] at hspaced
    exact (ht.erasesTo hspaced.1).append (ih hts hspaced.2)

/-! ## Type arguments and members -/

/-- What a type goes on with behind its first word, and what is left of it without type arguments. -/
inductive Continues : List Tree → List Tree → Prop where
  | nil : Continues [] []
  | arguments {opening closing : Token} {inside bare more : List Tree} (hopening : opening.isSymbol "<")
      (hclosing : closing.isSymbol ">") (hinside : anglesClosed 0 inside)
      (hnested : Nested (written (tokensOf inside))) (h : Continues bare more) :
      Continues bare (.leaf opening :: inside ++ [.leaf closing] ++ more)
  | member {dot name : Token} {annotations bare more : List Tree} (hdot : dot.isSymbol ".")
      (hannotations : ∀ t ∈ annotations, t.isAnnotation)
      (hnested : Nested (written (tokensOf annotations))) (hname : IsBareWord name)
      (h : Continues bare more) :
      Continues (.leaf dot :: annotations ++ [.leaf name] ++ bare)
        (.leaf dot :: annotations ++ [.leaf name] ++ more)

theorem isSpaced_of_append {ts ts' : List Tree} (h : ∀ t ∈ tokensOf (ts ++ ts'), IsSpaced t) :
    (∀ t ∈ tokensOf ts, IsSpaced t) ∧ ∀ t ∈ tokensOf ts', IsSpaced t := by
  rw [tokensOf_append, List.forall_mem_append] at h
  exact h

/-- A type erases to what it erases to without its type arguments, and that ends in a word. -/
theorem Continues.exists_erasesTo {bare more : List Tree} (h : Continues bare more)
    (hspaced : ∀ t ∈ tokensOf more, IsSpaced t) :
    ∃ cs, ErasesTo more cs ∧ ErasesTo bare cs ∧ (cs = [] ∨ EndsInWord cs) := by
  induction h with
  | nil => exact ⟨[], .nil, .nil, .inl rfl⟩
  | @arguments opening closing inside bare more hopening hclosing _ hnested _ ih =>
    obtain ⟨harguments, hmore⟩ := isSpaced_of_append hspaced
    obtain ⟨cs, herases, hbare, hends⟩ := ih hmore
    obtain ⟨hfront, hback⟩ := isSpaced_of_append harguments
    have hargumentserase := ErasesTo.arguments hopening hclosing hnested
      (hfront opening List.mem_cons_self) (hback closing List.mem_cons_self)
    exact ⟨cs, hargumentserase.append herases, hbare, hends⟩
  | @member dot name annotations bare more hdot _ hnested hname _ ih =>
    obtain ⟨hmember, hmore⟩ := isSpaced_of_append hspaced
    obtain ⟨cs, herases, hbare, hends⟩ := ih hmore
    obtain ⟨hfront, hword⟩ := isSpaced_of_append hmember
    have hdottext : dot.text = "." := by simpa using (Bool.and_eq_true_iff.mp hdot).2
    have hdotspaced : IsSpaced dot := hfront dot List.mem_cons_self
    have hdoterases : ErasesTo [.leaf dot] ['.'] := by
      refine .leaf hdotspaced ?_ ?_ <;> rw [hdottext] <;> decide
    have hannotations : ErasesTo annotations (eraseArguments 0 (written (tokensOf annotations))) :=
      ⟨hnested, rfl⟩
    have hnameerases := ErasesTo.word (hword name List.mem_cons_self) hname
    have hall := (hdoterases.append hannotations).append hnameerases
    refine ⟨_, hall.append herases, hall.append hbare, .inr ?_⟩
    rcases hends with rfl | hends
    · rw [List.append_nil]
      exact hname.endsInWord.append_left _
    · exact hends.append_left _

/-! ## Reading a type -/

section reading
variable {x : Tree} {rest : List Tree}

theorem typeRest_cons {s s' : TypeState} {t : Tree} {ts : List Tree} (h : s.next t ts = some s') :
    typeRest s (t :: ts) = (t.tokens ++ (typeRest s' ts).1, (typeRest s' ts).2) := by
  rw [typeRest, h]

/-- Some trees belong to a type whatever follows them, and lead from one state to another. -/
def Passes (s s' : TypeState) (ts : List Tree) : Prop :=
  ∀ rest, typeRest s (ts ++ rest) = (tokensOf ts ++ (typeRest s' rest).1, (typeRest s' rest).2)

namespace Passes
variable {s s' s'' : TypeState} {t : Tree} {ts ts' : List Tree}

theorem nil (s : TypeState) : Passes s s [] := fun _ => rfl

theorem append (h : Passes s s' ts) (h' : Passes s' s'' ts') : Passes s s'' (ts ++ ts') := by
  intro rest
  rw [List.append_assoc, h, h', tokensOf_append, List.append_assoc]

theorem single (h : ∀ rest, s.next t rest = some s') : Passes s s' [t] := by
  intro rest
  rw [tokensOf_singleton]
  exact typeRest_cons (h rest)

theorem cons (h : ∀ rest, s.next t rest = some s') (hs : Passes s' s'' ts) : Passes s s'' (t :: ts) :=
  (single h).append hs

theorem inside {depth : Nat} (h : anglesClosed depth ts) (k : Nat) :
    Passes (.angles (k + depth)) (.angles k) ts := by
  -- `k` brackets stay open all along, `depth` of those in front of the trees are closed by them.
  induction ts generalizing depth with
  | nil =>
    obtain rfl : depth = 0 := by simpa [anglesClosed] using h
    exact nil _
  | cons t ts ih =>
    by_cases hopen : t.isSymbol "<"
    · rw [anglesClosed_cons_open hopen] at h
      refine cons (fun rest => ?_) (ih h)
      simp [TypeState.next, hopen, Nat.add_assoc]
    · by_cases hclose : t.isSymbol ">"
      · cases depth with
        | zero => simp [anglesClosed, hopen, hclose] at h
        | succ depth =>
          rw [anglesClosed_cons_close hclose] at h
          refine cons (fun rest => ?_) (ih h)
          rw [← Nat.add_assoc]
          simp [TypeState.next, hopen, hclose]
      · rw [anglesClosed_cons_other (by simpa using hopen) (by simpa using hclose)] at h
        refine cons (fun rest => ?_) (ih h)
        simp [TypeState.next, hopen, hclose]

theorem annotations (h : ∀ t ∈ ts, t.isAnnotation) : Passes .name .name ts := by
  induction ts with
  | nil => exact nil _
  | cons t ts ih =>
    obtain ⟨ht, hts⟩ := List.forall_mem_cons.mp h
    refine cons (fun rest => ?_) (ih hts)
    cases t with
    | marked => rfl
    | leaf => cases ht
    | group => cases ht

end Passes

theorem Continues.passes {bare more : List Tree} (h : Continues bare more) :
    Passes .afterName .afterName more := by
  induction h with
  | nil => exact .nil _
  | @arguments opening closing inside bare more hopening hclosing hinside _ _ ih =>
    have hopen : Passes .afterName (.angles 0) [.leaf opening] :=
      .single fun rest => by simp [TypeState.next, Tree.isSymbol, hopening]
    have hclose : Passes (.angles 0) .afterName [.leaf closing] := by
      have hnot : (Tree.leaf closing).isSymbol "<" = false := isSymbol_of_ne hclosing (by decide)
      have hclose : (Tree.leaf closing).isSymbol ">" := hclosing
      exact .single fun rest => by simp [TypeState.next, hnot, hclose]
    exact ((hopen.append (.inside hinside 0)).append hclose).append ih
  | @member dot name annotations bare more hdot hannotations _ hname _ ih =>
    have hpoint : Passes .afterName .name [.leaf dot] := by
      have hnot : (Tree.leaf dot).isSymbol "<" = false := isSymbol_of_ne hdot (by decide)
      have hpoint : (Tree.leaf dot).isSymbol "." := hdot
      exact .single fun rest => by simp [TypeState.next, hnot, hpoint]
    have hword : Passes .name .afterName [.leaf name] :=
      .single fun rest => by simp [TypeState.next, Tree.word?, hname.word]
    exact ((hpoint.append (.annotations hannotations)).append hword).append ih

/-- Whether a type is over in front of some trees. -/
structure EndsType (x : Tree) (rest : List Tree) : Prop where
  afterName : TypeState.afterName.next x rest = none
  dimensions : TypeState.dimensions.next x rest = none

theorem endsType_leaf {t : Token} (hangle : (Tree.leaf t).isSymbol "<" = false)
    (hdot : (Tree.leaf t).isSymbol "." = false) (rest : List Tree) : EndsType (.leaf t) rest := by
  constructor <;> simp [TypeState.next, hangle, hdot, Tree.isDimension, Tree.isAnnotation]

theorem endsType_word {w : Token} (h : w.isWord) (rest : List Tree) : EndsType (.leaf w) rest := by
  have hword : (Tree.leaf w).word?.isSome := by simp [Tree.word?, h]
  exact endsType_leaf (isSymbol_eq_false (.inl hword) "<") (isSymbol_eq_false (.inl hword) ".") rest

theorem endsType_symbol {t : Token} {s : String} (h : t.isSymbol s) (hangle : s ≠ "<") (hdot : s ≠ ".")
    (rest : List Tree) : EndsType (.leaf t) rest :=
  endsType_leaf (isSymbol_of_ne (t := .leaf t) h hangle) (isSymbol_of_ne (t := .leaf t) h hdot) rest

/-- An annotation goes on with a type only in front of dimensions. -/
theorem endsType_annotation {x : Tree} {rest : List Tree} (hx : x.isAnnotation)
    (hrest : (skipAnnotations rest).head?.any Tree.isDimension = false) : EndsType x rest := by
  cases x with
  | marked => constructor <;> simp [TypeState.next, hrest, Tree.isDimension, Tree.isSymbol]
  | leaf => cases hx
  | group => cases hx

theorem typeRest_squares {ts : List Tree} (h : ∀ t ∈ ts, IsSquare t) (hx : EndsType x rest)
    {s : TypeState} (hs : s = .afterName ∨ s = .dimensions) :
    typeRest s (ts ++ x :: rest) = (tokensOf ts, x :: rest) := by
  induction ts generalizing s with
  | nil =>
    have hend : s.next x rest = none := by
      rcases hs with rfl | rfl
      · exact hx.afterName
      · exact hx.dimensions
    rw [List.nil_append, typeRest, hend]
    rfl
  | cons t ts ih =>
    obtain ⟨ht, hts⟩ := List.forall_mem_cons.mp h
    have hnext : s.next t (ts ++ x :: rest) = some .dimensions := by
      cases ht
      rcases hs with rfl | rfl <;> rfl
    rw [List.cons_append, typeRest_cons hnext, ih hts (.inr rfl)]
    rfl

theorem typeOf_written {w : Token} {bare more dims : List Tree} (hw : w.isWord)
    (hmore : Continues bare more) (hdims : ∀ t ∈ dims, IsSquare t) (hx : EndsType x rest) :
    typeOf (.leaf w :: more ++ dims ++ x :: rest) = (w :: tokensOf (more ++ dims), x :: rest) := by
  have hrest : typeRest .afterName (more ++ (dims ++ x :: rest)) = (tokensOf (more ++ dims), x :: rest) := by
    rw [hmore.passes, typeRest_squares hdims hx (.inl rfl), tokensOf_append]
  rw [List.append_assoc, List.cons_append, typeOf, if_pos hw, hrest]

end reading

/-! ## Commas between parameters -/

/-- Some trees separate no two parameters, wherever they stand outside type arguments. -/
def Joins (ts : List Tree) : Prop :=
  ∀ part rest, splitTyped 0 part (ts ++ rest) = splitTyped 0 (ts.reverse ++ part) rest

namespace Joins
variable {ts ts' : List Tree}

theorem append (h : Joins ts) (h' : Joins ts') : Joins (ts ++ ts') := by
  intro part rest
  rw [List.append_assoc, h, h', List.reverse_append, List.append_assoc]

theorem single {t : Tree} (hcomma : t.isSymbol "," = false) (hopen : t.isSymbol "<" = false)
    (hclose : t.isSymbol ">" = false) : Joins [t] := by
  intro part rest
  simp [splitTyped, hcomma, hopen, hclose]

theorem of_forall (h : ∀ t ∈ ts, Joins [t]) : Joins ts := by
  induction ts with
  | nil => exact fun _ _ => rfl
  | cons t ts ih =>
    obtain ⟨ht, hts⟩ := List.forall_mem_cons.mp h
    exact ht.append (ih hts)

theorem of_part {t : Tree} (h : t.word?.isSome ∨ t.isDimension ∨ t.isAnnotation) : Joins [t] :=
  single (isSymbol_eq_false h ",") (isSymbol_eq_false h "<") (isSymbol_eq_false h ">")

theorem word {w : Token} (h : w.isWord) : Joins [.leaf w] := of_part (.inl (by simp [Tree.word?, h]))

theorem symbol {t : Token} {s : String} (h : t.isSymbol s) (hs : s ∉ [",", "<", ">"]) :
    Joins [.leaf t] := by
  have hne : ∀ s' ∈ [",", "<", ">"], (Tree.leaf t).isSymbol s' = false := by
    intro s' hs'
    refine isSymbol_of_ne h ?_
    rintro rfl
    exact hs hs'
  exact single (hne "," (by simp)) (hne "<" (by simp)) (hne ">" (by simp))

theorem inside {depth : Nat} (h : anglesClosed depth ts) (k : Nat) (part rest : List Tree) :
    splitTyped (k + 1 + depth) part (ts ++ rest) = splitTyped (k + 1) (ts.reverse ++ part) rest := by
  induction ts generalizing depth part with
  | nil =>
    obtain rfl : depth = 0 := by simpa [anglesClosed] using h
    rfl
  | cons t ts ih =>
    have hdepth : decide (k + 1 + depth = 0) = false := decide_eq_false (by omega)
    have hpart : (t :: ts).reverse ++ part = ts.reverse ++ t :: part := by simp
    rw [List.cons_append, splitTyped, hdepth, Bool.false_and, if_neg (by decide), hpart]
    by_cases hopen : t.isSymbol "<"
    · rw [anglesClosed_cons_open hopen] at h
      rw [if_pos hopen]
      exact ih h _
    · rw [if_neg hopen]
      by_cases hclose : t.isSymbol ">"
      · cases depth with
        | zero => simp [anglesClosed, hopen, hclose] at h
        | succ depth =>
          rw [anglesClosed_cons_close hclose] at h
          rw [if_pos hclose]
          exact ih h _
      · rw [anglesClosed_cons_other (by simpa using hopen) (by simpa using hclose)] at h
        rw [if_neg hclose]
        exact ih h _

theorem arguments {opening closing : Token} (hopening : opening.isSymbol "<")
    (hclosing : closing.isSymbol ">") (h : anglesClosed 0 ts) :
    Joins (.leaf opening :: ts ++ [.leaf closing]) := by
  intro part rest
  have hcomma : (Tree.leaf opening).isSymbol "," = false := isSymbol_of_ne hopening (by decide)
  have hopen : (Tree.leaf opening).isSymbol "<" := hopening
  have hnot : (Tree.leaf closing).isSymbol "<" = false := isSymbol_of_ne hclosing (by decide)
  have hclose : (Tree.leaf closing).isSymbol ">" := hclosing
  have hinside := inside h 0 (.leaf opening :: part) (.leaf closing :: rest)
  have hlist : (Tree.leaf opening :: ts ++ [Tree.leaf closing]) ++ rest =
      .leaf opening :: (ts ++ .leaf closing :: rest) := by simp
  rw [hlist, splitTyped, hcomma, Bool.and_false, if_neg (by decide), if_pos hopen]
  simp only [Nat.zero_add, Nat.add_zero] at hinside ⊢
  rw [hinside, splitTyped]
  simp [hnot, hclose]

end Joins

theorem Continues.joins {bare more : List Tree} (h : Continues bare more) : Joins more := by
  induction h with
  | nil => exact fun _ _ => rfl
  | arguments hopening hclosing hinside _ _ ih =>
    exact (Joins.arguments hopening hclosing hinside).append ih
  | member hdot hannotations _ hname _ ih =>
    have hpoint : Joins [.leaf _] := Joins.symbol hdot (by decide)
    have hmarks := Joins.of_forall fun t ht => Joins.of_part (.inr (.inr (hannotations t ht)))
    exact ((hpoint.append hmarks).append (Joins.word hname.word)).append ih

theorem joins_squares {ts : List Tree} (h : ∀ t ∈ ts, IsSquare t) : Joins ts := by
  refine Joins.of_forall fun t ht => Joins.of_part (.inr (.inl ?_))
  cases h t ht
  rfl

end FaultTolerance.Java.Source
