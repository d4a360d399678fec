import FaultTolerance.Proofs.Source.Bodies.Alike
import Mathlib.Data.List.Forall2

/-! Sources that differ in code only. `SameButCode` relates the tokens of two sources without syntax
errors when they differ in bodies of methods, constructors and initializers, in the values of fields and
in the constants of enum types. Such sources have one outline (`Outline.ofTrees_sameButCode`).

Of the code the relation asks only what keeps it apart from the declarations around it: its brackets are
in pairs, and outside brackets it holds no semicolon, nor a comma except in type arguments. Of the heads
it asks what Java's syntax grants: words, types and parameters with all brackets in pairs, angle brackets
too. -/
namespace FaultTolerance.Java.Source
open Source.Tree
set_option autoImplicit false

/-! ## The parts of a declaration -/

/-- What stands in a declaration before its body or its first value. -/
structure Head (head : List Token) : Prop where
  balanced : Balanced head
  plain : isHead false (treesOf head)
  /-- Type parameters and type arguments are complete. -/
  angles : anglesClosed 0 (treesOf head)

/-- The kind of the type that a head belongs to, if it is one of a type. -/
def kindOf? (head : List Token) : Option Kind :=
  (typeHead? (modifiers (treesOf head)).2).map Prod.fst

/-- The value of a field. -/
structure Initializer (value : List Token) : Prop where
  balanced : Balanced value
  plain : isInitializer (treesOf value)

/-- Tokens that a semicolon may follow: none stands among them outside brackets. -/
structure NoSemicolon (ts : List Token) : Prop where
  balanced : Balanced ts
  plain : ∀ t ∈ treesOf ts, t.isSymbol ";" = false

/-! ## Differences in code -/

/-- What follows the first equals sign of a field declaration: a value, and further fields with their
values. The names in it are the same, the values may differ. -/
inductive SameButValues : List Token → List Token → Prop where
  | last {value value' : List Token} (h : Initializer value) (h' : Initializer value') :
    SameButValues value value'
  | names {value value' names : List Token} {comma comma' : Token} (h : Initializer value)
    (h' : Initializer value') (hcomma : comma.isSymbol ",") (hcomma' : comma'.isSymbol ",")
    (hnames : NoSemicolon names) :
    SameButValues (value ++ comma :: names) (value' ++ comma' :: names)
  | next {value value' names ts ts' : List Token} {comma comma' eq : Token} (h : Initializer value)
    (h' : Initializer value') (hcomma : comma.isSymbol ",") (hcomma' : comma'.isSymbol ",")
    (hnames : NoSemicolon names) (heq : eq.isSymbol "=") (hrest : SameButValues ts ts') :
    SameButValues (value ++ comma :: (names ++ eq :: ts)) (value' ++ comma' :: (names ++ eq :: ts'))

/-- The tokens of two units, or of two bodies of a type, that differ in code only. The flag says whether
they are bodies of an enum type, which begin with constants. -/
inductive SameButCode : Bool → List Token → List Token → Prop where
  | nil : SameButCode false [] []
  /-- A declaration up to its semicolon: of a package, of an imported name, of a method without a body,
  of fields without values, of an annotation's element with its default. -/
  | plain {declaration ts ts' : List Token} {semicolon : Token} (h : Balanced declaration)
    (hsemicolon : semicolon.isSymbol ";") (hrest : SameButCode false ts ts') :
    SameButCode false (declaration ++ semicolon :: ts) (declaration ++ semicolon :: ts')
  /-- A method, a constructor or an initializer. -/
  | code {head code code' ts ts' : List Token} {opening opening' closing closing' : Token}
    (hhead : Head head) (hkind : kindOf? head = none)
    (hopening : Bracket.opening? opening = some .curly)
    (hopening' : Bracket.opening? opening' = some .curly) (hcode : Balanced code)
    (hcode' : Balanced code') (hclosing : Bracket.closing? closing = some .curly)
    (hclosing' : Bracket.closing? closing' = some .curly) (hrest : SameButCode false ts ts') :
    SameButCode false (head ++ opening :: code ++ closing :: ts)
      (head ++ opening' :: code' ++ closing' :: ts')
  /-- Fields with values. -/
  | fields {head values values' ts ts' : List Token} {eq semicolon semicolon' : Token}
    (hhead : Head head) (hkind : kindOf? head = none) (heq : eq.isSymbol "=")
    (hvalues : SameButValues values values') (hsemicolon : semicolon.isSymbol ";")
    (hsemicolon' : semicolon'.isSymbol ";") (hrest : SameButCode false ts ts') :
    SameButCode false (head ++ eq :: values ++ semicolon :: ts)
      (head ++ eq :: values' ++ semicolon' :: ts')
  | type {head body body' ts ts' : List Token} {opening opening' closing closing' : Token}
    {kind : Kind} (hhead : Head head) (hkind : kindOf? head = some kind)
    (hopening : Bracket.opening? opening = some .curly)
    (hopening' : Bracket.opening? opening' = some .curly)
    (hbody : SameButCode (kind = .enumType) body body')
    (hclosing : Bracket.closing? closing = some .curly)
    (hclosing' : Bracket.closing? closing' = some .curly) (hrest : SameButCode false ts ts') :
    SameButCode false (head ++ opening :: body ++ closing :: ts)
      (head ++ opening' :: body' ++ closing' :: ts')
  /-- The body of an enum type that declares constants only. -/
  | constants {constants constants' : List Token} (h : NoSemicolon constants)
    (h' : NoSemicolon constants') : SameButCode true constants constants'
  /-- The body of an enum type with constants and members. -/
  | members {constants constants' ts ts' : List Token} {semicolon semicolon' : Token}
    (h : NoSemicolon constants) (h' : NoSemicolon constants') (hsemicolon : semicolon.isSymbol ";")
    (hsemicolon' : semicolon'.isSymbol ";") (hrest : SameButCode false ts ts') :
    SameButCode true (constants ++ semicolon :: ts) (constants' ++ semicolon' :: ts')

/-! ## Values -/

theorem Initializer.noSemicolon {value : List Token} (h : Initializer value) : NoSemicolon value :=
  ⟨h.balanced, no_semicolon_of_isInitializer h.plain⟩

theorem NoSemicolon.append {ts ts' : List Token} {t : Token} {s : String} (h : NoSemicolon ts)
    (ht : t.isSymbol s) (hs : s ∈ stops) (hne : s ≠ ";") (h' : NoSemicolon ts') :
    NoSemicolon (ts ++ t :: ts') := by
  have hstop := Token.isStop_of_symbol ht hs
  refine ⟨h.balanced.append (h'.balanced.stop hstop), ?_⟩
  rw [treesOf_stop h.balanced hstop h'.balanced]
  have hleaf : (Tree.leaf t).isSymbol ";" = false := isSymbol_of_ne (s := s) ht hne
  exact List.forall_mem_append.mpr ⟨h.plain, List.forall_mem_cons.mpr ⟨hleaf, h'.plain⟩⟩

theorem laterNames_comma {comma comma' : Token} (h : comma.isSymbol ",") (h' : comma'.isSymbol ",")
    (ts : List Tree) : laterNames (.leaf comma :: ts) = laterNames (.leaf comma' :: ts) := by
  have hleaf : (Tree.leaf comma).isSymbol "," = (Tree.leaf comma').isSymbol "," := h.trans h'.symm
  rw [laterNames, laterNames, hleaf]

namespace SameButValues
variable {values values' : List Token}

theorem symm (h : SameButValues values values') : SameButValues values' values := by
  induction h with
  | last h h' => exact .last h' h
  | names h h' hcomma hcomma' hnames => exact .names h' h hcomma' hcomma hnames
  | next h h' hcomma hcomma' hnames heq _ ih => exact .next h' h hcomma' hcomma hnames heq ih

theorem noSemicolon (h : SameButValues values values') : NoSemicolon values := by
  induction h with
  | last h => exact h.noSemicolon
  | names h _ hcomma _ hnames => exact h.noSemicolon.append hcomma (by decide) (by decide) hnames
  | next h _ hcomma _ hnames heq _ ih =>
    exact h.noSemicolon.append hcomma (by decide) (by decide)
      (hnames.append heq (by decide) (by decide) ih)

theorem laterNames_eq (h : SameButValues values values') :
    laterNames (treesOf values) = laterNames (treesOf values') := by
  have hvalue : ∀ {value : List Token}, Initializer value → laterNames (treesOf value) = [] := by
    intro value hvalue
    rw [← List.append_nil (treesOf value), laterNames_initializer hvalue.plain]
    rfl
  have hcomma : ∀ {value ts : List Token} {comma : Token}, Initializer value → comma.isSymbol "," →
      Balanced ts → laterNames (treesOf (value ++ comma :: ts)) =
        laterNames (.leaf comma :: treesOf ts) := by
    intro value ts comma hvalue hcomma hts
    rw [treesOf_stop hvalue.balanced (Token.isStop_of_symbol hcomma (by decide)) hts,
      laterNames_initializer hvalue.plain]
  induction h with
  | last h h' => rw [hvalue h, hvalue h']
  | names h h' hc hc' hnames =>
    rw [hcomma h hc hnames.balanced, hcomma h' hc' hnames.balanced, laterNames_comma hc hc']
  | @next value value' names ts ts' comma comma' eq h h' hc hc' hnames heq hrest ih =>
    have hstop := Token.isStop_of_symbol heq (by decide)
    have hts := hrest.noSemicolon.balanced
    have hts' := hrest.symm.noSemicolon.balanced
    have hleaf : (Tree.leaf eq).isSymbol "=" := heq
    rw [hcomma h hc (hnames.balanced.append (hts.stop hstop)),
      hcomma h' hc' (hnames.balanced.append (hts'.stop hstop)), laterNames_comma hc hc',
      treesOf_stop hnames.balanced hstop hts, treesOf_stop hnames.balanced hstop hts',
      ← List.cons_append, ← List.cons_append, laterNames_value hleaf,
      laterNames_value hleaf _ (treesOf ts'), ih]

end SameButValues

/-! ## Declarations -/

namespace SameButCode
variable {constants : Bool} {ts ts' : List Token}

theorem symm (h : SameButCode constants ts ts') : SameButCode constants ts' ts := by
  induction h with
  | nil => exact .nil
  | plain h hsemicolon _ ih => exact .plain h hsemicolon ih
  | code hhead hkind hopening hopening' hcode hcode' hclosing hclosing' _ ih =>
    exact .code hhead hkind hopening' hopening hcode' hcode hclosing' hclosing ih
  | fields hhead hkind heq hvalues hsemicolon hsemicolon' _ ih =>
    exact .fields hhead hkind heq hvalues.symm hsemicolon' hsemicolon ih
  | type hhead hkind hopening hopening' _ hclosing hclosing' _ ihbody ih =>
    exact .type hhead hkind hopening' hopening ihbody hclosing' hclosing ih
  | constants h h' => exact .constants h' h
  | members h h' hsemicolon hsemicolon' _ ih => exact .members h' h hsemicolon' hsemicolon ih

theorem balanced (h : SameButCode constants ts ts') : Balanced ts := by
  have hbody : ∀ {head body ts : List Token} {opening closing : Token}, Balanced head →
      Bracket.opening? opening = some .curly → Balanced body →
      Bracket.closing? closing = some .curly → Balanced ts →
        Balanced (head ++ opening :: body ++ closing :: ts) := by
    intro head body ts opening closing hhead hopening hbody hclosing hts
    rw [List.append_assoc]
    exact hhead.append (.group hopening hclosing hbody hts)
  induction h with
  | nil => exact .nil
  | plain h hsemicolon _ ih =>
    exact h.append (ih.stop (Token.isStop_of_symbol hsemicolon (by decide)))
  | code hhead _ hopening _ hcode _ hclosing _ _ ih =>
    exact hbody hhead.balanced hopening hcode hclosing ih
  | fields hhead _ heq hvalues hsemicolon _ _ ih =>
    exact (hhead.balanced.append (hvalues.noSemicolon.balanced.stop
      (Token.isStop_of_symbol heq (by decide)))).append
        (ih.stop (Token.isStop_of_symbol hsemicolon (by decide)))
  | type hhead _ hopening _ _ hclosing _ _ ihbody ih =>
    exact hbody hhead.balanced hopening ihbody hclosing ih
  | constants h => exact h.balanced
  | members h _ hsemicolon _ _ ih =>
    exact h.balanced.append (ih.stop (Token.isStop_of_symbol hsemicolon (by decide)))

end SameButCode

/-- The declarations of a unit or in a body. With `constants` they follow the first semicolon. -/
def declarationsAfter (constants : Bool) (ts : List Tree) : List (List Tree) :=
  splitDeclarations false [] (if constants then (ts.dropWhile (!·.isSymbol ";")).drop 1 else ts)

theorem declarationsOf_eq (kind : Kind) (content : List Tree) :
    declarationsOf kind content = declarationsAfter (kind = .enumType) content := by
  cases kind <;> rfl

theorem dropWhile_constants {ts : List Tree} (h : ∀ t ∈ ts, t.isSymbol ";" = false)
    (ys : List Tree) :
    (ts ++ ys).dropWhile (!·.isSymbol ";") = ys.dropWhile (!·.isSymbol ";") := by
  refine List.dropWhile_append_of_pos fun t ht => ?_
  rw [h t ht]
  rfl

theorem declarationsAfter_constants {constants : List Token} (h : NoSemicolon constants) :
    declarationsAfter true (treesOf constants) = [] := by
  rw [declarationsAfter, ← List.append_nil (treesOf constants), dropWhile_constants h.plain]
  rfl

section
variable {ts : List Token} (hts : Balanced ts)
include hts

theorem declarationsAfter_members {constants : List Token} {semicolon : Token}
    (h : NoSemicolon constants) (hsemicolon : semicolon.isSymbol ";") :
    declarationsAfter true (treesOf (constants ++ semicolon :: ts)) =
      declarationsAfter false (treesOf ts) := by
  have hleaf : (Tree.leaf semicolon).isSymbol ";" = true := hsemicolon
  rw [declarationsAfter, treesOf_stop h.balanced (Token.isStop_of_symbol hsemicolon (by decide)) hts,
    dropWhile_constants h.plain, List.dropWhile_cons_of_neg (by simp [hleaf])]
  rfl

theorem declarationsAfter_plain {declaration : List Token} {semicolon : Token}
    (h : Balanced declaration) (hsemicolon : semicolon.isSymbol ";") :
    declarationsAfter false (treesOf (declaration ++ semicolon :: ts)) =
      splitDeclarations false [] (treesOf declaration ++ [.leaf semicolon]) ++
        declarationsAfter false (treesOf ts) := by
  have hleaf : (Tree.leaf semicolon).isSymbol ";" := hsemicolon
  rw [treesOf_stop h (Token.isStop_of_symbol hsemicolon (by decide)) hts]
  exact splitDeclarations_semicolon hleaf false [] _ _

theorem declarationsAfter_body {head body : List Token} {opening closing : Token} (h : Head head)
    (hopening : Bracket.opening? opening = some .curly) (hbody : Balanced body)
    (hclosing : Bracket.closing? closing = some .curly) :
    declarationsAfter false (treesOf (head ++ opening :: body ++ closing :: ts)) =
      (treesOf head ++ [.group .curly opening (treesOf body) (some closing)]) ::
        declarationsAfter false (treesOf ts) := by
  rw [treesOf_body h.balanced hopening hclosing hbody hts]
  exact splitDeclarations_body rfl h.plain _

theorem declarationsAfter_values {head values : List Token} {eq semicolon : Token} (h : Head head)
    (heq : eq.isSymbol "=") (hvalues : NoSemicolon values) (hsemicolon : semicolon.isSymbol ";") :
    declarationsAfter false (treesOf (head ++ eq :: values ++ semicolon :: ts)) =
      (treesOf head ++ .leaf eq :: treesOf values) :: declarationsAfter false (treesOf ts) := by
  have hstop := Token.isStop_of_symbol heq (by decide)
  have hequals : (Tree.leaf eq).isSymbol "=" := heq
  have hends : (Tree.leaf semicolon).isSymbol ";" := hsemicolon
  rw [treesOf_stop (h.balanced.append (hvalues.balanced.stop hstop))
      (Token.isStop_of_symbol hsemicolon (by decide)) hts, treesOf_stop h.balanced hstop hvalues.balanced,
    List.append_assoc, List.cons_append]
  exact splitDeclarations_value hequals hends h.plain hvalues.plain _

end

/-- Sources that differ in code only have declarations that read alike. -/
theorem alike_of_sameButCode {constants : Bool} {ts ts' : List Token}
    (h : SameButCode constants ts ts') :
    List.Forall₂ Alike (declarationsAfter constants (treesOf ts))
      (declarationsAfter constants (treesOf ts')) := by
  induction h with
  | nil => exact .nil
  -- Whatever it declares, the same declaration stands on both sides.
  | plain h hsemicolon hrest ih =>
    rw [declarationsAfter_plain hrest.balanced h hsemicolon,
      declarationsAfter_plain hrest.symm.balanced h hsemicolon]
    exact List.rel_append (List.forall₂_same.mpr fun d _ => Alike.refl d) ih
  | code hhead hkind hopening hopening' hcode hcode' hclosing hclosing' hrest ih =>
    have htype := Option.map_eq_none_iff.mp hkind
    rw [declarationsAfter_body hrest.balanced hhead hopening hcode hclosing,
      declarationsAfter_body hrest.symm.balanced hhead hopening' hcode' hclosing']
    refine .cons (alike_of_member rfl rfl hhead.plain htype fun annotations => ?_) ih
    exact memberOf?_body rfl rfl annotations (anglesClosed_modifiers hhead.angles)
  | @fields head values values' ts ts' eq semicolon semicolon' hhead hkind heq hvalues hsemicolon
      hsemicolon' hrest ih =>
    have htype := Option.map_eq_none_iff.mp hkind
    have hstop : (Tree.leaf eq).isStop := Token.isStop_of_symbol heq (by decide)
    have hequals : (Tree.leaf eq).isSymbol "=" := heq
    rw [declarationsAfter_values hrest.balanced hhead heq hvalues.noSemicolon hsemicolon,
      declarationsAfter_values hrest.symm.balanced hhead heq hvalues.symm.noSemicolon hsemicolon']
    refine .cons (alike_of_member hstop hstop hhead.plain htype fun annotations => ?_) ih
    exact memberOf?_value hequals hvalues.laterNames_eq annotations
      (anglesClosed_modifiers hhead.angles)
  | type hhead hkind hopening hopening' hbody hclosing hclosing' hrest ihbody ih =>
    obtain ⟨⟨kind, name, rest⟩, htype, rfl⟩ := Option.map_eq_some_iff.mp hkind
    rw [declarationsAfter_body hrest.balanced hhead hopening hbody.balanced hclosing,
      declarationsAfter_body hrest.symm.balanced hhead hopening' hbody.symm.balanced hclosing']
    rw [← declarationsOf_eq, ← declarationsOf_eq] at ihbody
    exact .cons (alike_of_type hhead.plain hhead.angles htype ihbody) ih
  | constants h h' =>
    rw [declarationsAfter_constants h, declarationsAfter_constants h']
    exact .nil
  -- The members of an enum type are read behind the semicolon, whatever the constants are.
  | members h h' hsemicolon hsemicolon' hrest ih =>
    rw [declarationsAfter_members hrest.balanced h hsemicolon,
      declarationsAfter_members hrest.symm.balanced h' hsemicolon']
    exact ih

/-! ## Outlines -/

theorem tokensOf_treesOf (ts : List Token) : tokensOf (treesOf ts) = ts := by
  rw [treesOf, tokensOf_joinedAll, tokensOf_ofTokens]

theorem size_of_mem_declarations {ts : List Token} {d : List Tree}
    (h : d ∈ splitDeclarations false [] (treesOf ts)) : size d ≤ ts.length ∧ 0 < ts.length := by
  refine ⟨?_, List.length_pos_of_ne_nil ?_⟩
  · have hsize := size_le_of_infix (infix_of_mem_splitDeclarations h)
    rwa [List.reverse_nil, List.nil_append, size, size, tokensOf_treesOf] at hsize
  · rintro rfl
    cases h

/-- Units that differ in code only have the same outline. -/
theorem Outline.ofTrees_sameButCode {ts ts' : List Token} (h : SameButCode false ts ts') :
    Outline.ofTrees (treesOf ts) = Outline.ofTrees (treesOf ts') := by
  have halike : List.Forall₂ Alike (splitDeclarations false [] (treesOf ts))
      (splitDeclarations false [] (treesOf ts')) := alike_of_sameButCode h
  have hmembers := membersWithin_alike halike (fun d hd => size_of_mem_declarations hd)
    (fun d hd => size_of_mem_declarations hd)
  rw [Outline.ofTrees, Outline.ofTrees, tokensOf_treesOf, tokensOf_treesOf, hmembers,
    findSome?_alike halike, filterMap_alike halike]

end FaultTolerance.Java.Source
