import FaultTolerance.Java.Source.Separator
import Mathlib.Data.List.Infix

/-! Trees keep the tokens of their source. Pairing the brackets and putting annotations together
change no token and no order (`tokensOf_ofTokens`, `tokensOf_joinedAll`), so trees that stand next to
each other somewhere in a source hold tokens that do. -/
namespace FaultTolerance.Java.Source.Tree
set_option autoImplicit false

/-! ## The tokens of several trees -/

theorem tokensOf_append (ts ts' : List Tree) :
    tokensOf (ts ++ ts') = tokensOf ts ++ tokensOf ts' := by
  induction ts with
  | nil => rfl
  | cons t ts ih => rw [List.cons_append, tokensOf, tokensOf, ih, List.append_assoc]

theorem tokensOf_leaves (ts : List Token) : tokensOf (ts.map Tree.leaf) = ts := by
  induction ts with
  | nil => rfl
  | cons t ts ih => rw [List.map_cons, tokensOf, ih]; rfl

theorem tokensOf_singleton (t : Tree) : tokensOf [t] = t.tokens := by
  rw [tokensOf, tokensOf, List.append_nil]

theorem tokensOf_reverse_cons (t : Tree) (ts : List Tree) :
    tokensOf (t :: ts).reverse = tokensOf ts.reverse ++ t.tokens := by
  rw [List.reverse_cons, tokensOf_append, tokensOf_singleton]

theorem tokensOf_infix {ts ts' : List Tree} (h : ts <:+: ts') : tokensOf ts <:+: tokensOf ts' := by
  obtain ⟨before, after, rfl⟩ := h
  rw [tokensOf_append, tokensOf_append]
  exact ⟨_, _, rfl⟩

theorem tokens_infix_of_mem {t : Tree} {ts : List Tree} (h : t ∈ ts) :
    t.tokens <:+: tokensOf ts := by
  obtain ⟨before, after, rfl⟩ := List.append_of_mem h
  rw [tokensOf_append, tokensOf]
  exact ⟨_, _, List.append_assoc ..⟩

/-! ## Pairing brackets -/

/-- The tokens read up to a place inside the brackets `frames`, behind the trees in `current`. -/
def readTokens (current : List Tree) : List Frame → List Token
  | [] => tokensOf current.reverse
  | f :: frames => readTokens f.outer frames ++ f.opening :: tokensOf current.reverse

theorem readTokens_cons (t : Tree) (current : List Tree) (frames : List Frame) :
    readTokens (t :: current) frames = readTokens current frames ++ t.tokens := by
  cases frames with
  | nil => exact tokensOf_reverse_cons t current
  | cons f frames =>
    rw [readTokens, readTokens, tokensOf_reverse_cons, List.append_assoc, List.cons_append]

theorem readTokens_leaf (t : Token) (current : List Tree) (frames : List Frame) :
    readTokens (.leaf t :: current) frames = readTokens current frames ++ [t] :=
  readTokens_cons (.leaf t) current frames

theorem readTokens_close (f : Frame) (current : List Tree) (closing : Option Token)
    (frames : List Frame) :
    readTokens (f.close current closing) frames =
      readTokens current (f :: frames) ++ closing.toList := by
  rw [Frame.close, readTokens_cons, readTokens, tokens, List.append_assoc, List.cons_append]

theorem readTokens_closeUpTo {bracket : Bracket} {frames : List Frame}
    (h : frames.any (·.bracket = bracket)) (closing : Token) (current : List Tree) :
    readTokens (closeUpTo bracket closing current frames).1
        (closeUpTo bracket closing current frames).2 =
      readTokens current frames ++ [closing] := by
  induction frames generalizing current with
  | nil => cases h
  | cons f frames ih =>
    unfold closeUpTo
    by_cases hf : f.bracket = bracket
    · rw [if_pos hf, readTokens_close]
      rfl
    · have hrest : frames.any (·.bracket = bracket) := by
        simpa [hf] using h
      rw [if_neg hf, ih hrest, readTokens_close, Option.toList_none, List.append_nil]

theorem tokensOf_closeAll (current : List Tree) (frames : List Frame) :
    tokensOf (closeAll current frames).reverse = readTokens current frames := by
  induction frames generalizing current with
  | nil => rfl
  | cons f frames ih =>
    rw [closeAll, ih, readTokens_close, Option.toList_none, List.append_nil]

theorem any_of_hasPartner {bracket : Bracket} {frames : List Frame}
    (h : hasPartner bracket frames = true) : frames.any (·.bracket = bracket) := by
  cases frames with
  | nil => cases bracket <;> cases h
  | cons f frames =>
    cases bracket with
    | curly => exact h
    | round => exact Bool.or_eq_true_iff.mpr (.inl h)
    | square => exact Bool.or_eq_true_iff.mpr (.inl h)

theorem tokensOf_pair (current : List Tree) (frames : List Frame) (ts : List Token) :
    tokensOf (pair current frames ts) = readTokens current frames ++ ts := by
  fun_induction pair current frames ts with
  | case1 current frames => rw [tokensOf_closeAll, List.append_nil]
  | case2 current frames t ts bracket hopening ih =>
    rw [ih, readTokens, List.reverse_nil, tokensOf, List.append_assoc, List.singleton_append]
  | case3 current frames t ts bracket hclosing hopening hpartner current' frames' hclose ih =>
    have hread := readTokens_closeUpTo (any_of_hasPartner hpartner) t current
    rw [hclose] at hread
    rw [ih, hread, List.append_assoc, List.singleton_append]
  | case4 current frames t ts _ _ _ _ ih => rw [ih, readTokens_leaf, List.append_assoc, List.singleton_append]
  | case5 current frames t ts _ _ ih => rw [ih, readTokens_leaf, List.append_assoc, List.singleton_append]

theorem tokensOf_ofTokens (ts : List Token) : tokensOf (ofTokens ts) = ts := by
  rw [ofTokens, tokensOf_pair]
  rfl

/-! ## Annotations -/

theorem tokensOf_dottedRest (ts : List Tree) :
    (dottedRest ts).1 ++ tokensOf (dottedRest ts).2 = tokensOf ts := by
  fun_induction dottedRest ts with
  | case1 dot w ts _ name rest hrest ih =>
    rw [hrest] at ih
    rw [tokensOf, tokensOf, tokens, tokens, ← ih]
    rfl
  | case2 => rfl
  | case3 => rfl

theorem tokensOf_dotted (ts : List Tree) :
    (dotted ts).1 ++ tokensOf (dotted ts).2 = tokensOf ts := by
  fun_cases dotted ts with
  | case1 w ts _ name rest hrest =>
    have ih := tokensOf_dottedRest ts
    rw [hrest] at ih
    rw [tokensOf, tokens, ← ih]
    rfl
  | case2 => rfl
  | case3 => rfl

theorem tokensOf_joinMark (mark : Token) (ts : List Tree) :
    tokensOf (joinMark mark ts) = mark :: tokensOf ts := by
  have hdotted := tokensOf_dotted ts
  fun_cases joinMark mark ts with
  | case1 => rfl
  | case2 => rfl
  | case3 w name _ opening content closing rest h =>
    rw [h] at hdotted
    rw [← hdotted]
    simp only [tokensOf, tokens, List.cons_append, List.append_assoc]
  | case4 w name _ rest _ h =>
    rw [h] at hdotted
    rw [← hdotted]
    simp only [tokensOf, tokens, List.cons_append, List.append_nil]

mutual

theorem tokens_joined (t : Tree) : (joined t).tokens = t.tokens := by
  cases t with
  | leaf t => rfl
  | group bracket opening content closing =>
    rw [joined, tokens, tokens, tokensOf_joinedAll content]
  | marked mark name arguments => rfl

theorem tokensOf_joinedAll (ts : List Tree) : tokensOf (joinedAll ts) = tokensOf ts := by
  cases ts with
  | nil => rfl
  | cons t ts =>
    have hrest := tokensOf_joinedAll ts
    cases t with
    | leaf t =>
      rw [joinedAll]
      split
      · rw [tokensOf_joinMark, hrest]
        rfl
      · rw [tokensOf, hrest]
        rfl
    | group bracket opening content closing =>
      rw [joinedAll, tokensOf, tokens_joined, hrest]
      · rfl
      · exact nofun
    | marked mark name arguments =>
      rw [joinedAll, tokensOf, tokens_joined, hrest]
      · rfl
      · exact nofun

end

theorem tokensOf_ofSource (cs : List Char) : tokensOf (ofSource cs) = Source.tokens cs := by
  rw [ofSource, tokensOf_joinedAll, tokensOf_ofTokens]

end FaultTolerance.Java.Source.Tree
