import FaultTolerance.Proofs.Source.Outline
import FaultTolerance.Proofs.Source.Trees

/-! Tokens of which something is forgotten. A `Forgetting` changes tokens in what no reader of trees asks
for: where they start, or how much white space stands in front of them. So reading the changed tokens
gives the changed trees (`Tree.map_forget_ofTokens`, `Tree.map_forget_joinedAll`). -/
namespace FaultTolerance.Java.Source
open Text
set_option autoImplicit false

/-! ## Tokens -/

/-- The text without white space. -/
def compacted (s : String) : String := .ofList (compact s.toList)

theorem compacted_append (a b : String) : compacted (a ++ b) = compacted a ++ compacted b := by
  simp [compacted, compact_append]

/-- What may be forgotten of tokens, and of the texts that they make up. -/
structure Forgetting where
  token : Token → Token
  text : String → String
  kind_token : ∀ t, (token t).kind = t.kind
  text_token : ∀ t, (token t).text = t.text
  token_token : ∀ t, token (token t) = token t
  text_text : ∀ s, text (text s) = text s
  followsBlank_token : ∀ t, (token t).followsBlank = t.followsBlank
  commentBefore_token : ∀ t, commentBefore (token t) = (commentBefore t).map text
  text_textOf : ∀ ts, text (Token.textOf (ts.map token)) = text (Token.textOf ts)
  compacted_text : ∀ s, compacted (text s) = compacted s

attribute [simp] Forgetting.kind_token Forgetting.text_token Forgetting.token_token
  Forgetting.text_text Forgetting.followsBlank_token

namespace Forgetting
variable (g : Forgetting)

@[simp] theorem isWord_token (t : Token) : (g.token t).isWord = t.isWord := by simp [Token.isWord]

@[simp] theorem isKeyword_token (t : Token) (w : String) :
    (g.token t).isKeyword w = t.isKeyword w := by simp [Token.isKeyword]

@[simp] theorem isSymbol_token (t : Token) (s : String) :
    (g.token t).isSymbol s = t.isSymbol s := by simp [Token.isSymbol]

@[simp] theorem map_token_map_token (ts : List Token) :
    (ts.map g.token).map g.token = ts.map g.token := by simp [Function.comp_def]

theorem compacted_textOf (ts : List Token) :
    compacted (Token.textOf (ts.map g.token)) = compacted (Token.textOf ts) := by
  rw [← g.compacted_text, g.text_textOf, g.compacted_text]

@[simp] theorem compactText_map_token (ts : List Token) :
    Token.compactText (ts.map g.token) = Token.compactText ts := g.compacted_textOf ts

@[simp] theorem opening?_token (t : Token) : Bracket.opening? (g.token t) = Bracket.opening? t := by
  simp [Bracket.opening?]

@[simp] theorem closing?_token (t : Token) : Bracket.closing? (g.token t) = Bracket.closing? t := by
  simp [Bracket.closing?]

end Forgetting

/-! ## Trees -/

namespace Tree

mutual

/-- The tree with its tokens changed. -/
def forget (g : Forgetting) : Tree → Tree
  | .leaf t => .leaf (g.token t)
  | .group bracket opening content closing =>
    .group bracket (g.token opening) (forgetAll g content) (closing.map g.token)
  | .marked mark name none => .marked (g.token mark) (name.map g.token) none
  | .marked mark name (some arguments) =>
    .marked (g.token mark) (name.map g.token) (some (forget g arguments))

def forgetAll (g : Forgetting) : List Tree → List Tree
  | [] => []
  | t :: ts => forget g t :: forgetAll g ts

end

variable (g : Forgetting)

theorem forgetAll_eq_map (ts : List Tree) : forgetAll g ts = ts.map (forget g) := by
  induction ts with
  | nil => rfl
  | cons t ts ih => rw [forgetAll, ih, List.map_cons]

@[simp] theorem forget_leaf (t : Token) : (leaf t).forget g = leaf (g.token t) := by
  rw [forget]

@[simp] theorem forget_group (bracket : Bracket) (opening : Token) (content : List Tree)
    (closing : Option Token) :
    (group bracket opening content closing).forget g =
      group bracket (g.token opening) (content.map (forget g)) (closing.map g.token) := by
  rw [forget, forgetAll_eq_map]

@[simp] theorem forget_marked (mark : Token) (name : List Token) (arguments : Option Tree) :
    (marked mark name arguments).forget g =
      marked (g.token mark) (name.map g.token) (arguments.map (forget g)) := by
  cases arguments <;> rw [forget] <;> rfl

mutual

@[simp] theorem forget_forget (t : Tree) : (t.forget g).forget g = t.forget g := by
  cases t with
  | leaf t => simp
  | group bracket opening content closing =>
    cases closing <;> simp [forget_group, map_forget_forget content]
  | marked mark name arguments =>
    have hname := g.map_token_map_token name
    cases arguments with
    | none => simp [hname]
    | some arguments => simp [hname, forget_forget arguments]

theorem map_forget_forget (ts : List Tree) :
    (ts.map (forget g)).map (forget g) = ts.map (forget g) := by
  cases ts with
  | nil => rfl
  | cons t ts => rw [List.map_cons, List.map_cons, forget_forget t, map_forget_forget ts]

end

/-! ### Tests -/

@[simp] theorem isKeyword_forget (w : String) (t : Tree) :
    (t.forget g).isKeyword w = t.isKeyword w := by
  cases t <;> simp [isKeyword]

@[simp] theorem isSymbol_forget (s : String) (t : Tree) :
    (t.forget g).isSymbol s = t.isSymbol s := by
  cases t <;> simp [isSymbol]

@[simp] theorem word?_forget (t : Tree) : (t.forget g).word? = t.word?.map g.token := by
  cases t with
  | leaf t =>
    rw [forget_leaf, word?, word?, g.isWord_token]
    split <;> rfl
  | group => simp [word?]
  | marked => simp [word?]

@[simp] theorem isGroup_forget (bracket : Bracket) (t : Tree) :
    (t.forget g).isGroup bracket = t.isGroup bracket := by
  cases t <;> simp [isGroup]

@[simp] theorem isDimension_forget (t : Tree) : (t.forget g).isDimension = t.isDimension := by
  cases t with
  | leaf => simp [isDimension]
  | group bracket opening content closing =>
    cases bracket <;> cases content <;> simp [isDimension]
  | marked => simp [isDimension]

@[simp] theorem isAnnotation_forget (t : Tree) :
    Tree.isAnnotation (t.forget g) = t.isAnnotation := by
  cases t <;> simp [Tree.isAnnotation]

mutual

@[simp] theorem tokens_forget (t : Tree) : (t.forget g).tokens = t.tokens.map g.token := by
  cases t with
  | leaf t => simp [tokens]
  | group bracket opening content closing =>
    cases closing <;> simp [tokens, tokensOf_map_forget content]
  | marked mark name arguments =>
    cases arguments with
    | none => simp [tokens]
    | some arguments => simp [tokens, tokens_forget arguments]

@[simp] theorem tokensOf_map_forget (ts : List Tree) :
    tokensOf (ts.map (forget g)) = (tokensOf ts).map g.token := by
  cases ts with
  | nil => rfl
  | cons t ts =>
    rw [List.map_cons, tokensOf, tokensOf, tokens_forget t, tokensOf_map_forget ts,
      List.map_append]

end

/-! ### Pairing brackets -/

/-- An open bracket with its tokens changed. -/
def Frame.forget (g : Forgetting) (f : Frame) : Frame :=
  ⟨f.bracket, g.token f.opening, f.outer.map (Tree.forget g)⟩

theorem map_forget_close (f : Frame) (current : List Tree) (closing : Option Token) :
    (f.close current closing).map (Tree.forget g) =
      (f.forget g).close (current.map (Tree.forget g)) (closing.map g.token) := by
  simp [Frame.close, Frame.forget]

theorem map_forget_closeUpTo (bracket : Bracket) (closing : Token) (current : List Tree)
    (frames : List Frame) :
    closeUpTo bracket (g.token closing) (current.map (forget g)) (frames.map (Frame.forget g)) =
      ((closeUpTo bracket closing current frames).1.map (forget g),
        (closeUpTo bracket closing current frames).2.map (Frame.forget g)) := by
  induction frames generalizing current with
  | nil => rfl
  | cons f frames ih =>
    have hclose := map_forget_close g f current
    rw [List.map_cons, closeUpTo, closeUpTo]
    by_cases hf : f.bracket = bracket
    · rw [if_pos hf, if_pos (show (f.forget g).bracket = bracket from hf), hclose]
      rfl
    · rw [if_neg hf, if_neg (show ¬ (f.forget g).bracket = bracket from hf), ← ih, hclose]
      rfl

theorem map_forget_closeAll (current : List Tree) (frames : List Frame) :
    (closeAll current frames).map (forget g) =
      closeAll (current.map (forget g)) (frames.map (Frame.forget g)) := by
  induction frames generalizing current with
  | nil => rfl
  | cons f frames ih =>
    rw [closeAll, ih, map_forget_close, List.map_cons, closeAll]
    rfl

theorem hasPartner_map_forget (bracket : Bracket) (frames : List Frame) :
    hasPartner bracket (frames.map (Frame.forget g)) = hasPartner bracket frames := by
  unfold hasPartner
  simp only [List.any_map, List.head?_map, Option.any_map]
  rfl

theorem map_forget_pair (current : List Tree) (frames : List Frame) (ts : List Token) :
    (pair current frames ts).map (forget g) =
      pair (current.map (forget g)) (frames.map (Frame.forget g)) (ts.map g.token) := by
  fun_induction pair current frames ts with
  | case1 current frames =>
    rw [List.map_reverse, map_forget_closeAll]
    rfl
  | case2 current frames t ts bracket hopening ih =>
    simp only [ih, List.map_cons, pair, g.opening?_token, hopening]
    rfl
  | case3 current frames t ts bracket hclosing hopening hpartner current' frames' hclose ih =>
    have hcommute := map_forget_closeUpTo g bracket t current frames
    rw [hclose] at hcommute
    simp only [ih, List.map_cons, pair, g.opening?_token, hopening,
      g.closing?_token, hclosing, hasPartner_map_forget, hpartner, if_true, hcommute]
  | case4 current frames t ts bracket hclosing hopening hpartner ih =>
    simp only [ih, List.map_cons, pair, g.opening?_token, hopening,
      g.closing?_token, hclosing, hasPartner_map_forget, hpartner, forget_leaf,
      Bool.false_eq_true, if_false]
  | case5 current frames t ts hclosing hopening ih =>
    simp only [ih, List.map_cons, pair, g.opening?_token, hopening,
      g.closing?_token, hclosing, forget_leaf]

theorem map_forget_ofTokens (ts : List Token) :
    (ofTokens ts).map (forget g) = ofTokens (ts.map g.token) :=
  map_forget_pair g [] [] ts

/-! ### Annotations -/

theorem dottedRest_map_forget (ts : List Tree) :
    dottedRest (ts.map (forget g)) =
      ((dottedRest ts).1.map g.token, (dottedRest ts).2.map (forget g)) := by
  fun_induction dottedRest ts with
  | case1 dot w ts h name rest hrest ih =>
    rw [hrest] at ih
    simp [dottedRest, h, ih]
  | case2 dot w ts h => simp [dottedRest, h]
  | case3 ts h =>
    rcases ts with _ | ⟨_ | _ | _, _ | ⟨_ | _ | _, ts⟩⟩ <;> simp_all [dottedRest]

theorem dotted_map_forget (ts : List Tree) :
    dotted (ts.map (forget g)) = ((dotted ts).1.map g.token, (dotted ts).2.map (forget g)) := by
  fun_cases dotted ts with
  | case1 w ts h name rest hrest =>
    have hcommute := dottedRest_map_forget g ts
    rw [hrest] at hcommute
    simp [dotted, h, hcommute]
  | case2 w ts h => simp [dotted, h]
  | case3 ts h => rcases ts with _ | ⟨_ | _ | _, ts⟩ <;> simp_all [dotted]

theorem joinMark_map_forget (mark : Token) (ts : List Tree) :
    joinMark (g.token mark) (ts.map (forget g)) = (joinMark mark ts).map (forget g) := by
  have hcommute := dotted_map_forget g ts
  fun_cases joinMark mark ts with
  | case1 rest h =>
    rw [h] at hcommute
    simp [joinMark, hcommute]
  | case2 w name rest h hw =>
    rw [h] at hcommute
    simp [joinMark, hcommute, hw]
  | case3 w name hw opening content closing rest h =>
    rw [h] at hcommute
    simp [joinMark, hcommute, hw]
  | case4 w name hw rest hround h =>
    rw [h] at hcommute
    rcases rest with _ | ⟨_ | ⟨_ | _ | _, opening, content, closing⟩ | _, rest⟩
    case cons.group.round => exact absurd rfl (hround opening content closing rest)
    all_goals simp [joinMark, hcommute, hw]

mutual

theorem joined_forget (t : Tree) : joined (t.forget g) = (joined t).forget g := by
  cases t with
  | leaf t => simp [joined]
  | group bracket opening content closing => simp [joined, joinedAll_map_forget content]
  | marked mark name arguments => simp [joined]

theorem joinedAll_map_forget (ts : List Tree) :
    joinedAll (ts.map (forget g)) = (joinedAll ts).map (forget g) := by
  cases ts with
  | nil => rfl
  | cons t ts =>
    have hrest := joinedAll_map_forget ts
    cases t with
    | leaf t =>
      rw [List.map_cons, forget_leaf, joinedAll, joinedAll, g.isSymbol_token, hrest]
      split
      · rw [joinMark_map_forget]
      · rw [List.map_cons, forget_leaf]
    | group bracket opening content closing =>
      have hhead := joined_forget (.group bracket opening content closing)
      rw [forget_group] at hhead
      simp [joinedAll, hrest, hhead]
    | marked mark name arguments => simp [joinedAll, joined, hrest]

end

/-- The trees of a source, read from its changed tokens. -/
theorem map_forget_ofSource (cs : List Char) :
    (ofSource cs).map (forget g) =
      joinedAll (ofTokens ((Source.tokens cs).map g.token)) := by
  rw [ofSource, ← joinedAll_map_forget, map_forget_ofTokens]

end Tree
end FaultTolerance.Java.Source
