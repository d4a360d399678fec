import FaultTolerance.Proofs.Source.Trees

/-! Balanced tokens are read on their own. In `Balanced` tokens every bracket has its partner; their trees
do not depend on what stands around them (`pair_append`), and trees that end before a semicolon, a comma,
an equals sign or a body are joined to annotations on their own as well (`joinedAll_append`). -/
namespace FaultTolerance.Java.Source
open Source.Tree
set_option autoImplicit false

/-! ## Balanced tokens -/

/-- Every bracket among some tokens closes, or is closed by, one of its kind. -/
inductive Balanced : List Token → Prop where
  | nil : Balanced []
  | token {t : Token} {ts : List Token} (hopening : Bracket.opening? t = none)
      (hclosing : Bracket.closing? t = none) (h : Balanced ts) : Balanced (t :: ts)
  | group {bracket : Bracket} {opening closing : Token} {content ts : List Token}
      (hopening : Bracket.opening? opening = some bracket)
      (hclosing : Bracket.closing? closing = some bracket) (hcontent : Balanced content)
      (h : Balanced ts) : Balanced (opening :: content ++ closing :: ts)

theorem Balanced.append {ts ts' : List Token} (h : Balanced ts) (h' : Balanced ts') :
    Balanced (ts ++ ts') := by
  induction h with
  | nil => exact h'
  | token hopening hclosing _ ih => exact .token hopening hclosing ih
  | group hopening hclosing hcontent _ _ ih =>
    simp only [List.cons_append, List.append_assoc]
    exact .group hopening hclosing hcontent ih

/-- Whether some tokens close the brackets of a stack, and every bracket that they open. -/
def closesAll : List Bracket → List Token → Bool
  | stack, [] => stack.isEmpty
  | stack, t :: ts =>
    match Bracket.opening? t, Bracket.closing? t, stack with
    | some bracket, _, stack => closesAll (bracket :: stack) ts
    | none, some bracket, top :: stack => bracket = top && closesAll stack ts
    | none, some _, [] => false
    | none, none, stack => closesAll stack ts

/-- Tokens that close the brackets of a stack one after the other. -/
inductive Closes : List Bracket → List Token → Prop where
  | nil {ts : List Token} (h : Balanced ts) : Closes [] ts
  | cons {bracket : Bracket} {stack : List Bracket} {closing : Token} {content ts : List Token}
      (hcontent : Balanced content) (hclosing : Bracket.closing? closing = some bracket)
      (h : Closes stack ts) : Closes (bracket :: stack) (content ++ closing :: ts)

theorem Closes.token {t : Token} {stack : List Bracket} {ts : List Token}
    (hopening : Bracket.opening? t = none) (hclosing : Bracket.closing? t = none)
    (h : Closes stack ts) : Closes stack (t :: ts) := by
  cases h with
  | nil h => exact .nil (.token hopening hclosing h)
  | cons hcontent hclosing' h => exact .cons (.token hopening hclosing hcontent) hclosing' h

theorem Closes.open {bracket : Bracket} {opening : Token} {stack : List Bracket} {ts : List Token}
    (hopening : Bracket.opening? opening = some bracket) (h : Closes (bracket :: stack) ts) :
    Closes stack (opening :: ts) := by
  cases h with
  | cons hcontent hclosing h =>
    cases h with
    | nil h => exact .nil (.group hopening hclosing hcontent h)
    | cons hcontent' hclosing' h =>
      rw [← List.cons_append, ← List.cons_append, ← List.append_assoc]
      exact .cons (.group hopening hclosing hcontent hcontent') hclosing' h

theorem closes_of_closesAll {stack : List Bracket} {ts : List Token} (h : closesAll stack ts) :
    Closes stack ts := by
  induction ts generalizing stack with
  | nil =>
    rw [closesAll, List.isEmpty_iff] at h
    exact h ▸ .nil .nil
  | cons t ts ih =>
    cases hopening : Bracket.opening? t with
    | some bracket =>
      simp only [closesAll, hopening] at h
      exact (ih h).open hopening
    | none =>
      cases hclosing : Bracket.closing? t with
      | none =>
        simp only [closesAll, hopening, hclosing] at h
        exact (ih h).token hopening hclosing
      | some bracket =>
        cases stack with
        | nil => simp [closesAll, hopening, hclosing] at h
        | cons top stack =>
          simp only [closesAll, hopening, hclosing, Bool.and_eq_true, decide_eq_true_eq] at h
          exact .cons .nil (h.1 ▸ hclosing) (ih h.2)

theorem balanced_of_closesAll {ts : List Token} (h : closesAll [] ts) : Balanced ts := by
  cases closes_of_closesAll h with
  | nil h => exact h

/-! ## Pairing balanced tokens -/

theorem opening?_eq_none {t : Token} {bracket : Bracket} (h : Bracket.closing? t = some bracket) :
    Bracket.opening? t = none := by
  have htext : t.text = ")" ∨ t.text = "]" ∨ t.text = "\x7d" := by
    unfold Bracket.closing? at h
    simp only [Token.isSymbol, Bool.and_eq_true, beq_iff_eq] at h
    split at h
    · rename_i hs; exact .inl hs.2
    · split at h
      · rename_i hs; exact .inr (.inl hs.2)
      · split at h
        · rename_i hs; exact .inr (.inr hs.2)
        · cases h
  unfold Bracket.opening?
  simp only [Token.isSymbol, Bool.and_eq_true, beq_iff_eq]
  rcases htext with htext | htext | htext <;> rw [htext] <;> simp

namespace Tree

theorem ofTokens_eq_of_pair {b : List Token} {ts : List Tree}
    (h : ∀ current frames rest,
      pair current frames (b ++ rest) = pair (ts.reverse ++ current) frames rest) :
    ofTokens b = ts := by
  have hall := h [] [] []
  rw [List.append_nil, List.append_nil] at hall
  rw [ofTokens, hall, pair, closeAll, List.reverse_reverse]

/-- Balanced tokens put their own trees, and nothing else, behind what is read already. -/
theorem pair_append {b : List Token} (h : Balanced b) (current : List Tree) (frames : List Frame)
    (rest : List Token) :
    pair current frames (b ++ rest) = pair ((ofTokens b).reverse ++ current) frames rest := by
  -- The trees depend on neither what was read before nor what comes; then `ofTokens` names them.
  suffices hsome : ∃ ts : List Tree, ∀ current frames rest,
      pair current frames (b ++ rest) = pair (ts.reverse ++ current) frames rest by
    obtain ⟨ts, hts⟩ := hsome
    rw [ofTokens_eq_of_pair hts]
    exact hts current frames rest
  induction h with
  | nil => exact ⟨[], fun _ _ _ => rfl⟩
  | @token t b hopening hclosing _ ih =>
    obtain ⟨ts, hts⟩ := ih
    refine ⟨.leaf t :: ts, fun current frames rest => ?_⟩
    rw [List.cons_append, pair, hopening, hclosing, hts, List.reverse_cons, List.append_assoc]
    rfl
  | @group bracket opening closing content b hopening hclosing _ _ ihcontent ih =>
    obtain ⟨inside, hinside⟩ := ihcontent
    obtain ⟨ts, hts⟩ := ih
    refine ⟨.group bracket opening inside (some closing) :: ts, fun current frames rest => ?_⟩
    have hpartner : ∀ outer, hasPartner bracket (⟨bracket, opening, outer⟩ :: frames) = true := by
      intro outer
      cases bracket <;> simp [hasPartner]
    simp only [List.cons_append, List.append_assoc, pair, hopening, hinside,
      opening?_eq_none hclosing, hclosing, hpartner, if_true, closeUpTo, Frame.close, hts,
      List.reverse_cons, List.append_nil, List.reverse_reverse]
    rfl

theorem ofTokens_append {b b' : List Token} (h : Balanced b) (h' : Balanced b') :
    ofTokens (b ++ b') = ofTokens b ++ ofTokens b' := by
  have hb' := pair_append h' (ofTokens b).reverse [] []
  rw [List.append_nil] at hb'
  rw [ofTokens, pair_append h, List.append_nil, hb', pair, closeAll, List.reverse_append,
    List.reverse_reverse, List.reverse_reverse]

theorem ofTokens_cons {t : Token} {ts : List Token} (hopening : Bracket.opening? t = none)
    (hclosing : Bracket.closing? t = none) (h : Balanced ts) :
    ofTokens (t :: ts) = .leaf t :: ofTokens ts := by
  have hone : ofTokens [t] = [.leaf t] := by
    rw [ofTokens, pair, hopening, hclosing]
    rfl
  rw [← List.singleton_append, ofTokens_append (.token hopening hclosing .nil) h, hone]
  rfl

theorem ofTokens_group {bracket : Bracket} {opening closing : Token} {content ts : List Token}
    (hopening : Bracket.opening? opening = some bracket)
    (hclosing : Bracket.closing? closing = some bracket) (hcontent : Balanced content)
    (h : Balanced ts) :
    ofTokens (opening :: content ++ closing :: ts) =
      .group bracket opening (ofTokens content) (some closing) :: ofTokens ts := by
  have hone : ofTokens (opening :: content ++ [closing]) =
      [.group bracket opening (ofTokens content) (some closing)] := by
    have hpartner : hasPartner bracket [⟨bracket, opening, []⟩] = true := by
      cases bracket <;> rfl
    simp only [ofTokens, List.cons_append, pair, hopening, pair_append hcontent,
      opening?_eq_none hclosing, hclosing, hpartner, if_true, closeUpTo, Frame.close, closeAll,
      List.append_nil, List.reverse_reverse, List.reverse_singleton]
  have hsplit : opening :: content ++ closing :: ts = (opening :: content ++ [closing]) ++ ts := by
    simp
  rw [hsplit, ofTokens_append (.group hopening hclosing hcontent .nil) h, hone]
  rfl

/-! ## Annotations before a stop -/

/-- The symbols that end whatever could go on in front of them: a name, an annotation, a type. -/
def stops : List String := [";", "=", ","]

/-- Whether a tree is such a symbol, or the body of a declaration. -/
def isStop (t : Tree) : Bool := t.isGroup .curly || stops.any fun s => t.isSymbol s

theorem isStop_of_symbol {t : Tree} {s : String} (h : t.isSymbol s) (hs : s ∈ stops) : t.isStop := by
  have hany : (stops.any fun s => t.isSymbol s) = true := List.any_eq_true.mpr ⟨s, hs, h⟩
  rw [isStop, hany, Bool.or_true]

theorem eq_of_isStop {t : Tree} (h : t.isStop) :
    (∃ opening content closing, t = .group .curly opening content closing) ∨
      ∃ token : Token, t = .leaf token ∧ token.kind = .symbol ∧ token.text ∈ stops := by
  unfold isStop stops at h
  cases t with
  | leaf token =>
    refine .inr ⟨token, rfl, ?_⟩
    simpa [isGroup, isSymbol, Token.isSymbol, and_or_left, stops] using h
  | group bracket opening content closing =>
    obtain rfl : bracket = .curly := by simpa [isGroup, isSymbol] using h
    exact .inl ⟨opening, content, closing, rfl⟩
  | marked => simp [isGroup, isSymbol] at h

theorem isWord_of_symbol {t : Token} (hkind : t.kind = .symbol) : t.isWord = false := by
  simp [Token.isWord, hkind]

theorem isSymbol_of_mem_stops {t : Token} (h : t.text ∈ stops) {s : String} (hs : s ∉ stops) :
    t.isSymbol s = false := by
  have hne : t.text ≠ s := fun he => hs (he ▸ h)
  simp [Token.isSymbol, hne]

section
variable {x : Tree} {ys : List Tree}

theorem dottedRest_append (hx : x.isStop) (ts : List Tree) :
    dottedRest (ts ++ x :: ys) = ((dottedRest ts).1, (dottedRest ts).2 ++ x :: ys) := by
  fun_induction dottedRest ts with
  | case1 dot w ts h name rest hrest ih =>
    rw [hrest] at ih
    simp [dottedRest, h, ih]
  | case2 dot w ts h => simp [dottedRest, h]
  | case3 ts h =>
    obtain ⟨opening, content, closing, rfl⟩ | ⟨token, rfl, hkind, htext⟩ := eq_of_isStop hx
    · rcases ts with _ | ⟨a | _ | _, _ | ⟨b | _ | _, ts⟩⟩ <;> simp_all [dottedRest]
    · have hword := isWord_of_symbol hkind
      have hdot : token.isSymbol "." = false := isSymbol_of_mem_stops htext (by decide)
      rcases ts with _ | ⟨a | _ | _, _ | ⟨b | _ | _, ts⟩⟩
      case nil => rcases ys with _ | ⟨_ | _ | _, ys⟩ <;> simp [dottedRest, hdot]
      case cons.leaf.cons.leaf => exact absurd rfl (h a b ts)
      all_goals simp [dottedRest, hword]

theorem dotted_append (hx : x.isStop) (ts : List Tree) :
    dotted (ts ++ x :: ys) = ((dotted ts).1, (dotted ts).2 ++ x :: ys) := by
  fun_cases dotted ts with
  | case1 w ts h name rest hrest =>
    have happend : dottedRest (ts ++ x :: ys) = _ := dottedRest_append hx ts
    rw [hrest] at happend
    simp [dotted, h, happend]
  | case2 w ts h => simp [dotted, h]
  | case3 ts h =>
    obtain ⟨opening, content, closing, rfl⟩ | ⟨token, rfl, hkind, htext⟩ := eq_of_isStop hx
    · rcases ts with _ | ⟨_ | _ | _, ts⟩ <;> simp_all [dotted]
    · have hword := isWord_of_symbol hkind
      rcases ts with _ | ⟨_ | _ | _, ts⟩ <;> simp_all [dotted]

theorem joinMark_append (hx : x.isStop) (mark : Token) (ts : List Tree) :
    joinMark mark (ts ++ x :: ys) = joinMark mark ts ++ x :: ys := by
  have happend : dotted (ts ++ x :: ys) = _ := dotted_append hx ts
  fun_cases joinMark mark ts with
  | case1 rest h =>
    rw [h] at happend
    simp [joinMark, happend]
  | case2 w name rest h hw =>
    rw [h] at happend
    simp [joinMark, happend, hw]
  | case3 w name hw opening content closing rest h =>
    rw [h] at happend
    simp [joinMark, happend, hw]
  | case4 w name hw rest hround h =>
    rw [h] at happend
    rcases rest with _ | ⟨_ | ⟨_ | _ | _, opening, content, closing⟩ | _, rest⟩
    case nil =>
      obtain ⟨_, _, _, rfl⟩ | ⟨_, rfl, _⟩ := eq_of_isStop hx <;> simp [joinMark, happend, hw]
    case cons.group.round => exact absurd rfl (hround opening content closing rest)
    all_goals simp [joinMark, happend, hw]

theorem isStop_joined (hx : x.isStop) : (joined x).isStop := by
  cases x with
  | leaf => exact hx
  | group => rwa [joined]
  | marked => exact hx

theorem joinedAll_cons (hx : x.isStop) : joinedAll (x :: ys) = joined x :: joinedAll ys := by
  obtain ⟨_, _, _, rfl⟩ | ⟨token, rfl, hkind, htext⟩ := eq_of_isStop hx
  · simp [joinedAll]
  · have hat : token.isSymbol "@" = false := isSymbol_of_mem_stops htext (by decide)
    simp [joinedAll, joined, hat]

theorem joinedAll_append (hx : x.isStop) (ts : List Tree) :
    joinedAll (ts ++ x :: ys) = joinedAll ts ++ joined x :: joinedAll ys := by
  induction ts with
  | nil => exact joinedAll_cons hx
  | cons t ts ih =>
    cases t with
    | leaf t =>
      rw [List.cons_append, joinedAll, joinedAll, ih]
      split
      · exact joinMark_append (isStop_joined hx) t _
      · rfl
    | group => simp [joinedAll, ih]
    | marked => simp [joinedAll, ih]

end

end Tree

/-! ## Trees of balanced tokens -/

/-- The trees of some tokens, annotations put together. -/
def treesOf (ts : List Token) : List Tree := joinedAll (ofTokens ts)

/-- Whether a token is a symbol that ends whatever could go on in front of it. -/
def Token.isStop (t : Token) : Bool := (Tree.leaf t).isStop

theorem Token.isStop_of_symbol {t : Token} {s : String} (h : t.isSymbol s) (hs : s ∈ stops) :
    t.isStop :=
  Tree.isStop_of_symbol h hs

theorem Token.isStop_brackets {t : Token} (h : t.isStop) :
    Bracket.opening? t = none ∧ Bracket.closing? t = none := by
  have hsymbol : t.isSymbol ";" ∨ t.isSymbol "=" ∨ t.isSymbol "," := by
    simpa [Token.isStop, Tree.isStop, Tree.isGroup, Tree.isSymbol, Tree.stops] using h
  simp only [Token.isSymbol, Bool.and_eq_true, beq_iff_eq] at hsymbol
  unfold Bracket.opening? Bracket.closing?
  simp only [Token.isSymbol, Bool.and_eq_true, beq_iff_eq]
  rcases hsymbol with ⟨_, h⟩ | ⟨_, h⟩ | ⟨_, h⟩ <;> rw [h] <;> simp

theorem Balanced.stop {t : Token} {ts : List Token} (ht : t.isStop) (h : Balanced ts) :
    Balanced (t :: ts) :=
  .token (Token.isStop_brackets ht).1 (Token.isStop_brackets ht).2 h

theorem treesOf_stop {t : Token} {ts ts' : List Token} (hts : Balanced ts) (ht : t.isStop)
    (hts' : Balanced ts') : treesOf (ts ++ t :: ts') = treesOf ts ++ .leaf t :: treesOf ts' := by
  obtain ⟨hopening, hclosing⟩ := Token.isStop_brackets ht
  rw [treesOf, ofTokens_append hts (.stop ht hts'), ofTokens_cons hopening hclosing hts',
    joinedAll_append ht]
  rfl

theorem treesOf_body {opening closing : Token} {ts content ts' : List Token} (hts : Balanced ts)
    (hopening : Bracket.opening? opening = some .curly)
    (hclosing : Bracket.closing? closing = some .curly) (hcontent : Balanced content)
    (hts' : Balanced ts') :
    treesOf (ts ++ opening :: content ++ closing :: ts') =
      treesOf ts ++ .group .curly opening (treesOf content) (some closing) :: treesOf ts' := by
  rw [treesOf, List.append_assoc,
    ofTokens_append hts (.group hopening hclosing hcontent hts'),
    ofTokens_group hopening hclosing hcontent hts', joinedAll_append rfl, joined]
  rfl

end FaultTolerance.Java.Source
