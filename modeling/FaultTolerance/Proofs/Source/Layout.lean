import FaultTolerance.Proofs.Source.Forgetting.Outline

/-! The layout of a source: how much white space stands between its tokens, and inside its comments. It is
one of the things that may be forgotten of tokens (`layout`), and the tokens without it are those of the
lexemes that are left over when white space goes (`map_layout_tokens`). -/
namespace FaultTolerance.Java.Source
open Text
set_option autoImplicit false

/-! ## Texts without white space -/

@[simp] theorem compacted_compacted (s : String) : compacted (compacted s) = compacted s := by
  simp [compacted, compact_compact]

theorem compacted_join (texts : List String) :
    compacted (String.join texts) = String.join (texts.map compacted) := by
  induction texts with
  | nil => rfl
  | cons s texts ih => rw [String.join_cons, compacted_append, ih, List.map_cons, String.join_cons]

/-! ## Lexemes -/

/-- What is left of a lexeme without white space. Of a blank that is nothing, unless it is a byte order
mark; in a comment all but the white space stays. -/
def Lexeme.essence? (l : Lexeme) : Option Lexeme :=
  match l.kind with
  | .blank => if compacted l.text = "" then none else some ⟨.blank, compacted l.text⟩
  | .comment => some ⟨.comment, compacted l.text⟩
  | _ => some l

/-- The lexemes of a text without white space. -/
def essence (text : String) : List Lexeme := (lexemes text.toList).filterMap Lexeme.essence?

namespace Lexeme
variable {l l' : Lexeme}

theorem of_essence?_eq_none (h : l.essence? = none) : l.kind = .blank ∧ compacted l.text = "" := by
  unfold essence? at h
  split at h
  · rename_i hkind
    split_ifs at h with hempty
    exact ⟨hkind, hempty⟩
  · cases h
  · cases h

theorem kind_of_essence? (h : l.essence? = some l') : l'.kind = l.kind := by
  unfold essence? at h
  split at h
  · split_ifs at h
    cases h
    exact Eq.symm ‹_›
  · cases h
    exact Eq.symm ‹_›
  · cases h
    rfl

theorem compacted_of_essence? (h : l.essence? = some l') : compacted l'.text = compacted l.text := by
  unfold essence? at h
  split at h
  · split_ifs at h
    cases h
    exact compacted_compacted _
  · cases h
    exact compacted_compacted _
  · cases h
    rfl

theorem text_of_essence? (h : l.essence? = some l') (hkind : l.kind = .comment) :
    l'.text = compacted l.text := by
  unfold essence? at h
  rw [hkind] at h
  cases h
  rfl

theorem eq_of_essence? (h : l.essence? = some l') (hblank : l.kind ≠ .blank)
    (hcomment : l.kind ≠ .comment) : l' = l := by
  unfold essence? at h
  split at h
  · exact absurd ‹_› hblank
  · exact absurd ‹_› hcomment
  · cases h
    rfl

theorem essence?_of_essence? (h : l.essence? = some l') : l'.essence? = some l' := by
  unfold essence? at h
  split at h
  · split_ifs at h with hempty
    cases h
    simp [essence?, hempty]
  · cases h
    simp [essence?]
  · cases h
    simp_all [essence?]

theorem bind_essence? (l : Lexeme) : l.essence?.bind essence? = l.essence? := by
  cases h : l.essence? with
  | none => rfl
  | some l' => exact essence?_of_essence? h

end Lexeme

theorem filterMap_essence?_filterMap (before : List Lexeme) :
    (before.filterMap Lexeme.essence?).filterMap Lexeme.essence? =
      before.filterMap Lexeme.essence? := by
  rw [List.filterMap_filterMap]
  simp only [Lexeme.bind_essence?]

theorem compacted_join_essence (before : List Lexeme) :
    compacted (String.join ((before.filterMap Lexeme.essence?).map (·.text))) =
      compacted (String.join (before.map (·.text))) := by
  induction before with
  | nil => rfl
  | cons l before ih =>
    rw [List.map_cons, String.join_cons, compacted_append, ← ih]
    cases h : l.essence? with
    | none =>
      rw [List.filterMap_cons_none h, (Lexeme.of_essence?_eq_none h).2, String.empty_append]
    | some l' =>
      rw [List.filterMap_cons_some h, List.map_cons, String.join_cons, compacted_append,
        Lexeme.compacted_of_essence? h]

/-! ## Tokens -/

/-- The token without a place, and without the white space in front of it. -/
def Token.closed (t : Token) : Token :=
  { t with before := t.before.filterMap Lexeme.essence?, start := 0 }

theorem Token.followsBlank_closed (t : Token) : t.closed.followsBlank = t.followsBlank := by
  unfold followsBlank closed
  induction t.before with
  | nil => rfl
  | cons l before ih =>
    rw [List.all_cons, ← ih]
    cases h : l.essence? with
    | none => rw [List.filterMap_cons_none h, (Lexeme.of_essence?_eq_none h).1]; rfl
    | some l' => rw [List.filterMap_cons_some h, List.all_cons, Lexeme.kind_of_essence? h]

theorem commentBefore_closed (t : Token) :
    commentBefore t.closed = (commentBefore t).map compacted := by
  unfold commentBefore Token.closed
  induction t.before with
  | nil => rfl
  | cons l before ih =>
    cases h : l.essence? with
    | none =>
      have hblank := (Lexeme.of_essence?_eq_none h).1
      rw [List.filterMap_cons_none h, ih, List.find?_cons_of_neg (by simp [hblank])]
    | some l' =>
      have hkind := Lexeme.kind_of_essence? h
      rw [List.filterMap_cons_some h]
      by_cases hcomment : l.kind = .comment
      · rw [List.find?_cons_of_pos (by simp [hkind, hcomment]),
          List.find?_cons_of_pos (by simp [hcomment])]
        exact congrArg some (Lexeme.text_of_essence? h hcomment)
      · rw [List.find?_cons_of_neg (by simp [hkind, hcomment]), ih,
          List.find?_cons_of_neg (by simp [hcomment])]

theorem Token.compacted_textOf_closed (ts : List Token) :
    compacted (textOf (ts.map closed)) = compacted (textOf ts) := by
  cases ts with
  | nil => rfl
  | cons t ts =>
    rw [List.map_cons, textOf, textOf, compacted_append, compacted_append, compacted_join,
      compacted_join, List.map_map, List.map_map, List.map_map]
    congr 2
    apply List.map_congr_left
    intro u _
    simp only [Function.comp_def, compacted_append, closed, compacted_join_essence]

/-- The layout of a source, which may be forgotten of its tokens. Of a text kept as written only the white
space goes. -/
def layout : Forgetting where
  token := Token.closed
  text := compacted
  kind_token _ := rfl
  text_token _ := rfl
  token_token t := by rw [Token.closed, Token.closed, filterMap_essence?_filterMap]
  text_text := compacted_compacted
  followsBlank_token := Token.followsBlank_closed
  commentBefore_token := commentBefore_closed
  text_textOf := Token.compacted_textOf_closed
  compacted_text := compacted_compacted

/-! ## The tokens of a source -/

theorem filterMap_concat (before : List Lexeme) (l : Lexeme) :
    (before ++ [l]).filterMap Lexeme.essence? =
      before.filterMap Lexeme.essence? ++ l.essence?.toList := by
  rw [List.filterMap_append]
  cases h : l.essence? <;> simp [h]

theorem tokensFrom_blank {l : Lexeme} (start : Nat) (before ls : List Lexeme)
    (h : l.kind = .blank ∨ l.kind = .comment) :
    tokensFrom start before (l :: ls) =
      tokensFrom (start + l.text.utf8ByteSize) (before ++ [l]) ls := by
  rw [tokensFrom]
  rcases h with h | h <;> rw [h]

theorem tokensFrom_token {l : Lexeme} (start : Nat) (before ls : List Lexeme)
    (hblank : l.kind ≠ .blank) (hcomment : l.kind ≠ .comment) :
    tokensFrom start before (l :: ls) =
      ⟨l.kind, l.text, before, start⟩ :: tokensFrom (start + l.text.utf8ByteSize) [] ls := by
  rw [tokensFrom]
  split
  · exact absurd ‹_› hblank
  · exact absurd ‹_› hcomment
  · rfl

/-- The tokens of some lexemes, without their layout, are those of the lexemes without white space. -/
theorem map_layout_tokensFrom (start start' : Nat) {before before' : List Lexeme}
    (hbefore : before.filterMap Lexeme.essence? = before'.filterMap Lexeme.essence?)
    (ls : List Lexeme) :
    (tokensFrom start before ls).map layout.token =
      (tokensFrom start' before' (ls.filterMap Lexeme.essence?)).map layout.token := by
  -- a blank may go or stay, so what has been read so far is the same up to white space only
  induction ls generalizing start start' before before' with
  | nil => rfl
  | cons l ls ih =>
    cases h : l.essence? with
    | none =>
      have hblank := (Lexeme.of_essence?_eq_none h).1
      have hread : (before ++ [l]).filterMap Lexeme.essence? =
          before'.filterMap Lexeme.essence? := by
        rw [filterMap_concat, h, Option.toList_none, List.append_nil, hbefore]
      rw [tokensFrom_blank _ _ _ (.inl hblank), List.filterMap_cons_none h]
      exact ih _ _ hread
    | some l' =>
      have hkind := Lexeme.kind_of_essence? h
      rw [List.filterMap_cons_some h]
      by_cases hlayout : l.kind = .blank ∨ l.kind = .comment
      · have hread : (before ++ [l]).filterMap Lexeme.essence? =
            (before' ++ [l']).filterMap Lexeme.essence? := by
          rw [filterMap_concat, filterMap_concat, h, Lexeme.essence?_of_essence? h, hbefore]
        rw [tokensFrom_blank _ _ _ hlayout, tokensFrom_blank _ _ _ (hkind ▸ hlayout)]
        exact ih _ _ hread
      · obtain ⟨hblank, hcomment⟩ := not_or.mp hlayout
        obtain rfl := Lexeme.eq_of_essence? h hblank hcomment
        rw [tokensFrom_token _ _ _ hblank hcomment, tokensFrom_token _ _ _ hblank hcomment,
          List.map_cons, List.map_cons, ih _ _ rfl]
        congr 1
        simp only [layout, Token.closed, hbefore]

/-- Texts with the same lexemes apart from white space have the same tokens apart from their layout. -/
theorem map_layout_tokens {text text' : String} (h : essence text = essence text') :
    (tokens text.toList).map layout.token = (tokens text'.toList).map layout.token := by
  unfold tokens
  rw [map_layout_tokensFrom 0 0 rfl, map_layout_tokensFrom 0 0 rfl (lexemes text'.toList)]
  exact congrArg (fun ls => (tokensFrom 0 [] ls).map layout.token) h

end FaultTolerance.Java.Source
