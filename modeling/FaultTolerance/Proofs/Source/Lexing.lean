import FaultTolerance.Proofs.Source.Outline
import FaultTolerance.Proofs.Text.Positions
import Mathlib.Data.List.Infix

/-! Where tokens stand. Cutting off a lexeme loses nothing (`cut_splitLexeme`), so the lexemes put
together are the text (`lexemesText_lexemes`), and a token stands in the text at the offset that it
gives (`between_of_mem_tokens`). A string token keeps its quotes (`isQuoted_of_mem_tokens`). -/
namespace FaultTolerance.Java.Source
open Text
set_option autoImplicit false

/-! ## One lexeme -/

/-- Whether a text is cut in two behind the end `mark` of its first part. -/
structure CutAfter (mark cs a b : List Char) : Prop where
  append : a ++ b = cs
  ends : mark <:+ a

theorem CutAfter.of_map {mark cs a b : List Char} {rest : Option (List Char × List Char)}
    (pre : List Char) (h : rest.map (fun (a, b) => (pre ++ a, b)) = some (a, b))
    (ih : ∀ {a' b'}, rest = some (a', b') → CutAfter mark cs a' b') :
    CutAfter mark (pre ++ cs) a b := by
  obtain ⟨⟨a', b'⟩, hrest, he⟩ := Option.map_eq_some_iff.mp h
  cases he
  have hcut := ih hrest
  exact ⟨by rw [List.append_assoc, hcut.append], hcut.ends.trans (List.suffix_append pre a')⟩

theorem cutAfter_splitComment {cs a b : List Char} (h : splitComment cs = some (a, b)) :
    CutAfter ['*', '/'] cs a b := by
  fun_induction splitComment cs generalizing a b with
  | case1 cs => cases h; exact ⟨rfl, List.suffix_refl _⟩
  | case2 c cs _ ih => exact .of_map [c] h ih
  | case3 => cases h

theorem cutAfter_splitQuoted {quote : Char} {sameLine : Bool} {cs a b : List Char}
    (h : splitQuoted quote sameLine cs = some (a, b)) : CutAfter [quote] cs a b := by
  fun_induction splitQuoted quote sameLine cs generalizing a b with
  | case1 c cs ih => exact .of_map ['\\', c] h ih
  | case2 => cases h; exact ⟨rfl, List.suffix_refl _⟩
  | case3 => cases h
  | case4 c cs _ _ _ ih => exact .of_map [c] h ih
  | case5 => cases h

theorem cutAfter_splitBlock {cs a b : List Char} (h : splitBlock cs = some (a, b)) :
    CutAfter ['"', '"', '"'] cs a b := by
  fun_induction splitBlock cs generalizing a b with
  | case1 c cs ih => exact .of_map ['\\', c] h ih
  | case2 cs => cases h; exact ⟨rfl, List.suffix_refl _⟩
  | case3 c cs _ _ ih => exact .of_map [c] h ih
  | case4 => cases h

theorem splitNumber_append (hexadecimal : Bool) (cs : List Char) :
    (splitNumber hexadecimal cs).1 ++ (splitNumber hexadecimal cs).2 = cs := by
  fun_induction splitNumber hexadecimal cs <;> simp_all

theorem splitSymbol_append (c : Char) (cs : List Char) :
    (splitSymbol c cs).1 ++ (splitSymbol c cs).2 = c :: cs := by
  unfold splitSymbol
  cases h : longSymbols.find? fun s => (stripStart? s (c :: cs)).isSome with
  | none => rfl
  | some s =>
    have hs := List.find?_some h
    obtain ⟨rest, hrest⟩ := Option.isSome_iff_exists.mp hs
    have he : c :: cs = s ++ rest := stripStart?_eq_some_iff.mp hrest
    simp only [he, List.drop_left]

theorem splitSymbol_ne_nil (c : Char) (cs : List Char) : (splitSymbol c cs).1 ≠ [] := by
  unfold splitSymbol
  cases h : longSymbols.find? fun s => (stripStart? s (c :: cs)).isSome with
  | none => exact List.cons_ne_nil c []
  | some s =>
    have hne : ∀ s ∈ longSymbols, s ≠ [] := by decide
    exact hne s (List.mem_of_find?_eq_some h)

/-! ## String literals -/

/-- Whether a text stands between two quotes. -/
def IsQuoted (raw : List Char) : Prop := ∃ body, raw = '"' :: body ++ ['"']

/-- Whether a string literal is a text block. -/
def isTextBlock (raw : List Char) : Bool := (stripStart? ['"', '"', '"'] raw).isSome

/-- The value of a literal that is no text block is all that stands between its quotes. -/
theorem eq_unquoted_of_not_textBlock {raw : List Char} (h : IsQuoted raw)
    (hblock : isTextBlock raw = false) : raw = '"' :: Setting.unquoted raw ++ ['"'] := by
  obtain ⟨body, rfl⟩ := h
  have hblock' : stripStart? ['"', '"', '"'] ('"' :: body ++ ['"']) = none := by
    simpa [isTextBlock] using hblock
  have hstart : stripStart? ['"'] ('"' :: body ++ ['"']) = some (body ++ ['"']) :=
    stripStart?_eq_some_iff.mpr rfl
  have hstop : stripEnd? ['"'] (body ++ ['"']) = some body := stripEnd?_eq_some_iff.mpr rfl
  have hunquoted : Setting.unquoted ('"' :: body ++ ['"']) = body := by
    simp only [Setting.unquoted, hblock', hstart, hstop, Option.bind_none, Option.bind_some,
      Option.getD_some]
  rw [hunquoted]

/-- What `splitLexeme` cuts off a text: something, nothing lost, and a string with its quotes. -/
structure Cut (cs : List Char) (result : LexemeKind × List Char × List Char) : Prop where
  append : result.2.1 ++ result.2.2 = cs
  ne_nil : result.2.1 ≠ []
  string : result.1 = .string → IsQuoted result.2.1

theorem cut_splitLexeme (c : Char) (cs : List Char) : Cut (c :: cs) (splitLexeme c cs) := by
  fun_cases splitLexeme c cs with
  | case1 => exact ⟨congrArg (c :: ·) List.takeWhile_append_dropWhile, List.cons_ne_nil _ _, nofun⟩
  | case2 => exact ⟨congrArg (c :: ·) List.takeWhile_append_dropWhile, List.cons_ne_nil _ _, nofun⟩
  | case3 c cs _ _ _ hexadecimal a b hsplit =>
    have happend := splitNumber_append hexadecimal cs
    rw [hsplit] at happend
    exact ⟨congrArg (c :: ·) happend, List.cons_ne_nil _ _, nofun⟩
  | case4 =>
    exact ⟨congrArg ('/' :: '/' :: ·) List.takeWhile_append_dropWhile, List.cons_ne_nil _ _, nofun⟩
  | case5 rest a b hsplit =>
    exact ⟨congrArg ('/' :: '*' :: ·) (cutAfter_splitComment hsplit).append, List.cons_ne_nil _ _, nofun⟩
  | case6 => exact ⟨List.append_nil _, List.cons_ne_nil _ _, nofun⟩
  | case7 rest a b hsplit =>
    obtain ⟨rfl, body, rfl⟩ := cutAfter_splitBlock hsplit
    refine ⟨rfl, List.cons_ne_nil _ _, fun _ => ⟨'"' :: '"' :: body ++ ['"', '"'], ?_⟩⟩
    simp only [List.cons_append, List.append_assoc, List.nil_append]
  | case8 => exact ⟨rfl, List.cons_ne_nil _ _, nofun⟩
  | case9 rest _ a b hsplit =>
    obtain ⟨rfl, body, rfl⟩ := cutAfter_splitQuoted hsplit
    exact ⟨rfl, List.cons_ne_nil _ _, fun _ => ⟨body, rfl⟩⟩
  | case10 => exact ⟨rfl, List.cons_ne_nil _ _, nofun⟩
  | case11 rest a b hsplit =>
    exact ⟨congrArg ('\'' :: ·) (cutAfter_splitQuoted hsplit).append, List.cons_ne_nil _ _, nofun⟩
  | case12 => exact ⟨rfl, List.cons_ne_nil _ _, nofun⟩
  | case13 _ _ _ _ _ _ _ a b hsplit =>
    have happend := splitSymbol_append c cs
    have hne := splitSymbol_ne_nil c cs
    rw [hsplit] at happend hne
    exact ⟨happend, hne, nofun⟩

/-! ## All lexemes -/

def lexemesText (ls : List Lexeme) : List Char := ls.flatMap (·.text.toList)

theorem lexemesText_cons (l : Lexeme) (ls : List Lexeme) :
    lexemesText (l :: ls) = l.text.toList ++ lexemesText ls := List.flatMap_cons

theorem lexemesText_append (ls ls' : List Lexeme) :
    lexemesText (ls ++ ls') = lexemesText ls ++ lexemesText ls' := List.flatMap_append

theorem lexemesText_lexemesWithin {n : Nat} {cs : List Char} (h : cs.length ≤ n) :
    lexemesText (lexemesWithin n cs) = cs := by
  induction n generalizing cs with
  | zero =>
    obtain rfl := List.length_eq_zero_iff.mp (Nat.le_zero.mp h)
    rfl
  | succ n ih =>
    cases cs with
    | nil => rfl
    | cons c cs =>
      have hcut := cut_splitLexeme c cs
      rw [lexemesWithin]
      generalize splitLexeme c cs = result at hcut
      obtain ⟨kind, text, rest⟩ := result
      have happend : text ++ rest = c :: cs := hcut.append
      have hrest : rest.length ≤ n := by
        have hlength := congrArg List.length happend
        have htext := List.length_pos_iff.mpr hcut.ne_nil
        simp only [List.length_append, List.length_cons] at hlength h htext
        omega
      rw [lexemesText_cons, String.toList_ofList, ih hrest, happend]

theorem lexemesText_lexemes (cs : List Char) : lexemesText (lexemes cs) = cs := by
  unfold lexemes
  split
  · rw [lexemesText_cons, lexemesText_lexemesWithin (Nat.le_refl _)]
    rfl
  · exact lexemesText_lexemesWithin (Nat.le_refl _)

/-- Every lexeme is cut off the front of a text. -/
theorem exists_split_of_mem_lexemesWithin {n : Nat} {cs : List Char} {l : Lexeme}
    (h : l ∈ lexemesWithin n cs) :
    ∃ c rest after, splitLexeme c rest = (l.kind, l.text.toList, after) := by
  fun_induction lexemesWithin n cs with
  | case1 => cases h
  | case2 => cases h
  | case3 n c cs kind text rest hsplit ih =>
    rcases List.mem_cons.mp h with rfl | h
    · refine ⟨c, cs, rest, ?_⟩
      rwa [String.toList_ofList]
    · exact ih h

theorem split_or_blank_of_mem_lexemes {cs : List Char} {l : Lexeme} (h : l ∈ lexemes cs) :
    l = ⟨.blank, "\ufeff"⟩ ∨ ∃ c rest after, splitLexeme c rest = (l.kind, l.text.toList, after) := by
  unfold lexemes at h
  split at h
  · exact (List.mem_cons.mp h).imp_right exists_split_of_mem_lexemesWithin
  · exact .inr (exists_split_of_mem_lexemesWithin h)

theorem exists_cut_of_mem_lexemes {cs : List Char} {l : Lexeme} (h : l ∈ lexemes cs) :
    ∃ text rest, Cut text (l.kind, l.text.toList, rest) := by
  rcases split_or_blank_of_mem_lexemes h with rfl | ⟨c, rest, after, hsplit⟩
  · exact ⟨_, [], rfl, List.cons_ne_nil _ _, nofun⟩
  · exact ⟨c :: rest, after, hsplit ▸ cut_splitLexeme c rest⟩

/-! ## Tokens -/

theorem mem_tokensFrom_cons {start : Nat} {before ls : List Lexeme} {l : Lexeme} {t : Token}
    (h : t ∈ tokensFrom start before (l :: ls)) :
    t = ⟨l.kind, l.text, before, start⟩ ∨
      ∃ before', t ∈ tokensFrom (start + l.text.utf8ByteSize) before' ls := by
  unfold tokensFrom at h
  split at h
  · exact .inr ⟨_, h⟩
  · exact .inr ⟨_, h⟩
  · rcases List.mem_cons.mp h with h | h
    · exact .inl h
    · exact .inr ⟨_, h⟩

theorem lexeme_of_mem_tokensFrom {start : Nat} {before ls : List Lexeme} {t : Token}
    (h : t ∈ tokensFrom start before ls) :
    ∃ ls₁ l ls₂, ls = ls₁ ++ l :: ls₂ ∧ t.kind = l.kind ∧ t.text = l.text ∧
      t.start = start + byteSize (lexemesText ls₁) := by
  induction ls generalizing start before with
  | nil => cases h
  | cons l ls ih =>
    rcases mem_tokensFrom_cons h with rfl | ⟨before', h⟩
    · exact ⟨[], l, ls, rfl, rfl, rfl, rfl⟩
    · obtain ⟨ls₁, l', ls₂, rfl, hkind, htext, hstart⟩ := ih h
      refine ⟨l :: ls₁, l', ls₂, rfl, hkind, htext, ?_⟩
      rw [hstart, lexemesText_cons, byteSize_append, byteSize_toList, Nat.add_assoc]

/-- Whether a text is `pre`, a token and `post`, and the token tells where it stands. -/
structure Token.Between (t : Token) (pre post cs : List Char) : Prop where
  text : cs = pre ++ t.text.toList ++ post
  start : t.start = byteSize pre

theorem between_of_mem_tokens {cs : List Char} {t : Token} (h : t ∈ tokens cs) :
    ∃ pre post, t.Between pre post cs := by
  obtain ⟨ls₁, l, ls₂, hls, _, htext, hstart⟩ := lexeme_of_mem_tokensFrom h
  refine ⟨lexemesText ls₁, lexemesText ls₂, ?_, hstart.trans (Nat.zero_add _)⟩
  rw [htext, List.append_assoc, ← lexemesText_cons, ← lexemesText_append, ← hls,
    lexemesText_lexemes]

theorem exists_cut_of_mem_tokens {cs : List Char} {t : Token} (h : t ∈ tokens cs) :
    ∃ text rest, Cut text (t.kind, t.text.toList, rest) := by
  obtain ⟨ls₁, l, ls₂, hls, hkind, htext, _⟩ := lexeme_of_mem_tokensFrom h
  have hl : l ∈ lexemes cs := hls ▸ List.mem_append_right ls₁ List.mem_cons_self
  rw [hkind, htext]
  exact exists_cut_of_mem_lexemes hl

theorem isQuoted_of_mem_tokens {cs : List Char} {t : Token} (h : t ∈ tokens cs)
    (hkind : t.kind = .string) : IsQuoted t.text.toList := by
  obtain ⟨_, _, hcut⟩ := exists_cut_of_mem_tokens h
  exact hcut.string hkind

theorem text_ne_empty_of_mem_tokens {cs : List Char} {t : Token} (h : t ∈ tokens cs) :
    t.text ≠ "" := by
  obtain ⟨_, _, hcut⟩ := exists_cut_of_mem_tokens h
  have hne : t.text.toList ≠ [] := hcut.ne_nil
  simpa using hne

namespace Token.Between
variable {t : Token} {pre post cs : List Char}

theorem stop (h : t.Between pre post cs) : t.stop = byteSize (pre ++ t.text.toList) := by
  rw [Token.stop, h.start, byteSize_append, byteSize_toList]

theorem not_insideTerminator_start (h : IsQuoted t.text.toList) :
    ¬InsideTerminator pre (t.text.toList ++ post) := by
  obtain ⟨body, hbody⟩ := h
  rintro ⟨_, hnext⟩
  rw [hbody] at hnext
  cases hnext

theorem not_insideTerminator_stop (h : IsQuoted t.text.toList) :
    ¬InsideTerminator (pre ++ t.text.toList) post := by
  obtain ⟨body, hbody⟩ := h
  rintro ⟨hlast, _⟩
  rw [hbody, ← List.append_assoc, List.getLast?_concat] at hlast
  cases hlast

/-- The range of a string token starts right before the token. -/
theorem split?_start (h : t.Between pre post cs) (hquoted : IsQuoted t.text.toList) :
    ((LineTable.ofText cs).range t.start t.stop).start.split? cs =
      some (pre, t.text.toList ++ post) := by
  rw [h.start, h.text, List.append_assoc]
  exact split?_position (not_insideTerminator_start hquoted)

/-- The range of a string token holds the token. -/
theorem slice?_eq (h : t.Between pre post cs) (hquoted : IsQuoted t.text.toList) :
    ((LineTable.ofText cs).range t.start t.stop).slice? cs = some t.text.toList := by
  rw [h.start, h.stop, h.text]
  exact slice?_range (not_insideTerminator_start hquoted) (not_insideTerminator_stop hquoted)

end Token.Between
end FaultTolerance.Java.Source
