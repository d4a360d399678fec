import FaultTolerance.Literal
import FaultTolerance.Proofs.Project.Building
import FaultTolerance.Proofs.Source.Lexing
import FaultTolerance.Proofs.Source.Meaning
import Mathlib.Data.List.DropRight

/-! What becomes of a string or a character that an annotation writes. The token of a character is two
apostrophes around a `LiteralBody` (`exists_body_of_mem_tokens`), and its value is the body less an
apostrophe at its end, which only an escaped one can be (`withoutApostrophes_escaped`). So a value
gives back the text of its token, unless it comes from a character that ends with an escaped apostrophe
(`SourceUnit.literals_unquoted`). -/
namespace FaultTolerance
namespace Java
namespace Source
open Text
set_option autoImplicit false

/-! ## Bodies of literals -/

/-- What may stand between two quotes: escapes, a backslash and the character that it protects, and
characters other than the quote and the backslash. -/
inductive LiteralBody (quote : Char) : List Char → Prop where
  | nil : LiteralBody quote []
  | escape (c : Char) {cs : List Char} (h : LiteralBody quote cs) : LiteralBody quote ('\\' :: c :: cs)
  | plain {c : Char} {cs : List Char} (hquote : c ≠ quote) (hslash : c ≠ '\\')
      (h : LiteralBody quote cs) : LiteralBody quote (c :: cs)

theorem exists_body_of_splitQuoted {quote : Char} {sameLine : Bool} {cs a b : List Char}
    (h : splitQuoted quote sameLine cs = some (a, b)) :
    ∃ body, a = body ++ [quote] ∧ LiteralBody quote body := by
  fun_induction splitQuoted quote sameLine cs generalizing a b with
  | case1 c cs ih =>
    obtain ⟨⟨a', b'⟩, hrest, he⟩ := Option.map_eq_some_iff.mp h
    cases he
    obtain ⟨body, rfl, hbody⟩ := ih hrest
    exact ⟨'\\' :: c :: body, rfl, hbody.escape c⟩
  | case2 =>
    cases h
    exact ⟨[], rfl, .nil⟩
  | case3 => cases h
  | case4 c cs hescape hquote _ ih =>
    obtain ⟨⟨a', b'⟩, hrest, he⟩ := Option.map_eq_some_iff.mp h
    cases he
    -- A backslash gets here only at the end of the text, where no quote follows.
    have hslash : c ≠ '\\' := by
      rintro rfl
      cases cs with
      | nil => cases hrest
      | cons d cs => exact hescape d cs rfl rfl
    obtain ⟨body, rfl, hbody⟩ := ih hrest
    exact ⟨c :: body, rfl, hbody.plain hquote hslash⟩
  | case5 => cases h

namespace LiteralBody
variable {quote : Char} {body : List Char}

theorem head?_ne (h : LiteralBody quote body) (hquote : quote ≠ '\\') : body.head? ≠ some quote := by
  cases h with
  | nil =>
    intro he
    cases he
  | escape c h => exact fun he => hquote (Option.some.inj he).symm
  | plain hc _ h => exact fun he => hc (Option.some.inj he)

/-- A quote at the end is an escaped one. -/
theorem exists_escape (h : LiteralBody quote body) (hquote : quote ≠ '\\')
    (hlast : body.getLast? = some quote) : ∃ front, body = front ++ ['\\', quote] := by
  induction h with
  | nil => cases hlast
  | @escape c cs h ih =>
    cases cs with
    | nil =>
      obtain rfl : c = quote := Option.some.inj hlast
      exact ⟨[], rfl⟩
    | cons d cs =>
      obtain ⟨front, hfront⟩ := ih hlast
      exact ⟨'\\' :: c :: front, congrArg ('\\' :: c :: ·) hfront⟩
  | @plain c cs hc hslash h ih =>
    cases cs with
    | nil => exact absurd (Option.some.inj hlast) hc
    | cons d cs =>
      obtain ⟨front, hfront⟩ := ih hlast
      exact ⟨c :: front, congrArg (c :: ·) hfront⟩

end LiteralBody

theorem exists_body_of_splitLexeme {c : Char} {cs raw rest : List Char}
    (h : splitLexeme c cs = (.char, raw, rest)) :
    ∃ body, raw = '\'' :: body ++ ['\''] ∧ LiteralBody '\'' body := by
  revert h
  fun_cases splitLexeme c cs with
  | case11 cs a b hsplit =>
    rintro ⟨⟩
    obtain ⟨body, rfl, hbody⟩ := exists_body_of_splitQuoted hsplit
    exact ⟨body, rfl, hbody⟩
  | case1 | case2 | case3 | case4 | case5 | case6 | case7 | case8 | case9 | case10 | case12 | case13 =>
    intro h
    cases h

theorem exists_body_of_mem_tokens {cs : List Char} {t : Token} (h : t ∈ tokens cs)
    (hkind : t.kind = .char) : ∃ body, t.text.toList = '\'' :: body ++ ['\''] ∧
      LiteralBody '\'' body := by
  obtain ⟨ls₁, l, ls₂, hls, hl, htext, _⟩ := lexeme_of_mem_tokensFrom h
  have hmem : l ∈ lexemes cs := hls ▸ List.mem_append_right ls₁ List.mem_cons_self
  rcases split_or_blank_of_mem_lexemes hmem with rfl | ⟨c, rest, after, hsplit⟩
  · cases hkind.symm.trans hl
  · rw [← hl, hkind, ← htext] at hsplit
    exact exists_body_of_splitLexeme hsplit

/-! ## Values of characters -/

theorem withoutApostrophes_eq_rdropWhile {body : List Char} (h : LiteralBody '\'' body) :
    Setting.withoutApostrophes ('\'' :: body ++ ['\'']) = body.rdropWhile (· = '\'') := by
  have hstart : ('\'' :: body ++ ['\'']).dropWhile (· = '\'') =
      if body = [] then [] else body ++ ['\''] := by
    cases body with
    | nil => rfl
    | cons c cs =>
      have hc : c ≠ '\'' := fun he => h.head?_ne (by decide) (congrArg some he)
      rw [if_neg (List.cons_ne_nil c cs), List.cons_append, List.dropWhile_cons_of_pos (by decide),
        List.cons_append, List.dropWhile_cons_of_neg (by simpa using hc)]
  unfold Setting.withoutApostrophes
  rw [hstart]
  split
  · rename_i hbody
    rw [hbody]
    rfl
  · exact List.rdropWhile_concat_pos _ _ _ (by decide)

theorem withoutApostrophes_eq_self {body : List Char} (h : LiteralBody '\'' body)
    (hlast : body.getLast? ≠ some '\'') :
    Setting.withoutApostrophes ('\'' :: body ++ ['\'']) = body := by
  rw [withoutApostrophes_eq_rdropWhile h, List.rdropWhile_eq_self_iff]
  intro hne he
  rw [List.getLast?_eq_some_getLast hne, of_decide_eq_true he] at hlast
  exact hlast rfl

theorem withoutApostrophes_escaped {front : List Char}
    (h : LiteralBody '\'' (front ++ ['\\', '\''])) :
    Setting.withoutApostrophes ('\'' :: (front ++ ['\\', '\'']) ++ ['\'']) = front ++ ['\\'] := by
  rw [withoutApostrophes_eq_rdropWhile h, List.append_cons, List.rdropWhile_concat_pos _ _ _ rfl,
    List.rdropWhile_concat_neg _ _ _ (by decide)]

/-- What a value keeps of a character literal: all between the apostrophes, or all but the apostrophe
that is escaped at the end, whose backslash stays. -/
inductive Kept : String → String → Prop where
  | whole {text : String} (h : text.toList.getLast? ≠ some '\'') : Kept ("'" ++ text ++ "'") text
  | cut (front : String) : Kept ("'" ++ front ++ "\\''") (front ++ "\\")

theorem kept_withoutApostrophes {t : Token} {body : List Char}
    (ht : t.text.toList = '\'' :: body ++ ['\'']) (h : LiteralBody '\'' body) :
    Kept t.text (.ofList (Setting.withoutApostrophes t.text.toList)) := by
  by_cases hlast : body.getLast? = some '\''
  · obtain ⟨front, rfl⟩ := h.exists_escape (by decide) hlast
    have htext : t.text = "'" ++ .ofList front ++ "\\''" := by
      rw [← String.toList_inj, ht]
      simp
    have hkept : String.ofList (front ++ ['\\']) = .ofList front ++ "\\" := by
      rw [← String.toList_inj]
      simp
    rw [ht, withoutApostrophes_escaped h, htext, hkept]
    exact .cut _
  · have htext : t.text = "'" ++ .ofList body ++ "'" := by
      rw [← String.toList_inj, ht]
      simp
    rw [ht, withoutApostrophes_eq_self h hlast, htext]
    exact .whole (by rwa [String.toList_ofList])

/-! ## Places in a value -/

/-- What stands at a place in a value: the item that the first number counts, the item of this that the
second number counts, and so on. -/
def ValueSyntax.at? : List Nat → ValueSyntax → Option ValueSyntax
  | [], v => some v
  | i :: path, .array _ items => items[i]?.bind (at? path)
  | _ :: _, .expression _ => none

end Source

def Value.at? : List Nat → Value → Option Value
  | [], v => some v
  | i :: path, .array items => items[i]?.bind (at? path)
  | _ :: _, _ => none

namespace Source

theorem Setting.values_eq_map (s : Setting) (vs : List ValueSyntax) : s.values vs = vs.map s.value := by
  induction vs with
  | nil => rfl
  | cons v vs ih => rw [values, ih, List.map_cons]

theorem Setting.value_at? (s : Setting) {path : List Nat} {v w : ValueSyntax}
    (h : v.at? path = some w) : (s.value v).at? path = some (s.value w) := by
  induction path generalizing v with
  | nil =>
    obtain rfl := Option.some.inj h
    rfl
  | cons i path ih =>
    cases v with
    | array group items =>
      obtain ⟨item, hitem, hw⟩ := Option.bind_eq_some_iff.mp h
      rw [value, Value.at?, values_eq_map, List.getElem?_map, hitem]
      exact ih hw
    | expression ts => cases h

theorem arrayOf?_of_mem_withArrays {ts : List Tree} {p : Tree × Option ValueSyntax}
    (h : p ∈ withArrays ts) : p.2 = arrayOf? p.1 := by
  induction ts with
  | nil => cases h
  | cons t ts ih =>
    rw [withArrays] at h
    rcases List.mem_cons.mp h with rfl | h
    · rfl
    · exact ih h

/-- An expression at a place in a value stands among the trees that the value is read from. -/
theorem tokensOf_infix_of_at?_valueOfPart {path : List Nat} {part : List (Tree × Option ValueSyntax)}
    {ts : List Tree} (hpart : ∀ p ∈ part, p.2 = arrayOf? p.1)
    (h : (valueOfPart part).at? path = some (.expression ts)) :
    Tree.tokensOf ts <:+: Tree.tokensOf (part.map Prod.fst) := by
  induction path generalizing part with
  | nil =>
    unfold valueOfPart at h
    split at h
    · rename_i t array
      have harray : some array = arrayOf? t := hpart _ List.mem_cons_self
      exact absurd (harray.symm.trans h) arrayOf?_ne_expression
    · obtain rfl := ValueSyntax.expression.inj (Option.some.inj h)
      exact List.infix_refl _
  | cons i path ih =>
    unfold valueOfPart at h
    split at h
    · rename_i t array
      have harray : some array = arrayOf? t := hpart _ List.mem_cons_self
      unfold arrayOf? at harray
      split at harray
      · rename_i opening content closing
        cases harray
        -- The place is in an item of the array, and the items are split off its content.
        obtain ⟨item, hitem, hts⟩ := Option.bind_eq_some_iff.mp h
        obtain ⟨inner, hinner, rfl⟩ := List.mem_map.mp (List.mem_of_getElem? hitem)
        have hsplit : inner <:+: withArrays content :=
          infix_of_mem_splitParts (List.mem_of_mem_filter hinner)
        have hcontent : inner.map Prod.fst <:+: content := by
          rw [← map_fst_withArrays content]
          exact hsplit.map Prod.fst
        calc Tree.tokensOf ts
            <:+: Tree.tokensOf (inner.map Prod.fst) :=
              ih (fun p hp => arrayOf?_of_mem_withArrays (hsplit.subset hp)) hts
          _ <:+: Tree.tokensOf content := Tree.tokensOf_infix hcontent
          _ <:+: (Tree.group .curly opening content closing).tokens :=
            ⟨[opening], closing.toList, rfl⟩
          _ = Tree.tokensOf [Tree.group .curly opening content closing] :=
            (Tree.tokensOf_singleton _).symm
      · cases harray
    · cases h

theorem tokensOf_infix_of_at?_valueOf {path : List Nat} {ts ts' : List Tree}
    (h : (valueOf ts).at? path = some (.expression ts')) : Tree.tokensOf ts' <:+: Tree.tokensOf ts := by
  have hvalue := tokensOf_infix_of_at?_valueOfPart (fun _ => arrayOf?_of_mem_withArrays) h
  rwa [map_fst_withArrays] at hvalue

theorem tokensOf_infix_of_at?_argumentOf {path : List Nat} {part ts : List Tree}
    (h : (argumentOf part).value.at? path = some (.expression ts)) :
    Tree.tokensOf ts <:+: Tree.tokensOf part := by
  revert h
  fun_cases argumentOf part with
  | case1 key eq rest =>
    intro h
    have hrest : rest <:+ .leaf key :: eq :: rest := List.suffix_append [Tree.leaf key, eq] rest
    exact (tokensOf_infix_of_at?_valueOf h).trans (Tree.tokensOf_infix hrest.isInfix)
  | case2 | case3 =>
    intro h
    exact tokensOf_infix_of_at?_valueOf h

/-- What stands at a place in an argument of an annotation. -/
def AnnotationSyntax.at? (x : AnnotationSyntax) (i : Nat) (path : List Nat) : Option ValueSyntax :=
  x.arguments[i]?.bind (·.value.at? path)

end Source

/-- The value at a place in a member of an annotation. -/
def Annotation.at? (a : Annotation) (i : Nat) (path : List Nat) : Option Value :=
  a.members[i]?.bind (·.value.at? path)

namespace Source

theorem Setting.annotation_at? (s : Setting) {x : AnnotationSyntax} {i : Nat} {path : List Nat}
    {v : ValueSyntax} (h : x.at? i path = some v) :
    (s.annotation x).at? i path = some (s.value v) := by
  obtain ⟨a, ha, hv⟩ := Option.bind_eq_some_iff.mp h
  unfold Annotation.at? annotation
  rw [List.getElem?_map, ha]
  exact s.value_at? hv

/-- A token at a place in an annotation is a token of what the annotation is written in. -/
theorem AnnotationSyntax.WrittenIn.mem_of_at? {x : AnnotationSyntax} {ts : List Token} {i : Nat}
    {path : List Nat} {t : Token} (hx : x.WrittenIn ts)
    (h : x.at? i path = some (.expression [.leaf t])) : t ∈ ts := by
  obtain ⟨a, ha, hv⟩ := Option.bind_eq_some_iff.mp h
  obtain ⟨part, rfl, hpart⟩ := hx.exists_part (List.mem_of_getElem? ha)
  have hinfix : [t] <:+: ts := (tokensOf_infix_of_at?_argumentOf hv).trans hpart
  exact hinfix.subset List.mem_cons_self

/-- The token that a value is, if it is a single one. -/
def ValueSyntax.token? : ValueSyntax → Option Token
  | .expression [.leaf t] => some t
  | _ => none

theorem ValueSyntax.eq_of_token? {v : ValueSyntax} {t : Token} (h : v.token? = some t) :
    v = .expression [.leaf t] := by
  revert h
  fun_cases token? v with
  | case1 =>
    rintro ⟨⟩
    rfl
  | case2 =>
    intro h
    cases h

theorem Setting.value_string (s : Setting) {t : Token} (hkind : t.kind = .string) :
    s.value (.expression [.leaf t]) = .string (.ofList (unquoted t.text.toList)) := by
  rw [value, expression, formOf, formOfTree, hkind]

theorem Setting.value_char (s : Setting) {t : Token} (hkind : t.kind = .char) :
    s.value (.expression [.leaf t]) = .char (.ofList (withoutApostrophes t.text.toList)) := by
  rw [value, expression, formOf, formOfTree, hkind]

end Source
end Java

/-! ## The literals of a source -/

open Java Source

/-- A literal that an annotation writes, as the value of a member or in an array, stands in the source,
and a type of the source has the annotation with a value for the literal. The value of a string that is
no text block is the text between its quotes. The value of a character is the text between its
apostrophes, without an escaped apostrophe at the end. Both are rendered as they are. -/
theorem SourceUnit.literals_unquoted (u : SourceUnit) (known : List String) {x : AnnotationSyntax}
    (hx : x ∈ u.outline.allAnnotations) {i : Nat} {path : List Nat} {t : Token}
    (ht : (x.at? i path).bind ValueSyntax.token? = some t) :
    (∃ pre post, t.Between pre post u.text.toList) ∧
      ∃ T ∈ u.types known, ∃ a ∈ T.allAnnotations, a = Setting.annotation (u.setting known) x ∧
        (t.kind = .string → isTextBlock t.text.toList = false → ∃ text,
          a.at? i path = some (.string text) ∧ Literal.ofValue (.string text) = text ∧
            t.text = "\"" ++ text ++ "\"") ∧
        (t.kind = .char → ∃ text,
          a.at? i path = some (.char text) ∧ Literal.ofValue (.char text) = text ∧
            Kept t.text text) := by
  obtain ⟨v, hv, htoken⟩ := Option.bind_eq_some_iff.mp ht
  obtain rfl := ValueSyntax.eq_of_token? htoken
  have hwritten : x.WrittenIn (tokens u.text.toList) := writtenIn_of_mem_outline hx
  have hmem : t ∈ tokens u.text.toList := hwritten.mem_of_at? hv
  have hvalue := (u.setting known).annotation_at? hv
  have htype : ∃ T ∈ u.types known, Setting.annotation (u.setting known) x ∈ T.allAnnotations := by
    rw [u.types_eq_toTypes, u.setting_eq]
    exact exists_type_of_mem_outline hx
  obtain ⟨T, hT, ha⟩ := htype
  refine ⟨between_of_mem_tokens hmem, T, hT, _, ha, rfl, ?_, ?_⟩
  · intro hkind hblock
    rw [Setting.value_string _ hkind] at hvalue
    refine ⟨_, hvalue, rfl, ?_⟩
    have hquoted := eq_unquoted_of_not_textBlock (isQuoted_of_mem_tokens hmem hkind) hblock
    rw [← String.toList_inj]
    simpa using hquoted
  · intro hkind
    rw [Setting.value_char _ hkind] at hvalue
    obtain ⟨body, hbody, hliteral⟩ := exists_body_of_mem_tokens hmem hkind
    exact ⟨_, hvalue, rfl, kept_withoutApostrophes hbody hliteral⟩

/-- An annotation with an array of two quotes, both escaped. -/
def quotesUnit : SourceUnit where
  uri := "file:///Quotes.java"
  text := "@Marks(\x7b\"\\\"\", '\\''\x7d) class Quotes \x7b\x7d"

/-- The string keeps its escaped quote, of the character only the backslash is left. -/
theorem SourceUnit.literals_unquoted_quotes :
    ∃ x ∈ quotesUnit.outline.allAnnotations, ∃ string char : Token,
      (x.at? 0 [0]).bind ValueSyntax.token? = some string ∧ string.text = "\"\\\"\"" ∧
      (x.at? 0 [1]).bind ValueSyntax.token? = some char ∧ char.text = "'\\''" ∧
      ∃ T ∈ quotesUnit.types [], ∃ a ∈ T.allAnnotations,
        a.at? 0 [0] = some (.string "\\\"") ∧ a.at? 0 [1] = some (.char "\\") := by
  have hread : quotesUnit.outline.allAnnotations.map (fun x =>
      let a := Setting.annotation (quotesUnit.setting []) x
      ((x.at? 0 [0]).bind ValueSyntax.token?, (x.at? 0 [1]).bind ValueSyntax.token?,
        (a.at? 0 [0]).map Literal.ofValue, (a.at? 0 [1]).map Literal.ofValue)) =
        [(some ⟨.string, "\"\\\"\"", [], 8⟩, some ⟨.char, "'\\''", [⟨.blank, " "⟩], 14⟩,
          some "\\\"", some "\\")] := by
    decide +kernel
  obtain ⟨x, hx, hplaces⟩ := List.mem_map.mp (hread ▸ List.mem_singleton_self _)
  simp only [Prod.mk.injEq] at hplaces
  obtain ⟨hstring, hchar, hstringText, hcharText⟩ := hplaces
  obtain ⟨-, T, hT, a, ha, rfl, hunquoted, -⟩ :=
    SourceUnit.literals_unquoted quotesUnit [] hx hstring
  obtain ⟨-, _, -, _, -, rfl, -, hkept⟩ := SourceUnit.literals_unquoted quotesUnit [] hx hchar
  obtain ⟨text, hvalue, hrendered, -⟩ := hunquoted rfl (by decide)
  obtain ⟨charText, hcharValue, hcharRendered, -⟩ := hkept rfl
  rw [hvalue, Option.map_some, hrendered] at hstringText
  rw [hcharValue, Option.map_some, hcharRendered] at hcharText
  obtain rfl := Option.some.inj hstringText
  obtain rfl := Option.some.inj hcharText
  exact ⟨x, hx, _, _, hstring, rfl, hchar, rfl, T, hT, _, ha, hvalue, hcharValue⟩

end FaultTolerance
