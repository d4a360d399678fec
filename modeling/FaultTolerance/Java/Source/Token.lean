import FaultTolerance.Text.Affix
import FaultTolerance.Text.LineTable
import FaultTolerance.Text.Space

/-! The tokens of a Java source.

`lexemes` cuts a text into pieces and loses nothing of it. `tokens` keeps the pieces that carry
meaning, each with the white space and the comments in front of it, so that the text between any
two tokens is still there. -/
namespace FaultTolerance.Java.Source
open Text

inductive LexemeKind where
  | blank
  | comment
  /-- An identifier or a keyword. -/
  | word
  | number
  | string
  | char
  | symbol
  /-- The start of a string, a character or a comment that has no end. -/
  | unclosed
  deriving DecidableEq, Repr, Inhabited

/-- A piece of a source. -/
structure Lexeme where
  kind : LexemeKind
  text : String
  deriving DecidableEq, Repr, Inhabited

/-! ## Character classes -/

def isBlank (c : Char) : Bool := c = ' ' || ('\t' ≤ c && c ≤ '\r')

/-- Beyond ASCII every character is taken for part of a word. -/
def isWordStart (c : Char) : Bool := c.isAlpha || c = '_' || c = '$' || c.toNat ≥ 0x80

def isWordPart (c : Char) : Bool := isWordStart c || c.isDigit

/-! ## Cutting off one lexeme

Each function gets the text after the lexeme's first characters and splits off what belongs to
it. -/

/-- The rest of a comment that ends with `*/`. -/
def splitComment : List Char → Option (List Char × List Char)
  | '*' :: '/' :: cs => some (['*', '/'], cs)
  | c :: cs => (splitComment cs).map fun (a, b) => (c :: a, b)
  | [] => none

/-- The rest of a literal that ends with the character `quote`. A backslash protects the
character after it. -/
def splitQuoted (quote : Char) (sameLine : Bool) : List Char → Option (List Char × List Char)
  | '\\' :: c :: cs => (splitQuoted quote sameLine cs).map fun (a, b) => ('\\' :: c :: a, b)
  | c :: cs =>
    if c = quote then some ([c], cs)
    else if sameLine && c = '\n' then none
    else (splitQuoted quote sameLine cs).map fun (a, b) => (c :: a, b)
  | [] => none

/-- The rest of a text block. -/
def splitBlock : List Char → Option (List Char × List Char)
  | '\\' :: c :: cs => (splitBlock cs).map fun (a, b) => ('\\' :: c :: a, b)
  | '"' :: '"' :: '"' :: cs => some (['"', '"', '"'], cs)
  | c :: cs => (splitBlock cs).map fun (a, b) => (c :: a, b)
  | [] => none

/-- Whether a sign may follow `c` in a number: after the mark of an exponent. -/
def announcesSign (hexadecimal : Bool) (c : Char) : Bool :=
  c = 'p' || c = 'P' || (!hexadecimal && (c = 'e' || c = 'E'))

/-- The rest of a number. -/
def splitNumber (hexadecimal : Bool) : List Char → List Char × List Char
  | [] => ([], [])
  | [c] => if c.isAlphanum || c = '_' || c = '.' then ([c], []) else ([], [c])
  | c :: d :: cs =>
    if announcesSign hexadecimal c && (d = '+' || d = '-') then
      let (a, b) := splitNumber hexadecimal cs
      (c :: d :: a, b)
    else if c.isAlphanum || c = '_' || c = '.' then
      let (a, b) := splitNumber hexadecimal (d :: cs)
      (c :: a, b)
    else ([], c :: d :: cs)

/-- The symbols of several characters, longer ones before their prefixes. A closing angle bracket
is always a symbol of its own, as it may end a list of type arguments. -/
def longSymbols : List (List Char) :=
  ["...", "<<=", "->", "::", "++", "--", "&&", "||", "==", "!=", "<=", "+=", "-=", "*=", "/=",
    "&=", "|=", "^=", "%=", "<<"].map String.toList

/-- Splits off a symbol. -/
def splitSymbol (c : Char) (cs : List Char) : List Char × List Char :=
  match longSymbols.find? fun s => (stripStart? s (c :: cs)).isSome with
  | some s => (s, (c :: cs).drop s.length)
  | none => ([c], cs)

/-- Splits off the first lexeme of a text that begins with `c`. -/
def splitLexeme (c : Char) (cs : List Char) : LexemeKind × List Char × List Char :=
  if isBlank c then (.blank, c :: cs.takeWhile isBlank, cs.dropWhile isBlank)
  else if isWordStart c then (.word, c :: cs.takeWhile isWordPart, cs.dropWhile isWordPart)
  else if c.isDigit || (c = '.' && (cs.head?.any Char.isDigit)) then
    let hexadecimal := c = '0' && (cs.head? == some 'x' || cs.head? == some 'X')
    let (a, b) := splitNumber hexadecimal cs
    (.number, c :: a, b)
  else match c, cs with
    | '/', '/' :: cs =>
      (.comment, '/' :: '/' :: cs.takeWhile (· ≠ '\n'), cs.dropWhile (· ≠ '\n'))
    | '/', '*' :: rest =>
      match splitComment rest with
      | some (a, b) => (.comment, '/' :: '*' :: a, b)
      | none => (.unclosed, c :: cs, [])
    | '"', '"' :: '"' :: rest =>
      match splitBlock rest with
      | some (a, b) => (.string, '"' :: '"' :: '"' :: a, b)
      | none => (.unclosed, [c], cs)
    | '"', rest =>
      match splitQuoted '"' false rest with
      | some (a, b) => (.string, '"' :: a, b)
      | none => (.unclosed, [c], cs)
    | '\'', rest =>
      match splitQuoted '\'' true rest with
      | some (a, b) => (.char, '\'' :: a, b)
      | none => (.unclosed, [c], cs)
    | c, cs =>
      let (a, b) := splitSymbol c cs
      (.symbol, a, b)

/-- The lexemes of a text. The first argument bounds their number. -/
def lexemesWithin : Nat → List Char → List Lexeme
  | _, [] => []
  | 0, _ => []
  | n + 1, c :: cs =>
    let (kind, text, rest) := splitLexeme c cs
    ⟨kind, .ofList text⟩ :: lexemesWithin n rest

/-- The lexemes of a text. A byte order mark counts as white space. -/
def lexemes (cs : List Char) : List Lexeme :=
  match cs with
  | '\ufeff' :: rest => ⟨.blank, "\ufeff"⟩ :: lexemesWithin rest.length rest
  | cs => lexemesWithin cs.length cs

/-! ## Tokens -/

/-- A lexeme that carries meaning. -/
structure Token where
  kind : LexemeKind
  text : String
  /-- The white space and the comments in front of it. -/
  before : List Lexeme
  /-- The offset of its first byte. -/
  start : Nat
  deriving DecidableEq, Repr, Inhabited

/-- The offset after its last byte. -/
def Token.stop (t : Token) : Nat := t.start + t.text.utf8ByteSize

/-- The tokens among lexemes that begin at an offset, `before` being read already. -/
def tokensFrom (start : Nat) (before : List Lexeme) : List Lexeme → List Token
  | [] => []
  | l :: ls =>
    let next := start + l.text.utf8ByteSize
    match l.kind with
    | .blank => tokensFrom next (before ++ [l]) ls
    | .comment => tokensFrom next (before ++ [l]) ls
    | kind => ⟨kind, l.text, before, start⟩ :: tokensFrom next [] ls

/-- The tokens of a source. -/
def tokens (cs : List Char) : List Token := tokensFrom 0 [] (lexemes cs)

namespace Token

def isWord (t : Token) : Bool := t.kind == .word

/-- Whether the token is the keyword `w`. -/
def isKeyword (t : Token) (w : String) : Bool := t.kind == .word && t.text == w

def isSymbol (t : Token) (s : String) : Bool := t.kind == .symbol && t.text == s

/-- The text from the first of some tokens to the last, with all that stands between them. -/
def textOf : List Token → String
  | [] => ""
  | t :: ts => t.text ++ String.join (ts.map fun u => String.join (u.before.map (·.text)) ++ u.text)

/-- `textOf` without white space. -/
def compactText (ts : List Token) : String := .ofList (compact (textOf ts).toList)

end Token
end FaultTolerance.Java.Source
