import CallSchema.Go.Letter
import CallSchema.Go.Lexeme.Literal

/-!
The lexemes of Go source: words, literals, symbols and comments.

* `Lexeme.scan?` is the kind and the length of the lexeme at the current place; a comment comes
  before the symbol it begins with, and of the symbols the longest counts.
* `Lexeme.read?` cuts a whole text into lexemes, each with its place. It fails if some character
  begins no lexeme.
-/

namespace CallSchema.Go

/-- A place in a text: characters before it, and line feeds before it. -/
structure Place where
  offset : Nat := 0
  line : Nat := 0
deriving Repr, DecidableEq, Inhabited

/-- The place after a run of characters. -/
def Place.after (p : Place) (s : List Char) : Place :=
  { offset := p.offset + s.length, line := p.line + s.count '\n' }

/-- A part of a text. -/
structure Span where
  start : Place
  stop : Place
deriving Repr, DecidableEq, Inhabited

/-- The sorts of lexemes. -/
inductive LexemeKind where
  | comment
  /-- An identifier or a reserved word. -/
  | word
  | number
  | string
  | rune
  | symbol
deriving Repr, DecidableEq, Inhabited

/-- A lexeme with its place. -/
structure Lexeme where
  kind : LexemeKind
  text : String
  span : Span
deriving Repr, Inhabited

namespace Lexeme

/-- The characters that may stand between lexemes. -/
def isSpace (c : Char) : Bool := ['\t', '\n', '\x0b', '\x0c', '\r', ' '].contains c

/-- The symbols, the longer ones first. The last one ends a statement, as a semicolon does. -/
def symbols : List (List Char) :=
  ["<<=", ">>=", "&^=", "...",
   "&&", "||", "<-", "++", "--", "==", "!=", "<=", ">=", ":=", "+=", "-=", "*=", "/=", "%=", "&=",
   "|=", "^=", "<<", ">>", "&^",
   "+", "-", "*", "/", "%", "&", "|", "^", "<", ">", "=", "!", "(", ")", "[", "]", "\x7b", "\x7d",
   ",", ";", ".", ":", "~", "\x00"].map String.toList

/-- The length of the longest symbol that begins the text. -/
def symbolLength? (s : List Char) : Option Nat :=
  (symbols.find? (·.isPrefixOf s)).map List.length

/-- The length of the word that begins the text. -/
def wordLength? : List Char → Option Nat
  | c :: s => if isLetter c then some ((s.takeWhile isLetterOrDigit).length + 1) else none
  | [] => none

/-- The kind and length of the lexeme that begins the text. -/
def scan? (s : List Char) : Option (LexemeKind × Nat) :=
  (lineCommentLength? s).map (.comment, ·)
    <|> (blockCommentLength? s).map (.comment, ·)
    <|> (wordLength? s).map (.word, ·)
    <|> (numberLength? s).map (.number, ·)
    <|> (rawStringLength? s).map (.string, ·)
    <|> (stringLength? s).map (.string, ·)
    <|> (runeLength? s).map (.rune, ·)
    <|> (symbolLength? s).map (.symbol, ·)

/-- The lexemes of the text that begins at the given place. -/
def readFrom? (p : Place) (s : List Char) : Option (List Lexeme) :=
  match s with
  | [] => some []
  | c :: r =>
    if isSpace c then readFrom? (p.after [c]) r
    else match scan? (c :: r) with
      | some (kind, n + 1) =>
        let text := (c :: r).take (n + 1)
        let stop := p.after text
        (readFrom? stop (r.drop n)).map
          ({ kind, text := String.ofList text, span := ⟨p, stop⟩ } :: ·)
      | _ => none
termination_by s.length
decreasing_by all_goals simp only [List.length_cons, List.length_drop]; omega

/-- The lexemes of a text. A byte-order mark at its start is no part of any. -/
def read? : List Char → Option (List Lexeme)
  | '\uFEFF' :: s => readFrom? { offset := 1 } s
  | s => readFrom? {} s

end Lexeme

end CallSchema.Go
