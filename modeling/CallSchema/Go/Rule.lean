import CallSchema.Go.Syntax

/-!
Rules of a grammar and the trees they give.

* `Rule` is the language of rules: lexemes, sequence, ordered choice, repetition, nodes and roles.
  A grammar gives a rule for each of its names.
* `Rule.run` matches a rule at the beginning of a list of lexemes and gives the nodes it took and
  the rest; the first alternative that matches counts, and a repetition takes all it can.
* Comments may stand anywhere. A comment becomes a node before the lexeme it precedes, and a node
  never begins or ends with one: comments before the first lexeme of a node stay outside
  (`Rule.wrap`).
* Line ends count only where a rule asks for them: `terminator` is the end of the line or a
  semicolon, and `sameLine` matches, without taking anything, where the line goes on.
-/

namespace CallSchema.Go

/-- A rule of a grammar whose rules have names of sort `σ`. -/
inductive Rule (σ : Type) where
  | empty
  /-- The symbol or reserved word with the given text. -/
  | exact (text : String)
  /-- A word that is none of `reserved`, as a node of the given kind. -/
  | word (kind : Kind) (reserved : List String)
  /-- A literal, as a node of the given kind. -/
  | literal (sort : LexemeKind) (kind : Kind)
  /-- The end of a line, a semicolon or the end of the file. -/
  | terminator
  /-- A lexeme on the line on which the last one ended comes next. -/
  | sameLine
  /-- The rule matches here; nothing is taken. -/
  | ahead (rule : Rule σ)
  | seq (first second : Rule σ)
  /-- The first of the two that matches. -/
  | alt (first second : Rule σ)
  /-- As many matches as there are, one after another. The rule takes at least one lexeme. -/
  | many (rule : Rule σ)
  /-- What the rule takes, as one node. -/
  | node (kind : Kind) (rule : Rule σ)
  /-- What the rule takes, in the given role. -/
  | role (role : Role) (rule : Rule σ)
  /-- The rule of the given name. -/
  | call (name : σ)

/-- A place between two lexemes. -/
structure Cursor where
  /-- The line on which the lexeme before ends. -/
  line : Nat := 0
  /-- The lexemes that follow. -/
  rest : List Lexeme
deriving Inhabited

namespace Cursor

/-- The cursor behind a lexeme. -/
def behind (l : Lexeme) (rest : List Lexeme) : Cursor := { line := l.span.stop.line, rest }

/-- The node of a comment. -/
def commentNode (l : Lexeme) : Node := { kind := .comment, text := l.text, span := l.span }

/-- The comments that come next, the lexeme after them, and the rest. -/
def next? : List Lexeme → Option (List Node × Lexeme × List Lexeme)
  | [] => none
  | l :: rest =>
    if l.kind = .comment then
      (next? rest).map fun (comments, found) => (commentNode l :: comments, found)
    else some ([], l, rest)

/-- Whether the next lexeme that is no comment begins on the given line, or on the line on which
    the comments before it end. -/
def continuesOn (line : Nat) : List Lexeme → Bool
  | [] => false
  | l :: rest =>
    if l.span.start.line ≠ line then false
    else if l.kind = .comment then continuesOn l.span.stop.line rest
    else true

/-- The nodes of a terminator and the cursor behind it. Comments on the line come before it; the
    end of a line is no node. -/
def terminator? (line : Nat) : List Lexeme → Option (List Node × Cursor)
  | [] => some ([], { line, rest := [] })
  | l :: rest =>
    if l.span.start.line ≠ line then some ([], { line := l.span.start.line, rest := l :: rest })
    else if l.kind = .comment then
      (terminator? l.span.stop.line rest).map fun (nodes, c) => (commentNode l :: nodes, c)
    else if l.kind = .symbol ∧ (l.text = ";" ∨ l.text = "\x00") then
      some ([{ kind := .symbol l.text, text := l.text, span := l.span }], behind l rest)
    else none

/-- The next lexeme that is no comment as a leaf of the given kind, if it passes the test. -/
def take? (c : Cursor) (test : Lexeme → Bool) (kind : Lexeme → Kind) :
    Option (List Node × Cursor) := do
  let (comments, l, rest) ← next? c.rest
  if test l then
    return (comments ++ [{ kind := kind l, text := l.text, span := l.span }], behind l rest)
  else none

end Cursor

namespace Rule

variable {σ : Type}

/-! ## Rules built from others -/

/-- The rule or nothing. -/
def opt (rule : Rule σ) : Rule σ := .alt rule .empty

/-- The rules one after another. -/
def all : List (Rule σ) → Rule σ
  | [] => .empty
  | [rule] => rule
  | rule :: next :: rules => .seq rule (all (next :: rules))

/-- The first of the rules that matches. There is at least one. -/
def first (rule : Rule σ) : List (Rule σ) → Rule σ
  | [] => rule
  | next :: rules => .alt rule (first next rules)

/-- One or more, with the separator between neighbours. -/
def separated (separator rule : Rule σ) : Rule σ := .seq rule (.many (.seq separator rule))

/-! ## Matching -/

/-- One node for all the given ones, with the comments before the first other node outside. -/
def wrap (source : Array Char) (kind : Kind) (nodes : List Node) : List Node :=
  let comments := nodes.takeWhile Node.isComment
  match nodes.dropWhile Node.isComment with
  | [] => comments
  | inner@(first :: _) =>
    let stop := (inner.getLast?.getD first).span.stop
    let start := first.span.start
    comments ++ [{
      kind
      text := String.ofList (source.extract start.offset stop.offset).toList
      span := ⟨start, stop⟩
      children := inner }]

/-- Gives the role to the nodes that are no comments. -/
def giveRole (role : Role) (nodes : List Node) : List Node :=
  nodes.map fun n => if n.isComment then n else { n with role := some role }

/-- Matches a rule at a cursor. The number bounds the nesting of rules. -/
def run (source : Array Char) (grammar : σ → Rule σ) :
    Nat → Rule σ → Cursor → Option (List Node × Cursor)
  | 0, _, _ => none
  | _ + 1, .empty, c => some ([], c)
  | _ + 1, .exact text, c =>
    c.take? (fun l => (l.kind = .symbol ∨ l.kind = .word) ∧ l.text = text) fun _ => .symbol text
  | _ + 1, .word kind reserved, c =>
    c.take? (fun l => l.kind = .word ∧ !reserved.contains l.text) fun _ => kind
  | _ + 1, .literal sort kind, c => c.take? (·.kind = sort) fun _ => kind
  | _ + 1, .terminator, c => Cursor.terminator? c.line c.rest
  | _ + 1, .sameLine, c => if Cursor.continuesOn c.line c.rest then some ([], c) else none
  | fuel + 1, .ahead rule, c => (run source grammar fuel rule c).map fun _ => ([], c)
  | fuel + 1, .seq a b, c => do
    let (before, c) ← run source grammar fuel a c
    let (after, c) ← run source grammar fuel b c
    return (before ++ after, c)
  | fuel + 1, .alt a b, c => run source grammar fuel a c <|> run source grammar fuel b c
  | fuel + 1, .many rule, c =>
    match run source grammar fuel rule c with
    | none => some ([], c)
    | some (nodes, c) =>
      (run source grammar fuel (.many rule) c).map fun (more, c) => (nodes ++ more, c)
  | fuel + 1, .node kind rule, c =>
    (run source grammar fuel rule c).map fun (nodes, c) => (wrap source kind nodes, c)
  | fuel + 1, .role r rule, c =>
    (run source grammar fuel rule c).map fun (nodes, c) => (giveRole r nodes, c)
  | fuel + 1, .call name, c => run source grammar fuel (grammar name) c

/-- The children of the tree of a whole text: what the rule takes must be all of it, comments at
    the end apart. Between two lexemes no grammar here nests more than a few hundred rules. -/
def children? (source : List Char) (grammar : σ → Rule σ) (rule : Rule σ) :
    Option (List Node) := do
  let lexemes ← Lexeme.read? source
  let fuel := 4096 * (lexemes.length + 1)
  let (nodes, c) ← run source.toArray grammar fuel rule { rest := lexemes }
  if c.rest.all (·.kind = .comment) then return nodes ++ c.rest.map Cursor.commentNode else none

end Rule

end CallSchema.Go
