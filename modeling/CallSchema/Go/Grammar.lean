import CallSchema.Go.Rule

/-!
The grammar of Go source files.

* `Phrase.rule` gives the rule of each kind of phrase; `sourceFile?` is the tree of a whole file,
  and `parse` gives a tree for other texts as well.
* Declarations and types get trees in full. Statements and expressions are recognised, so that a
  file with a broken function body is refused, but their trees keep little structure.
* A file may hold statements beside declarations, in any order, and needs no package clause.
* A line end is white space unless something that needs a terminator may end there; `Context.line`
  says so for the inside of statements.
-/

namespace CallSchema.Go

/-! ## Words -/

/-- The reserved words that begin a type, and `type` itself. -/
def typeWords : List String := ["struct", "interface", "map", "chan", "func", "type"]

/-- All reserved words. -/
def reservedWords : List String :=
  typeWords ++ ["break", "case", "const", "continue", "default", "defer", "else", "fallthrough",
    "for", "go", "goto", "if", "import", "package", "range", "return", "select", "switch", "var"]

/-- Operators that stand before their operand. -/
def unaryOperators : List String := ["-", "!", "^", "*", "&", "<-"]

/-- Operators between two operands. -/
def binaryOperators : List String :=
  ["*", "/", "%", "<<", ">>", "&", "&^", "-", "|", "^", "==", "!=", "<", "<=", ">", ">=", "&&",
    "||"]

/-- Operators of an assignment. -/
def assignmentOperators : List String :=
  ["=", "+=", "-=", "*=", "/=", "%=", "&=", "|=", "^=", "<<=", ">>=", "&^="]

/-- Where an expression stands. -/
structure Context where
  /-- A line end after the expression ends the statement. -/
  line : Bool
  /-- A brace after a type name begins a composite literal. -/
  braces : Bool
  /-- A type may stand for an operand. -/
  types : Bool
deriving Repr, DecidableEq

/-- In a statement. -/
def Context.statement : Context := ⟨true, true, false⟩

/-- Between the first word of a statement and its block. -/
def Context.header : Context := ⟨false, false, false⟩

/-- Between brackets of any kind. -/
def Context.inner : Context := ⟨false, true, false⟩

/-- Between brackets where a type can stand as well: an argument. -/
def Context.argument : Context := ⟨false, true, true⟩

/-- The phrases that rules refer to. Where a type may be the last thing before a line end that
    counts, its flag is set. -/
inductive Phrase where
  | type (line : Bool)
  | simpleType (line : Bool)
  | typeElem (line : Bool)
  | typeArguments
  | structType
  | interfaceType
  | parameterList
  | expression (c : Context)
  | expressions (c : Context)
  | literalValue
  | simpleStatement (c : Context)
  | statement
  | statements
  | block
  | typeDeclaration
  | ifStatement
deriving Repr, DecidableEq

namespace Phrase

open Rule

/-! ## Building blocks -/

/-- The next lexeme is on the same line, where line ends count. -/
def sameLineIf (line : Bool) : Rule Phrase := if line then .sameLine else .empty

/-- One of several symbols. -/
def oneOf (symbol : String) (symbols : List String) : Rule Phrase :=
  first (.exact symbol) (symbols.map .exact)

/-- One or more with commas between them. -/
def commas (rule : Rule Phrase) : Rule Phrase := separated (.exact ",") rule

/-- A bracketed list that may be empty or end with a comma. -/
def list (opening : String) (rule : Rule Phrase) (closing : String) : Rule Phrase :=
  all [.exact opening, opt (commas rule), opt (.exact ","), .exact closing]

/-- Items between brackets, each but the last ended by a terminator. -/
def group (opening : String) (item : Rule Phrase) (closing : String) : Rule Phrase :=
  all [.exact opening, opt (all [item, .many (.seq .terminator item), opt .terminator]),
    .exact closing]

/-- One item, or a group of them in parentheses. -/
def grouped (item : Rule Phrase) : Rule Phrase := .alt (group "(" item ")") item

/-- A name that is no reserved word. -/
def identifier : Rule Phrase := .word .identifier reservedWords

/-- The name that a declaration gives, in a place where only a name can stand. -/
def declared (kind : Kind) : Rule Phrase := .role .name (.word kind [])

/-- The name of a parameter, in a place where a type can stand as well. -/
def parameterName : Rule Phrase := .role .name (.word .identifier typeWords)

def string : Rule Phrase := .literal .string .stringLiteral

/-! ## Types -/

/-- The name of a type, with its package or without. -/
def typeName (reserved : List String) (line : Bool) : Rule Phrase :=
  .alt
    (.node .qualifiedType (all [.role .package (.word .packageIdentifier reserved),
      sameLineIf line, .exact ".", .role .name (.word .typeIdentifier [])]))
    (.word .typeIdentifier reserved)

/-- The name of a type with its type arguments, if it has any. -/
def namedType (reserved : List String) (line : Bool) : Rule Phrase :=
  .alt
    (.node .genericType (all [.role .type (typeName reserved line), sameLineIf line,
      .role .typeArguments (.call .typeArguments)]))
    (typeName reserved line)

def elementType (line : Bool) : Rule Phrase := .role .element (.call (.type line))

def sliceType (line : Bool) : Rule Phrase :=
  .node .sliceType (all [.exact "[", .exact "]", elementType line])

def arrayType (line : Bool) : Rule Phrase :=
  .node .arrayType (all [.exact "[", .call (.expression .inner), .exact "]", elementType line])

/-- An array type whose length a composite literal gives. -/
def implicitLengthArrayType (line : Bool) : Rule Phrase :=
  .node .implicitLengthArrayType (all [.exact "[", .exact "...", .exact "]", elementType line])

def mapType (line : Bool) : Rule Phrase :=
  .node .mapType (all [.exact "map", .exact "[", .role .key (.call (.type false)), .exact "]",
    .role .value (.call (.type line))])

def channelType (line : Bool) : Rule Phrase :=
  .node .channelType (.seq
    (.alt (.seq (.exact "<-") (.exact "chan")) (.seq (.exact "chan") (opt (.exact "<-"))))
    (.role .value (.call (.type line))))

/-- The result of a function: one type, or a parameter list. -/
def result (line : Bool) : Rule Phrase :=
  .seq (sameLineIf line) (.alt (.call .parameterList) (.call (.simpleType line)))

def functionType (line : Bool) : Rule Phrase :=
  .node .functionType (all [.exact "func", .call .parameterList, opt (result line)])

def simpleTypeRule (line : Bool) : Rule Phrase :=
  first (.node .pointerType (.seq (.exact "*") (.call (.type line))))
    [sliceType line, arrayType line, .call .structType, .call .interfaceType, mapType line,
      channelType line, functionType line,
      .node .negatedType (.seq (.exact "~") (.call (.type line))),
      namedType typeWords line]

def typeRule (line : Bool) : Rule Phrase :=
  .alt (.node .parenthesizedType (all [.exact "(", .call (.type false), .exact ")"]))
    (.call (.simpleType line))

/-- Types with bars between them. -/
def union (line : Bool) : Rule Phrase :=
  separated (.seq (sameLineIf line) (.exact "|")) (.call (.type line))

def typeArgumentsRule : Rule Phrase :=
  .node .typeArguments (all [.exact "[", commas (.call (.typeElem false)), opt (.exact ","),
    .exact "]"])

/-- A field: an embedded type, which nothing but a tag follows, or names and their type. -/
def field : Rule Phrase :=
  let tag := .seq .sameLine (.role .tag string)
  let embedded := all [opt (.exact "*"), .role .type (namedType [] true),
    .ahead (first tag [.terminator, .exact "\x7d"])]
  let named := .seq (commas (declared .fieldIdentifier)) (.role .type (.call (.type true)))
  .node .fieldDeclaration (.seq (.alt embedded named) (opt tag))

def structTypeRule : Rule Phrase :=
  .node .structType (.seq (.exact "struct")
    (.node .fieldDeclarationList (group "\x7b" field "\x7d")))

/-- A method or a union of types. -/
def interfaceElem : Rule Phrase :=
  .alt
    (.node .methodElem (all [.word .fieldIdentifier typeWords, .sameLine, .call .parameterList,
      opt (result true)]))
    (.call (.typeElem true))

def interfaceTypeRule : Rule Phrase :=
  .node .interfaceType (.seq (.exact "interface") (group "\x7b" interfaceElem "\x7d"))

/-! ## Parameters -/

def variadicParameter : Rule Phrase :=
  .node .variadicParameterDeclaration (all [opt parameterName, .exact "...",
    .role .type (.call (.type false))])

/-- Names and their type, if nothing else stands before the next comma or parenthesis. -/
def namedParameter : Rule Phrase :=
  .node .parameterDeclaration (all [commas parameterName, .role .type (.call (.type false)),
    .ahead (oneOf "," [")"])])

def unnamedParameter : Rule Phrase :=
  .node .parameterDeclaration (.role .type (.call (.type false)))

def parameterListRule : Rule Phrase :=
  .node .parameterList
    (list "(" (first variadicParameter [namedParameter, unnamedParameter]) ")")

def typeParameter : Rule Phrase :=
  .node .typeParameterDeclaration (.seq (commas parameterName)
    (.role .type (.node .typeConstraint (union false))))

def typeParameterList : Rule Phrase :=
  .role .typeParameters (.node .typeParameterList
    (all [.exact "[", commas typeParameter, opt (.exact ","), .exact "]"]))

/-! ## Declarations -/

def packageClause : Rule Phrase :=
  .node .packageClause (.seq (.exact "package") (.word .packageIdentifier []))

def importDeclaration : Rule Phrase :=
  .node .importDeclaration (.seq (.exact "import") (grouped
    (.node .importSpec (.seq (opt (.alt (.exact ".") (.word .packageIdentifier []))) string))))

/-- What follows the parameters of a declared function. -/
def resultAndBody : Rule Phrase :=
  .seq (opt (result true)) (opt (.seq .sameLine (.call .block)))

def functionDeclaration : Rule Phrase :=
  .node .functionDeclaration (all [.exact "func", declared .identifier, opt typeParameterList,
    .role .parameters (.call .parameterList), resultAndBody])

def methodDeclaration : Rule Phrase :=
  .node .methodDeclaration (all [.exact "func", .call .parameterList, declared .fieldIdentifier,
    .role .parameters (.call .parameterList), resultAndBody])

/-- A type declaration. What can be read as the length of an array is no type parameter. -/
def typeSpec : Rule Phrase :=
  let name := declared .typeIdentifier
  let type := .role .type (.call (.type true))
  first (.node .typeSpec (.seq name type))
    [.node .typeSpec (all [name, typeParameterList, type]),
      .node .typeAlias (all [name, opt typeParameterList, .exact "=", type])]

def typeDeclarationRule : Rule Phrase :=
  .node .typeDeclaration (.seq (.exact "type") (grouped typeSpec))

/-- The values of a constant or variable. -/
def initializer : Rule Phrase := .seq (.exact "=") (.call (.expressions .statement))

def constDeclaration : Rule Phrase :=
  .node .constDeclaration (.seq (.exact "const") (grouped (.node .valueSpec
    (.seq (commas (declared .identifier))
      (opt (all [.sameLine, opt (.call (.type true)), initializer]))))))

def varDeclaration : Rule Phrase :=
  .node .varDeclaration (.seq (.exact "var") (grouped (.node .valueSpec
    (.seq (commas (declared .identifier))
      (.alt initializer
        (.seq (.call (.type true)) (opt (.seq .sameLine initializer))))))))

/-! ## Expressions -/

/-- A type that begins with a bracket or a reserved word: the type of a composite literal or of a
    conversion, or an argument. -/
def typeOperand (c : Context) : Rule Phrase :=
  let alone := if c.types then .empty else .ahead (.exact "(")
  .alt
    (.seq
      (first (sliceType false) [arrayType false, implicitLengthArrayType false, .call .structType,
        mapType false])
      (.alt (.call .literalValue) alone))
    (.seq (first (channelType false) [.call .interfaceType, functionType false]) alone)

def functionLiteral : Rule Phrase :=
  all [.exact "func", .call .parameterList, opt (result false), .call .block]

/-- A composite literal whose type is a name. -/
def namedLiteral (c : Context) : Rule Phrase :=
  all [namedType reservedWords c.line, sameLineIf c.line, .call .literalValue]

def operand (c : Context) : Rule Phrase :=
  first (.literal .number .numberLiteral)
    ([string, .literal .rune .runeLiteral, functionLiteral, typeOperand c]
      -- A name alone comes after a name with braces, of which it is the beginning.
      ++ (if c.braces then [namedLiteral c] else [])
      ++ [identifier,
        all [.exact "(", .call (.expression .argument), .exact ")"]])

/-- An expression or a type between brackets. -/
def argument : Rule Phrase := .call (.expression .argument)

/-- What stands in brackets after an operand: an index, the bounds of a slice, or type
    arguments. -/
def index : Rule Phrase :=
  let bound := opt (.call (.expression .inner))
  let bounds := all [.exact ":", bound, opt (.seq (.exact ":") bound)]
  .alt bounds
    (.seq argument (.alt bounds (.seq (.many (.seq (.exact ",") argument)) (opt (.exact ",")))))

/-- What makes a larger operand of the operand before. -/
def extension : Rule Phrase :=
  first (.seq (.exact ".") (.word .fieldIdentifier []))
    [all [.exact ".", .exact "(", .call (.type false), .exact ")"],
      all [.exact "[", index, .exact "]"],
      list "(" (.seq argument (opt (.exact "..."))) ")"]

/-- Operands with their signs and the operators between them. -/
def expressionRule (c : Context) : Rule Phrase :=
  let unary := all [.many (oneOf "+" unaryOperators), operand c,
    .many (.seq (sameLineIf c.line) extension)]
  .node .expression (separated (.seq (sameLineIf c.line) (oneOf "+" binaryOperators)) unary)

def expressionsRule (c : Context) : Rule Phrase :=
  separated (.seq (sameLineIf c.line) (.exact ",")) (.call (.expression c))

def literalValueRule : Rule Phrase :=
  let item := .alt (.call .literalValue) (.call (.expression .inner))
  .node .literalValue (list "\x7b" (.seq item (opt (.seq (.exact ":") item))) "\x7d")

/-! ## Statements -/

def simpleStatementRule (c : Context) : Rule Phrase :=
  .node .statement (.seq (.call (.expressions c)) (opt (.seq (sameLineIf c.line)
    (first (.seq (oneOf ":=" assignmentOperators) (.call (.expressions c)))
      [.exact "++", .exact "--", .seq (.exact "<-") (.call (.expression c))]))))

/-- A simple statement in a header and the semicolon after it. -/
def headerStatement : Rule Phrase :=
  .seq (opt (.call (.simpleStatement .header))) (.exact ";")

def headerExpression : Rule Phrase := .call (.expression .header)

/-- A header that is one expression. Trying it first keeps long headers from being read again for
    each of the other forms. -/
def onlyExpression : Rule Phrase := .seq headerExpression (.ahead (.exact "\x7b"))

def ifStatementRule : Rule Phrase :=
  .node .statement (all [.exact "if",
    .alt onlyExpression (.seq headerStatement headerExpression),
    .call .block,
    opt (all [.sameLine, .exact "else", .alt (.call .ifStatement) (.call .block)])])

def forStatement : Rule Phrase :=
  let range := all [opt (.seq (.call (.expressions .header)) (oneOf "=" [":="])), .exact "range",
    headerExpression]
  let clause := all [headerStatement, opt headerExpression, .exact ";",
    opt (.call (.simpleStatement .header))]
  .node .statement (all [.exact "for", first onlyExpression [range, clause, .empty], .call .block])

/-- The cases of a switch or select statement; `guard` is what stands between `case` and its
    colon. -/
def cases (guard : Rule Phrase) : Rule Phrase :=
  all [.exact "\x7b",
    .many (all [.alt (.seq (.exact "case") guard) (.exact "default"), .exact ":",
      .call .statements]),
    .exact "\x7d"]

def switchStatement : Rule Phrase :=
  let types := all [opt (.seq (.call (.expressions .header)) (.exact ":=")), headerExpression,
    .exact ".", .exact "(", .exact "type", .exact ")"]
  .node .statement (all [.exact "switch",
    .alt onlyExpression (.seq (opt headerStatement) (opt (.alt types headerExpression))),
    cases (commas argument)])

def selectStatement : Rule Phrase :=
  .node .statement (.seq (.exact "select") (cases (.call (.simpleStatement .inner))))

def labeledStatement : Rule Phrase :=
  .node .statement (all [identifier, .sameLine, .exact ":", opt (.call .statement)])

/-- A statement of one reserved word and what may follow it on its line. -/
def jump (word : String) (operand : Rule Phrase) : Rule Phrase :=
  .node .statement (.seq (.exact word) (opt (.seq .sameLine operand)))

def statementRule : Rule Phrase :=
  first constDeclaration
    [varDeclaration, .call .typeDeclaration,
      jump "return" (.call (.expressions .statement)),
      .node .statement (.seq (oneOf "go" ["defer"]) (.call (.expression .statement))),
      .call .ifStatement, forStatement, switchStatement, selectStatement, labeledStatement,
      jump "break" identifier, jump "continue" identifier,
      .node .statement (.seq (.exact "goto") identifier),
      .node .statement (.exact "fallthrough"),
      .call .block, .call (.simpleStatement .statement), .node .statement (.exact ";")]

def statementsRule : Rule Phrase :=
  opt (all [.call .statement, .many (.seq .terminator (.call .statement)), opt .terminator])

/-- The rule of each phrase. -/
def rule : Phrase → Rule Phrase
  | type line => typeRule line
  | simpleType line => simpleTypeRule line
  | typeElem line => .node .typeElem (union line)
  | typeArguments => typeArgumentsRule
  | structType => structTypeRule
  | interfaceType => interfaceTypeRule
  | parameterList => parameterListRule
  | expression c => expressionRule c
  | expressions c => expressionsRule c
  | literalValue => literalValueRule
  | simpleStatement c => simpleStatementRule c
  | statement => statementRule
  | statements => statementsRule
  | block => .node .block (all [.exact "\x7b", .call .statements, .exact "\x7d"])
  | typeDeclaration => typeDeclarationRule
  | ifStatement => ifStatementRule

/-- Declarations and statements, each ended by a terminator. -/
def sourceFile : Rule Phrase :=
  .many (.seq
    (first packageClause
      [importDeclaration, functionDeclaration, methodDeclaration, .call .statement])
    .terminator)

end Phrase

/-- The syntax tree of a file, if the text is one. -/
def sourceFile? (source : String) : Option Node := do
  let children ← Rule.children? source.toList Phrase.rule Phrase.sourceFile
  let stop := Place.after {} source.toList
  return { kind := .sourceFile, text := source, span := ⟨{}, stop⟩, children }

/-- The syntax tree of a text. A text that is no Go file is one node for a syntax error. -/
def parse (source : String) : Node :=
  (sourceFile? source).getD
    { kind := .error, text := source, span := ⟨{}, Place.after {} source.toList⟩ }

end CallSchema.Go
