import Mdbase.Library.Descent
import Mdbase.Library.Whitespace

/-!
# Parsing expressions

An expression is read by recursive descent from the tokens that the lexer makes of its text.
The functions of the parser that call themselves take a budget, `stack`: how many calls of
`parseTernary`, `parseUnary` and `parsePrimary` may be active at once. Numbers, and how their
texts are read, are those of the standard library.
-/

namespace Mdbase.Expressions

open Library

variable {Number : Type}

/-- `BinOp`. -/
inductive BinOp where
  | add | sub | mul | div | mod | eq | neq | lt | gt | lte | gte | isIn | and | or
  deriving DecidableEq

/-- `UnaryOp`. -/
inductive UnaryOp where
  | not | neg
  deriving DecidableEq

/-- `Expr`. -/
inductive Expr (Number : Type) where
  | null
  | bool (value : Bool)
  | number (value : Number)
  | str (value : Text)
  | ident (name : Text)
  | dot (base : Expr Number) (name : Text)
  | index (base position : Expr Number)
  | binOp (left : Expr Number) (operator : BinOp) (right : Expr Number)
  | unaryOp (operator : UnaryOp) (operand : Expr Number)
  | nullCoalesce (left right : Expr Number)
  | array (elements : List (Expr Number))
  | call (callee : Expr Number) (arguments : List (Expr Number))
  | conditional (condition thenExpr elseExpr : Expr Number)

/-- `Token`. -/
inductive Token (Number : Type) where
  | null
  | bool (value : Bool)
  | number (value : Number)
  | str (value : Text)
  | ident (name : Text)
  | plus | minus | star | slash | percent | eq | neq | lt | gt | lte | gte | isIn | and | or | not
  | questionQuestion | question | colon
  | lparen | rparen | lbracket | rbracket | dot | comma
  | eof
  deriving DecidableEq

/-- The errors of the lexer and the parser, with what their texts mention. -/
inductive ParseError (Number : Type) where
  | emptyExpression
  | depthExceeded
  | unexpectedCharacter (character : Char)
  | unterminatedString
  | invalidNumber (text : Text)
  | unexpected (token : Token Number)
  | expected (token got : Token Number)
  | expectedIdentifier (got : Token Number)
  deriving DecidableEq

/-- What `tokenize` does with a character of a name. -/
def isNameCharacter (character : Char) : Bool := character.isAlphanum || character == '_'

/-- A string up to its closing quote, with its escapes, and what follows it. -/
def lexString (quote : Char) : Text → Except (ParseError Number) (Text × Text)
  | [] => .error .unterminatedString
  | '\\' :: [] => .error .unterminatedString
  | '\\' :: escaped :: rest => do
    let (value, rest) ← lexString quote rest
    if escaped = 'n' then .ok ('\n' :: value, rest)
    else if escaped = 't' then .ok ('\t' :: value, rest)
    else if escaped = '\\' then .ok ('\\' :: value, rest)
    else if escaped = quote then .ok (quote :: value, rest)
    else .ok ('\\' :: escaped :: value, rest)
  | character :: rest => do
    if character = quote then .ok ([], rest)
    else
      let (value, rest) ← lexString quote rest
      .ok (character :: value, rest)

/-- The exponent behind the digits of a number, and what follows it. -/
def lexExponent : Text → Text × Text
  | mark :: rest =>
    if mark = 'e' ∨ mark = 'E' then
      let sign := rest.take 1 |>.filter fun sign => sign = '+' ∨ sign = '-'
      let digits := rest.drop sign.length
      (mark :: sign ++ digits.takeWhile Char.isDigit, digits.dropWhile Char.isDigit)
    else ([], mark :: rest)
  | [] => ([], [])

/-- The number with this text. -/
def readNumber (parseNumber : Text → Option Number) (text : Text) :
    Except (ParseError Number) (Token Number) :=
  match parseNumber text with
  | some number => .ok (.number number)
  | none => .error (.invalidNumber text)

/-- A name, or the keyword that it is, and what follows it. -/
def lexName (text : Text) : Token Number × Text :=
  let name := text.takeWhile isNameCharacter
  let rest := text.dropWhile isNameCharacter
  if name = "ext".toList then
    match rest with
    | ':' :: ':' :: rest =>
      (.ident ("ext::".toList ++ rest.takeWhile isNameCharacter), rest.dropWhile isNameCharacter)
    | _ => (.ident name, rest)
  else if name = "true".toList then (.bool true, rest)
  else if name = "false".toList then (.bool false, rest)
  else if name = "null".toList then (.null, rest)
  else if name = "in".toList then (.isIn, rest)
  else (.ident name, rest)

/-- The first token of a text that does not begin with white space, and what follows it. -/
def lexToken (parseNumber : Text → Option Number) (first : Char) (rest : Text) :
    Except (ParseError Number) (Token Number × Text) :=
  let double (second : Char) (long : Token Number)
      (short : Except (ParseError Number) (Token Number)) :=
    if rest.head? = some second then .ok (long, rest.tail) else short.map (·, rest)
  match first with
  | '+' => .ok (.plus, rest)
  | '*' => .ok (.star, rest)
  | '/' => .ok (.slash, rest)
  | '%' => .ok (.percent, rest)
  | '(' => .ok (.lparen, rest)
  | ')' => .ok (.rparen, rest)
  | '[' => .ok (.lbracket, rest)
  | ']' => .ok (.rbracket, rest)
  | ',' => .ok (.comma, rest)
  | ':' => .ok (.colon, rest)
  | '-' => .ok (.minus, rest)
  | '.' =>
    if rest.head?.any Char.isDigit then do
      let number ← readNumber parseNumber ("0.".toList ++ rest.takeWhile Char.isDigit)
      .ok (number, rest.dropWhile Char.isDigit)
    else .ok (.dot, rest)
  | '?' => double '?' .questionQuestion (.ok .question)
  | '=' => double '=' .eq (.error (.unexpectedCharacter '='))
  | '!' => double '=' .neq (.ok .not)
  | '<' => double '=' .lte (.ok .lt)
  | '>' => double '=' .gte (.ok .gt)
  | '&' => double '&' .and (.error (.unexpectedCharacter '&'))
  | '|' => double '|' .or (.error (.unexpectedCharacter '|'))
  | _ =>
    if first = '"' ∨ first = '\'' then do
      let (value, rest) ← lexString first rest
      .ok (.str value, rest)
    else if first.isDigit then do
      let digits := (first :: rest).takeWhile fun next => next.isDigit || next == '.'
      let (exponent, rest) :=
        lexExponent ((first :: rest).dropWhile fun next => next.isDigit || next == '.')
      let number ← readNumber parseNumber (digits ++ exponent)
      .ok (number, rest)
    else if first.isAlpha || first == '_' then .ok (lexName (first :: rest))
    else .error (.unexpectedCharacter first)

/-- The tokens of a text, each of which has at least one character of it. -/
def tokenizeFrom (parseNumber : Text → Option Number) :
    Nat → Text → Except (ParseError Number) (List (Token Number))
  | 0, _ => .ok [.eof]
  | fuel + 1, text =>
    match text.dropWhile isWhitespace with
    | [] => .ok [.eof]
    | first :: rest => do
      let (token, rest) ← lexToken parseNumber first rest
      let tokens ← tokenizeFrom parseNumber fuel rest
      .ok (token :: tokens)

/-- `Lexer::tokenize`. -/
def tokenize (parseNumber : Text → Option Number) (input : Text) :
    Except (ParseError Number) (List (Token Number)) :=
  tokenizeFrom parseNumber input.length input

/-- The tokens that are left, and how many nested constructs have been counted. -/
structure ParserState (Number : Type) where
  rest : List (Token Number)
  depth : Nat

/-- How many tokens are left. -/
def ParserState.size (state : ParserState Number) : Nat := state.rest.length

abbrev Parse (Number α : Type) := Descent (ParseError Number) (ParserState Number) α

/-- `Parser::peek`. -/
def peek : Parse Number (Token Number) := fun state =>
  some (.ok (state.rest.headD .eof, state))

/-- `Parser::advance`. -/
def advance : Parse Number (Token Number) := fun state =>
  some (.ok (state.rest.headD .eof, { state with rest := state.rest.tail }))

/-- `Parser::expect`. -/
def expect [DecidableEq Number] (expected : Token Number) : Parse Number Unit := do
  let token ← advance
  if token = expected then pure () else Descent.fail (.expected expected token)

/-- `check_depth`. -/
def checkDepth (maxDepth : Nat) : Parse Number Unit := fun state =>
  if state.depth + 1 > maxDepth then some (.error .depthExceeded)
  else some (.ok ((), { state with depth := state.depth + 1 }))

/-- `dec_depth`. -/
def decDepth : Parse Number Unit := fun state =>
  some (.ok ((), { state with depth := state.depth - 1 }))

/-- What stands between `check_depth` and `dec_depth`. -/
def nested (maxDepth : Nat) {α : Type} (inner : Parse Number α) : Parse Number α := do
  checkDepth maxDepth
  let value ← inner
  decDepth
  pure value

/-- What an operator makes of its operands. -/
abbrev Operators (Number : Type) := Token Number → Option (Expr Number → Expr Number → Expr Number)

/-- The operator that has a binary operation. -/
def binary (operator : BinOp) : Option (Expr Number → Expr Number → Expr Number) :=
  some fun left right => .binOp left operator right

def multiplicativeOperators : Operators Number
  | .star => binary .mul
  | .slash => binary .div
  | .percent => binary .mod
  | _ => none

def additiveOperators : Operators Number
  | .plus => binary .add
  | .minus => binary .sub
  | _ => none

def comparisonOperators : Operators Number
  | .lt => binary .lt
  | .gt => binary .gt
  | .lte => binary .lte
  | .gte => binary .gte
  | .isIn => binary .isIn
  | _ => none

def equalityOperators : Operators Number
  | .eq => binary .eq
  | .neq => binary .neq
  | _ => none

def andOperators : Operators Number
  | .and => binary .and
  | _ => none

def orOperators : Operators Number
  | .or => binary .or
  | _ => none

def nullCoalesceOperators : Operators Number
  | .questionQuestion => some .nullCoalesce
  | _ => none

/-- One operator and its right operand. -/
def operatorStep (operand : Parse Number (Expr Number)) (operators : Operators Number)
    (left : Expr Number) : Parse Number (Expr Number ⊕ Expr Number) := do
  match operators (← peek) with
  | none => pure (.inl left)
  | some combine =>
    let _ ← advance
    let right ← operand
    pure (.inr (combine left right))

/-- Operands with operators of one level between them, which associate to the left. -/
def parseOperators (operators : Operators Number) (operand : Parse Number (Expr Number)) :
    Parse Number (Expr Number) := do
  let left ← operand
  Descent.loop ParserState.size (operatorStep operand operators) id left

section Levels

variable (parseUnary : Parse Number (Expr Number))

def parseMultiplicative : Parse Number (Expr Number) :=
  parseOperators multiplicativeOperators parseUnary

def parseAdditive : Parse Number (Expr Number) :=
  parseOperators additiveOperators (parseMultiplicative parseUnary)

def parseComparison : Parse Number (Expr Number) :=
  parseOperators comparisonOperators (parseAdditive parseUnary)

def parseEquality : Parse Number (Expr Number) :=
  parseOperators equalityOperators (parseComparison parseUnary)

def parseAnd : Parse Number (Expr Number) := parseOperators andOperators (parseEquality parseUnary)

def parseOr : Parse Number (Expr Number) := parseOperators orOperators (parseAnd parseUnary)

def parseNullCoalesce : Parse Number (Expr Number) :=
  parseOperators nullCoalesceOperators (parseOr parseUnary)

end Levels

section Nesting

variable [DecidableEq Number] (maxDepth : Nat) (parseTernary parsePrimary :
  Parse Number (Expr Number))

/-- One more item of a list. Elements of an array may end with a comma, arguments may not. -/
def itemStep (trailing : Bool) (items : List (Expr Number)) :
    Parse Number (List (Expr Number) ⊕ List (Expr Number)) := do
  match ← peek with
  | .comma =>
    let _ ← advance
    if trailing ∧ (← peek) = .rbracket then pure (.inl items)
    else
      let item ← parseTernary
      pure (.inr (items ++ [item]))
  | _ => pure (.inl items)

/-- A list of items that is not empty. -/
def parseItems (trailing : Bool) : Parse Number (List (Expr Number)) := do
  let first ← parseTernary
  Descent.loop ParserState.size (itemStep parseTernary trailing) id [first]

/-- `parse_args`. -/
def parseArgs : Parse Number (List (Expr Number)) := do
  if (← peek) = .rparen then pure [] else parseItems parseTernary false

/-- The elements of an array, which `parse_primary` reads itself. -/
def parseElements : Parse Number (List (Expr Number)) := do
  if (← peek) = .rbracket then pure [] else parseItems parseTernary true

/-- The parentheses of a call. -/
def parseCall (callee : Expr Number) : Parse Number (Expr Number) :=
  nested maxDepth do
    let _ ← advance
    let arguments ← parseArgs parseTernary
    expect .rparen
    pure (.call callee arguments)

/-- One access, index or call behind an expression. -/
def postfixStep (expr : Expr Number) : Parse Number (Expr Number ⊕ Expr Number) := do
  match ← peek with
  | .dot =>
    let _ ← advance
    match ← advance with
    | .ident name =>
      if (← peek) = .lparen then .inr <$> parseCall maxDepth parseTernary (.dot expr name)
      else pure (.inr (.dot expr name))
    | other => Descent.fail (.expectedIdentifier other)
  | .lbracket =>
    let _ ← advance
    let position ← parseTernary
    expect .rbracket
    pure (.inr (.index expr position))
  | .lparen => .inr <$> parseCall maxDepth parseTernary expr
  | _ => pure (.inl expr)

/-- `parse_postfix`. -/
def parsePostfix : Parse Number (Expr Number) := do
  let expr ← parsePrimary
  Descent.loop ParserState.size (postfixStep maxDepth parseTernary) id expr

end Nesting

mutual

/-- `parse_ternary`. -/
def parseTernary [DecidableEq Number] (maxDepth : Nat) : Nat → Parse Number (Expr Number)
  | 0 => Descent.exhausted
  | stack + 1 => do
    let expr ← parseNullCoalesce (parseUnary maxDepth stack)
    if (← peek) = .question then
      nested maxDepth do
        let _ ← advance
        let thenExpr ← parseTernary maxDepth stack
        expect .colon
        let elseExpr ← parseTernary maxDepth stack
        pure (.conditional expr thenExpr elseExpr)
    else pure expr

/-- `parse_unary`. -/
def parseUnary [DecidableEq Number] (maxDepth : Nat) : Nat → Parse Number (Expr Number)
  | 0 => Descent.exhausted
  | stack + 1 => do
    match ← peek with
    | .not =>
      let _ ← advance
      .unaryOp .not <$> parseUnary maxDepth stack
    | .minus =>
      let _ ← advance
      .unaryOp .neg <$> parseUnary maxDepth stack
    | _ => parsePostfix maxDepth (parseTernary maxDepth stack) (parsePrimary maxDepth stack)

/-- `parse_primary`. -/
def parsePrimary [DecidableEq Number] (maxDepth : Nat) : Nat → Parse Number (Expr Number)
  | 0 => Descent.exhausted
  | stack + 1 => do
    match ← peek with
    | .null => let _ ← advance; pure .null
    | .bool value => let _ ← advance; pure (.bool value)
    | .number value => let _ ← advance; pure (.number value)
    | .str value => let _ ← advance; pure (.str value)
    | .ident name => let _ ← advance; pure (.ident name)
    | .lparen =>
      nested maxDepth do
        let _ ← advance
        let expr ← parseTernary maxDepth stack
        expect .rparen
        pure expr
    | .lbracket =>
      let _ ← advance
      let elements ← parseElements (parseTernary maxDepth stack)
      expect .rbracket
      pure (.array elements)
    | token => Descent.fail (.unexpected token)

end

/-- May the token be left when the expression has ended? -/
def Token.isTrailing : Token Number → Bool
  | .rparen | .comma | .eof | .number _ => true
  | _ => false

/-- Is the token looked at again when it is left? -/
def Token.isSignificant : Token Number → Bool
  | .comma | .eof => false
  | _ => true

/-- The expression at the beginning of the tokens. -/
def parseTokens [DecidableEq Number] (maxDepth stack : Nat) (tokens : List (Token Number)) :
    Option (Except (ParseError Number) (Expr Number)) :=
  match parseTernary maxDepth stack ⟨tokens, 0⟩ with
  | none => none
  | some (.error failure) => some (.error failure)
  | some (.ok (expr, state)) =>
    if state.rest.headD .eof ≠ .eof ∧ state.rest.any Token.isSignificant ∧
        ¬state.rest.all Token.isTrailing then
      some (.error (.unexpected (state.rest.headD .eof)))
    else some (.ok expr)

/-- `MAX_PARSE_DEPTH`, the limit of `Parser::parse`. -/
def maxParseDepth : Nat := 64

/-- `Parser::parse_with_max_depth`. -/
def parseWithMaxDepth [DecidableEq Number] (parseNumber : Text → Option Number) (input : Text)
    (maxDepth stack : Nat) : Option (Except (ParseError Number) (Expr Number)) :=
  if trimmed input = [] then some (.error .emptyExpression)
  else
    match tokenize parseNumber input with
    | .error failure => some (.error failure)
    | .ok tokens =>
      -- The closing parentheses are counted before anything is parsed.
      if tokens.countP (· = .rparen) % 2 ^ 32 > maxDepth then some (.error .depthExceeded)
      else parseTokens maxDepth stack tokens

end Mdbase.Expressions
