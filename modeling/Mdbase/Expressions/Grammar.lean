import Mdbase.Expressions.Parser

/-!
# The grammar of the expressions

What the tokens of an expression are, with parentheses or without, and what the parser makes of
them: what it returns has been derived from the tokens that it has read, and a reader whose
budget does not last stands inside constructs that are nested deeply enough.
-/

namespace Mdbase.Expressions

open Library

variable {Number : Type}

/-- The operators of a level. The higher a level is, the looser its operators bind. -/
def operatorsAt : Nat → Operators Number
  | 1 => multiplicativeOperators
  | 2 => additiveOperators
  | 3 => comparisonOperators
  | 4 => equalityOperators
  | 5 => andOperators
  | 6 => orOperators
  | 7 => nullCoalesceOperators
  | _ => fun _ => none

theorem operatorsAt_eof (level : Nat) : operatorsAt level (.eof : Token Number) = none := by
  unfold operatorsAt
  split <;> rfl

/-- The token of an operator. -/
def BinOp.token : BinOp → Token Number
  | .add => .plus
  | .sub => .minus
  | .mul => .star
  | .div => .slash
  | .mod => .percent
  | .eq => .eq
  | .neq => .neq
  | .lt => .lt
  | .gt => .gt
  | .lte => .lte
  | .gte => .gte
  | .isIn => .isIn
  | .and => .and
  | .or => .or

/-- The level of an operator. -/
def BinOp.level : BinOp → Nat
  | .mul | .div | .mod => 1
  | .add | .sub => 2
  | .lt | .gt | .lte | .gte | .isIn => 3
  | .eq | .neq => 4
  | .and => 5
  | .or => 6

theorem operatorsAt_eq_some {level : Nat} {token : Token Number}
    {combine : Expr Number → Expr Number → Expr Number}
    (here : operatorsAt level token = some combine) :
    (∃ operator : BinOp, level = operator.level ∧ token = operator.token ∧
      combine = fun left right => .binOp left operator right) ∨
    level = 7 ∧ token = .questionQuestion ∧ combine = .nullCoalesce := by
  unfold operatorsAt at here
  split at here
  case h_8 => cases here
  case h_7 =>
    unfold nullCoalesceOperators at here
    split at here <;> cases here
    exact .inr ⟨rfl, rfl, rfl⟩
  all_goals
    simp only [multiplicativeOperators, additiveOperators, comparisonOperators,
      equalityOperators, andOperators, orOperators] at here
    split at here <;> cases here
    all_goals exact .inl ⟨_, rfl, rfl, rfl⟩

/-- The operands of a level, which are the operations of the levels below it. -/
def parseBinary (parseUnary : Parse Number (Expr Number)) : Nat → Parse Number (Expr Number)
  | 0 => parseUnary
  | level + 1 => parseOperators (operatorsAt (level + 1)) (parseBinary parseUnary level)

theorem parseNullCoalesce_eq (parseUnary : Parse Number (Expr Number)) :
    parseNullCoalesce parseUnary = parseBinary parseUnary 7 := rfl

/-- What is read. -/
inductive Phrase (Number : Type) where
  | ternary (expr : Expr Number)
  | binary (level : Nat) (expr : Expr Number)
  | postfixed (expr : Expr Number)
  | primary (expr : Expr Number)
  | items (items : List (Expr Number))

/-- Where something is read. Items may end with a comma, or may not. -/
inductive Place where
  | ternary
  | binary (level : Nat)
  | postfixed
  | primary
  | items (trailing : Bool)

/-- A phrase is derived from the tokens in front of others. At most so many parentheses, calls
and branches of conditionals are inside each other. -/
inductive Derives : Nat → Phrase Number → List (Token Number) → List (Token Number) → Prop where
  | null {allowed rest} : Derives allowed (.primary .null) (.null :: rest) rest
  | bool {allowed rest} (value : Bool) :
      Derives allowed (.primary (.bool value)) (.bool value :: rest) rest
  | number {allowed rest} (value : Number) :
      Derives allowed (.primary (.number value)) (.number value :: rest) rest
  | str {allowed rest} (value : Text) :
      Derives allowed (.primary (.str value)) (.str value :: rest) rest
  | ident {allowed rest} (name : Text) :
      Derives allowed (.primary (.ident name)) (.ident name :: rest) rest
  | group {allowed input rest expr} (inner : Derives allowed (.ternary expr) input
      (.rparen :: rest)) : Derives (allowed + 1) (.primary expr) (.lparen :: input) rest
  | noElements {allowed rest} :
      Derives allowed (.primary (.array [])) (.lbracket :: .rbracket :: rest) rest
  | elements {allowed input rest elements} (inner : Derives allowed (.items elements) input
      (.rbracket :: rest)) : Derives allowed (.primary (.array elements)) (.lbracket :: input) rest
  | elementsComma {allowed input rest elements} (inner : Derives allowed (.items elements) input
      (.comma :: .rbracket :: rest)) :
      Derives allowed (.primary (.array elements)) (.lbracket :: input) rest
  | ofPrimary {allowed input rest expr} (inner : Derives allowed (.primary expr) input rest) :
      Derives allowed (.postfixed expr) input rest
  | dot {allowed input rest expr name} (base : Derives allowed (.postfixed expr) input
      (.dot :: .ident name :: rest)) : Derives allowed (.postfixed (.dot expr name)) input rest
  | index {allowed input middle rest expr position} (base : Derives allowed (.postfixed expr)
      input (.lbracket :: middle)) (inner : Derives allowed (.ternary position) middle
      (.rbracket :: rest)) : Derives allowed (.postfixed (.index expr position)) input rest
  | callEmpty {allowed input rest expr} (base : Derives (allowed + 1) (.postfixed expr) input
      (.lparen :: .rparen :: rest)) : Derives (allowed + 1) (.postfixed (.call expr [])) input rest
  | call {allowed input middle rest expr arguments} (base : Derives (allowed + 1)
      (.postfixed expr) input (.lparen :: middle)) (inner : Derives allowed (.items arguments)
      middle (.rparen :: rest)) :
      Derives (allowed + 1) (.postfixed (.call expr arguments)) input rest
  | ofPostfix {allowed input rest expr} (inner : Derives allowed (.postfixed expr) input rest) :
      Derives allowed (.binary 0 expr) input rest
  | not {allowed input rest expr} (inner : Derives allowed (.binary 0 expr) input rest) :
      Derives allowed (.binary 0 (.unaryOp .not expr)) (.not :: input) rest
  | neg {allowed input rest expr} (inner : Derives allowed (.binary 0 expr) input rest) :
      Derives allowed (.binary 0 (.unaryOp .neg expr)) (.minus :: input) rest
  | tighter {allowed level input rest expr} (inner : Derives allowed (.binary level expr)
      input rest) : Derives allowed (.binary (level + 1) expr) input rest
  | operator {allowed level input middle rest left right token combine}
      (first : Derives allowed (.binary (level + 1) left) input (token :: middle))
      (operator : operatorsAt (level + 1) token = some combine)
      (second : Derives allowed (.binary level right) middle rest) :
      Derives allowed (.binary (level + 1) (combine left right)) input rest
  | ofBinary {allowed input rest expr} (inner : Derives allowed (.binary 7 expr) input rest) :
      Derives allowed (.ternary expr) input rest
  | conditional {allowed input middle other rest condition thenExpr elseExpr}
      (first : Derives (allowed + 1) (.binary 7 condition) input (.question :: middle))
      (second : Derives allowed (.ternary thenExpr) middle (.colon :: other))
      (third : Derives allowed (.ternary elseExpr) other rest) :
      Derives (allowed + 1) (.ternary (.conditional condition thenExpr elseExpr)) input rest
  | item {allowed input rest expr} (inner : Derives allowed (.ternary expr) input rest) :
      Derives allowed (.items [expr]) input rest
  | itemAfter {allowed input middle rest items expr} (first : Derives allowed (.items items)
      input (.comma :: middle)) (second : Derives allowed (.ternary expr) middle rest) :
      Derives allowed (.items (items ++ [expr])) input rest

/-- The tokens lead into so many constructs that are inside each other: parentheses, calls and
branches of conditionals, which are counted by the parser, and arrays, indices and operands of
unary operators, which are not. -/
inductive Enters : Nat → Nat → Nat → Place → List (Token Number) → Prop where
  | start {allowed place input} : Enters allowed 0 0 place input
  | group {allowed counted uncounted input} (inner : Enters allowed counted uncounted .ternary
      input) : Enters (allowed + 1) (counted + 1) uncounted .primary (.lparen :: input)
  | elements {allowed counted uncounted input} (some_ : input.headD .eof ≠ .rbracket)
      (inner : Enters allowed counted uncounted (.items true) input) :
      Enters allowed counted (uncounted + 1) .primary (.lbracket :: input)
  | ofPrimary {allowed counted uncounted input} (inner : Enters allowed counted uncounted
      .primary input) : Enters allowed counted uncounted .postfixed input
  | index {allowed counted uncounted input middle expr} (base : Derives allowed
      (.postfixed expr) input (.lbracket :: middle)) (inner : Enters allowed counted uncounted
      .ternary middle) : Enters allowed counted (uncounted + 1) .postfixed input
  | call {allowed counted uncounted input middle expr} (base : Derives (allowed + 1)
      (.postfixed expr) input (.lparen :: middle)) (some_ : middle.headD .eof ≠ .rparen)
      (inner : Enters allowed counted uncounted (.items false) middle) :
      Enters (allowed + 1) (counted + 1) uncounted .postfixed input
  | ofPostfix {allowed counted uncounted input} (inner : Enters allowed counted uncounted
      .postfixed input) : Enters allowed counted uncounted (.binary 0) input
  | not {allowed counted uncounted input} (inner : Enters allowed counted uncounted (.binary 0)
      input) : Enters allowed counted (uncounted + 1) (.binary 0) (.not :: input)
  | neg {allowed counted uncounted input} (inner : Enters allowed counted uncounted (.binary 0)
      input) : Enters allowed counted (uncounted + 1) (.binary 0) (.minus :: input)
  | tighter {allowed counted uncounted level input} (inner : Enters allowed counted uncounted
      (.binary level) input) : Enters allowed counted uncounted (.binary (level + 1)) input
  | operator {allowed counted uncounted level input middle left token combine}
      (first : Derives allowed (.binary (level + 1) left) input (token :: middle))
      (operator : operatorsAt (level + 1) token = some combine)
      (inner : Enters allowed counted uncounted (.binary level) middle) :
      Enters allowed counted uncounted (.binary (level + 1)) input
  | ofBinary {allowed counted uncounted input} (inner : Enters allowed counted uncounted
      (.binary 7) input) : Enters allowed counted uncounted .ternary input
  | thenExpr {allowed counted uncounted input middle condition} (first : Derives (allowed + 1)
      (.binary 7 condition) input (.question :: middle)) (inner : Enters allowed counted
      uncounted .ternary middle) : Enters (allowed + 1) (counted + 1) uncounted .ternary input
  | elseExpr {allowed counted uncounted input middle other condition thenExpr}
      (first : Derives (allowed + 1) (.binary 7 condition) input (.question :: middle))
      (second : Derives allowed (.ternary thenExpr) middle (.colon :: other))
      (inner : Enters allowed counted uncounted .ternary other) :
      Enters (allowed + 1) (counted + 1) uncounted .ternary input
  | item {allowed counted uncounted trailing input} (inner : Enters allowed counted uncounted
      .ternary input) : Enters allowed counted uncounted (.items trailing) input
  | itemAfter {allowed counted uncounted trailing input middle items}
      (first : Derives allowed (.items items) input (.comma :: middle))
      (more : ¬(trailing = true ∧ middle.headD .eof = .rbracket))
      (inner : Enters allowed counted uncounted .ternary middle) :
      Enters allowed counted uncounted (.items trailing) input

theorem Derives.length_lt {allowed : Nat} {phrase : Phrase Number}
    {input rest : List (Token Number)} (derives : Derives allowed phrase input rest) :
    rest.length < input.length := by
  induction derives <;> simp -failIfUnchanged only [List.length_cons] at * <;> omega

end Mdbase.Expressions
