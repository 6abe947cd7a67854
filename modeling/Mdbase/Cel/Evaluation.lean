import Mdbase.Library.Truth
import Mdbase.Runtime.Value

/-!
# Evaluation of CEL expressions

The syntax trees, values and operators of the `cel` crate as far as mdbase reads
and writes them: literals, field paths, lists, the logical operators, equality,
ordering, membership and the host function `inFolder`. An expression without a
value is an error. Other functions, comprehensions, map and message literals and
the values that only they produce belong to an `Engine`.
-/

namespace Mdbase.Cel

open Library Mdbase.Runtime

/-- An `f64`. -/
inductive Double where
  | finite (value : Rat)
  | infinite (negative : Bool)
  | nan
  deriving DecidableEq

/-- `LiteralValue`. -/
inductive LiteralValue where
  | null
  | boolean (value : Bool)
  | int (value : Int)
  | uint (value : Nat)
  | double (value : Double)
  | string (value : String)
  | bytes (value : List UInt8)
  deriving DecidableEq

/-- `IdedExpr`, without node identities. -/
inductive Expr where
  | ident (name : String)
  | literal (value : LiteralValue)
  /-- With `test`, the macro `has(operand.field)`. -/
  | select (operand : Expr) (field : String) (test : Bool)
  | call (funcName : String) (target : Option Expr) (args : List Expr)
  | list (elements : List Expr) (optionalIndices : List Nat)
  /-- A comprehension, a map, a message or an unspecified node. -/
  | other (id : Nat)

/-- `cel::Value`. -/
inductive CelValue where
  | null
  | bool (value : Bool)
  | int (value : Int)
  | uint (value : Nat)
  | float (value : Double)
  | string (value : String)
  | timestamp (value : DateTime)
  | list (items : List CelValue)
  /-- A map whose keys are texts. -/
  | map (members : List (String × CelValue))
  /-- Bytes, durations, optional values and maps with other keys. -/
  | other (id : Nat)

/-- The comparison of doubles; one that is not a number compares with none. -/
def Double.compares : (left right : Double) → Option Ordering
  | .nan, _ | _, .nan => none
  | .finite left, .finite right => some (compare left right)
  | .infinite left, .infinite right => some (compare right left)
  | .infinite negative, .finite _ => some (if negative then .lt else .gt)
  | .finite _, .infinite negative => some (if negative then .gt else .lt)

/-- The member of a map under a key. -/
def lookup (members : List (String × CelValue)) (key : String) : Option CelValue :=
  (members.find? fun member => member.1 = key).map Prod.snd

/-- What the evaluation takes from the rest of the engine. -/
structure Engine where
  /-- Every function that is not an operator of this module. -/
  call : String → Option (Option CelValue) → List (Option CelValue) → Option CelValue
  other : Nat → Option CelValue
  /-- A list literal with optional elements. -/
  list : List (Option CelValue) → List Nat → Option CelValue
  select : Nat → String → Bool → Option CelValue
  bytes : List UInt8 → Nat
  same : Nat → Nat → Bool
  compareOther : Nat → Nat → Option Ordering
  /-- The value is serialized as `true`, as an optional value that holds it. -/
  serializesTrue : Nat → Bool

namespace CelValue

/-- The number of a numeric value, exactly. -/
def numeric : CelValue → Option Double
  | .int value => some (.finite value)
  | .uint value => some (.finite value)
  | .float value => some value
  | _ => none

mutual

/-- Equality of values: numbers by their value, other kinds only with themselves. -/
def equals (engine : Engine) : (left right : CelValue) → Bool
  | .null, .null => true
  | .bool left, .bool right => left = right
  | .string left, .string right => left = right
  | .timestamp left, .timestamp right => left = right
  | .list left, .list right => equalItems engine left right
  | .map left, .map right => left.length = right.length ∧ equalMembers engine left right
  | .other left, .other right => engine.same left right
  | left, right =>
    match left.numeric, right.numeric with
    | some left, some right => left.compares right = some .eq
    | _, _ => false

/-- Equality of the items of two lists. -/
def equalItems (engine : Engine) : (left right : List CelValue) → Bool
  | [], [] => true
  | left :: lefts, right :: rights => equals engine left right && equalItems engine lefts rights
  | _, _ => false

/-- Every member of the left map has an equal one in the right map. -/
def equalMembers (engine : Engine) : (left right : List (String × CelValue)) → Bool
  | [], _ => true
  | (key, value) :: rest, right =>
    (match lookup right key with
      | some found => equals engine value found
      | none => false) && equalMembers engine rest right

end

/-- The ordering operators, by the orderings they accept. -/
def orders (engine : Engine) (accepts : Ordering → Bool) : (left right : CelValue) → Option Bool
  | .string left, .string right => some (accepts (compare left right))
  | .bool left, .bool right => some (accepts (compare left right))
  | .timestamp left, .timestamp right => some (accepts (compare left right))
  | .other left, .other right => (engine.compareOther left right).map accepts
  | left, right =>
    match left.numeric, right.numeric with
    | some left, some right => some ((left.compares right).any accepts)
    | _, _ => none

/-- The operator `in`. -/
def isIn (engine : Engine) : (element container : CelValue) → Option Bool
  | element, .list items => some (items.any fun item => item.equals engine element)
  | .string key, .map members => some (lookup members key).isSome
  | .bool _, .map _ | .int _, .map _ | .uint _, .map _ => some false
  | _, _ => none

/-- A text that occurs in another one, `str::contains`. -/
def hasText (text part : String) : Bool := part.toList <:+: text.toList

/-- The method `contains`. -/
def contains (engine : Engine) : (container element : CelValue) → Option Bool
  | .list items, element => some (items.any fun item => item.equals engine element)
  | .map members, .string key => some (lookup members key).isSome
  | .string text, .string part => some (hasText text part)
  | _, _ => none

/-- The operator `_[_]`. -/
def index : (container key : CelValue) → Option CelValue
  | .map members, .string key => lookup members key
  | .list items, .int position => if 0 ≤ position then items[position.toNat]? else none
  | .list items, .uint position => items[position]?
  | _, _ => none

/-- The truth value of a result, if it has one. -/
def asBool : Option CelValue → Option Bool
  | some (.bool value) => some value
  | _ => none

/-- A result that `to_json` turns into `true`. -/
def isTrue (engine : Engine) : Option CelValue → Bool
  | some (.bool value) => value
  | some (.other id) => engine.serializesTrue id
  | _ => false

end CelValue

/-- `str::trim_end_matches` for one character. -/
def trimEnd (mark : Char) (text : String) : String :=
  String.ofList (text.toList.reverse.dropWhile (· = mark)).reverse

/-- `str::trim_start_matches` for one character. -/
def trimStart (mark : Char) (text : String) : String :=
  String.ofList (text.toList.dropWhile (· = mark))

/-- `member_str`. -/
def memberText (value : CelValue) (key : String) : Option String :=
  match value with
  | .map members =>
    match lookup members key with
    | some (.string text) => some text
    | _ => none
  | _ => none

/-- The host function `inFolder`. -/
def inFolder (file : CelValue) (folder : String) : Bool :=
  let actual := (memberText file "folder").getD ""
  let wanted := trimStart '/' (trimEnd '/' folder)
  actual = wanted || (wanted ++ "/").toList.isPrefixOf actual.toList

/-- A function or operator applied to the results of its operands. -/
def applyFunction (engine : Engine) : (name : String) → (target : Option (Option CelValue)) →
    (args : List (Option CelValue)) → Option CelValue
  | "_&&_", none, [left, right] =>
    (absorbingAnd (CelValue.asBool left) (CelValue.asBool right)).map .bool
  | "_||_", none, [left, right] =>
    (absorbingOr (CelValue.asBool left) (CelValue.asBool right)).map .bool
  | "!_", none, [inner] => ((CelValue.asBool inner).map Bool.not).map .bool
  | "_==_", none, [left, right] =>
    left.bind fun left => right.map fun right => .bool (left.equals engine right)
  | "_!=_", none, [left, right] =>
    left.bind fun left => right.map fun right => .bool (!left.equals engine right)
  | "_<_", none, [left, right] =>
    left.bind fun left => right.bind fun right =>
      (left.orders engine Ordering.isLT right).map .bool
  | "_<=_", none, [left, right] =>
    left.bind fun left => right.bind fun right =>
      (left.orders engine Ordering.isLE right).map .bool
  | "_>_", none, [left, right] =>
    left.bind fun left => right.bind fun right =>
      (left.orders engine Ordering.isGT right).map .bool
  | "_>=_", none, [left, right] =>
    left.bind fun left => right.bind fun right =>
      (left.orders engine Ordering.isGE right).map .bool
  | "@in", none, [left, right] =>
    left.bind fun left => right.bind fun right => (left.isIn engine right).map .bool
  | "_[_]", none, [container, key] =>
    container.bind fun container => key.bind fun key => container.index key
  | "contains", some container, [element] =>
    container.bind fun container => element.bind fun element =>
      (container.contains engine element).map .bool
  | "inFolder", some file, [folder] =>
    file.bind fun file => folder.bind fun folder =>
      match folder with
      | .string folder => some (.bool (inFolder file folder))
      | _ => none
  | name, target, args => engine.call name target args

/-- The value of a literal. -/
def literalValue (engine : Engine) : LiteralValue → CelValue
  | .null => .null
  | .boolean value => .bool value
  | .int value => .int value
  | .uint value => .uint value
  | .double value => .float value
  | .string value => .string value
  | .bytes value => .other (engine.bytes value)

/-- All results of a list of operands, if each has one. -/
def allResults : List (Option CelValue) → Option (List CelValue)
  | [] => some []
  | result :: rest => result.bind fun value => (allResults rest).map (value :: ·)

mutual

/-- The value of an expression under the bindings of its identifiers. -/
def eval (engine : Engine) (resolve : String → Option CelValue) : Expr → Option CelValue
  | .ident name => resolve name
  | .literal value => some (literalValue engine value)
  | .select operand field test =>
    match eval engine resolve operand with
    | some (.map members) =>
      if test then some (.bool (lookup members field).isSome) else lookup members field
    | some (.other id) => engine.select id field test
    | _ => none
  | .call funcName target args =>
    applyFunction engine funcName (evalTarget engine resolve target) (evalAll engine resolve args)
  | .list elements optionalIndices =>
    if optionalIndices.isEmpty then
      (allResults (evalAll engine resolve elements)).map .list
    else engine.list (evalAll engine resolve elements) optionalIndices
  | .other id => engine.other id

/-- The value of the receiver of a method. -/
def evalTarget (engine : Engine) (resolve : String → Option CelValue) :
    Option Expr → Option (Option CelValue)
  | none => none
  | some target => some (eval engine resolve target)

/-- The values of several expressions. -/
def evalAll (engine : Engine) (resolve : String → Option CelValue) :
    List Expr → List (Option CelValue)
  | [] => []
  | expression :: rest => eval engine resolve expression :: evalAll engine resolve rest

end

mutual

/-- `to_cel`. -/
def toCel : Value → CelValue
  | .null => .null
  | .bool value => .bool value
  | .number (.posInt value) => if value ≤ i64Max then .int value else .uint value
  | .number (.negInt value) => .int value
  | .number (.float value) => .float (.finite value)
  | .string value => .string value
  | .array items => .list (toCelItems items)
  | .object members => .map (toCelMembers members)

/-- The items of an array. -/
def toCelItems : List Value → List CelValue
  | [] => []
  | item :: rest => toCel item :: toCelItems rest

/-- The members of an object. -/
def toCelMembers : List (String × Value) → List (String × CelValue)
  | [] => []
  | (key, value) :: rest => (key, toCel value) :: toCelMembers rest

end

/-- `typed_scalar`: a text that is an instant becomes one. -/
def typedScalar (parseInstant : String → Option DateTime) : Value → CelValue
  | .string text =>
    match parseInstant text with
    | some instant => .timestamp instant
    | none => .string text
  | value => toCel value

/-- The conversion of a field, which may be declared to be an instant. -/
def typedField (parseInstant : String → Option DateTime) (dateTimes : List String) (name : String)
    (value : Value) : CelValue :=
  if name ∈ dateTimes then typedScalar parseInstant value else toCel value

/-- `typed_object`. -/
def typedObject (parseInstant : String → Option DateTime) (dateTimes : List String) :
    Value → CelValue
  | .object members =>
    .map (members.map fun (name, value) => (name, typedField parseInstant dateTimes name value))
  | value => toCel value

theorem toCelItems_eq_map (items : List Value) : toCelItems items = items.map toCel := by
  induction items with
  | nil => rfl
  | cons item rest ih => rw [toCelItems, ih, List.map_cons]

theorem lookup_toCelMembers (members : List (String × Value)) (key : String) :
    lookup (toCelMembers members) key = ((Value.object members).get key).map toCel := by
  change (List.find? _ _).map Prod.snd =
    ((members.find? fun member => member.1 = key).map Prod.snd).map toCel
  induction members with
  | nil => rfl
  | cons member rest ih =>
    rw [toCelMembers]
    by_cases here : member.1 = key
    · simp [here]
    · rw [List.find?_cons_of_neg (by simpa using here),
        List.find?_cons_of_neg (by simpa using here)]
      exact ih

theorem lookup_typed (parseInstant : String → Option DateTime) (dateTimes : List String)
    (members : List (String × Value)) (key : String) :
    lookup (members.map fun (name, value) => (name, typedField parseInstant dateTimes name value))
      key = ((Value.object members).get key).map (typedField parseInstant dateTimes key) := by
  change (List.find? _ _).map Prod.snd =
    ((members.find? fun member => member.1 = key).map Prod.snd).map _
  induction members with
  | nil => rfl
  | cons member rest ih =>
    rw [List.map_cons]
    by_cases here : member.1 = key
    · simp [here]
    · rw [List.find?_cons_of_neg (by simpa using here),
        List.find?_cons_of_neg (by simpa using here)]
      exact ih

end Mdbase.Cel
