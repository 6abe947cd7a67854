import Mdbase.Expressions.Reading

/-!
# How deep the parser nests

The limit of nested constructs refuses what it counts, and changes nothing else.
-/

namespace Mdbase.Expressions

open Library Descent

variable {Number : Type}

/-- The parser comes to one outcome under two limits, unless the lower one is exceeded. -/
abbrev SameBut {α : Type} (reader other : Parse Number α) : Prop :=
  Agrees (· = .depthExceeded) reader other

section Limits

variable {α : Type} {lower upper stack : Nat} {ternary other : Parse Number (Expr Number)}

theorem SameBut.nested {inner inner' : Parse Number α} (le : lower ≤ upper)
    (same : SameBut inner inner') : SameBut (nested lower inner) (nested upper inner') := by
  refine Agrees.bind (fun state outcome here within => ?_) fun _ =>
    same.bind fun _ => .refl _
  unfold checkDepth at *
  split_ifs at here with exceeded
  · cases here
    exact absurd rfl (within _ rfl)
  · rw [if_neg (by omega)]
    exact here

theorem SameBut.binary (same : SameBut ternary other) :
    (level : Nat) → SameBut (parseBinary ternary level) (parseBinary other level)
  | 0 => same
  | level + 1 => (same.binary level).bind fun first => Agrees.loop (fun left => by
      refine (Agrees.refl peek).bind fun token => ?_
      split
      · exact .refl _
      · exact (Agrees.refl _).bind fun _ => (same.binary level).bind fun _ => .refl _) first

variable [DecidableEq Number]

theorem SameBut.parseItems (same : SameBut ternary other) (trailing : Bool) :
    SameBut (parseItems ternary trailing) (parseItems other trailing) := by
  refine Agrees.bind same fun first => Agrees.loop (fun items => ?_) [first]
  refine (Agrees.refl peek).bind fun token => ?_
  split
  · refine (Agrees.refl _).bind fun _ => (Agrees.refl _).bind fun next => ?_
    split_ifs
    · exact .refl _
    · exact same.bind fun _ => .refl _
  · exact .refl _

theorem SameBut.parseCall (le : lower ≤ upper) (same : SameBut ternary other)
    (callee : Expr Number) :
    SameBut (parseCall lower ternary callee) (parseCall upper other callee) := by
  refine SameBut.nested le ((Agrees.refl _).bind fun _ => Agrees.bind ?_ fun _ => .refl _)
  refine (Agrees.refl peek).bind fun token => ?_
  split_ifs
  · exact .refl _
  · exact same.parseItems false

theorem SameBut.parsePostfix {primary primary' : Parse Number (Expr Number)} (le : lower ≤ upper)
    (same : SameBut ternary other) (samePrimary : SameBut primary primary') :
    SameBut (parsePostfix lower ternary primary) (parsePostfix upper other primary') := by
  refine Agrees.bind samePrimary fun first => Agrees.loop (fun expr => ?_) first
  refine (Agrees.refl peek).bind fun token => ?_
  split
  · refine (Agrees.refl _).bind fun _ => (Agrees.refl _).bind fun name => ?_
    split
    · refine (Agrees.refl _).bind fun next => ?_
      split_ifs
      · exact (SameBut.parseCall le same _).bind fun _ => .refl _
      · exact .refl _
    · exact .refl _
  · exact (Agrees.refl _).bind fun _ => same.bind fun _ => .refl _
  · exact (SameBut.parseCall le same _).bind fun _ => .refl _
  · exact .refl _

/-- The functions that call themselves agree under two limits. -/
theorem sameBut (le : lower ≤ upper) : (stack : Nat) →
    SameBut (@parseTernary Number _ lower stack) (parseTernary upper stack) ∧
      SameBut (@parseUnary Number _ lower stack) (parseUnary upper stack) ∧
      SameBut (@parsePrimary Number _ lower stack) (parsePrimary upper stack)
  | 0 => ⟨.of_exhausted, .of_exhausted, .of_exhausted⟩
  | stack + 1 => by
    obtain ⟨ternary, unary, primary⟩ := sameBut le stack
    refine ⟨?_, ?_, ?_⟩
    · rw [parseTernary, parseTernary]
      refine (unary.binary 7).bind fun expr => (Agrees.refl peek).bind fun token => ?_
      split_ifs
      · exact SameBut.nested le ((Agrees.refl _).bind fun _ => ternary.bind fun _ =>
          (Agrees.refl _).bind fun _ => ternary.bind fun _ => .refl _)
      · exact .refl _
    · rw [parseUnary, parseUnary]
      refine (Agrees.refl peek).bind fun token => ?_
      split
      · exact (Agrees.refl _).bind fun _ => unary.bind fun _ => .refl _
      · exact (Agrees.refl _).bind fun _ => unary.bind fun _ => .refl _
      · exact SameBut.parsePostfix le ternary primary
    · rw [parsePrimary, parsePrimary]
      refine (Agrees.refl peek).bind fun token => ?_
      split
      all_goals first
        | exact .refl _
        | exact SameBut.nested le ((Agrees.refl _).bind fun _ => ternary.bind fun _ => .refl _)
        | skip
      refine (Agrees.refl _).bind fun _ => Agrees.bind ?_ fun _ => .refl _
      refine (Agrees.refl peek).bind fun token => ?_
      split_ifs
      · exact .refl _
      · exact ternary.parseItems true

/-- A larger limit only accepts more: what the parser makes of an input under a limit, unless that
refuses it, it makes of it under every larger limit. -/
theorem parseWithMaxDepth_of_le {parseNumber : Text → Option Number} {input : Text}
    (le : lower ≤ upper) {outcome : Except (ParseError Number) (Expr Number)}
    (found : parseWithMaxDepth parseNumber input lower stack = some outcome)
    (within : outcome ≠ .error .depthExceeded) :
    parseWithMaxDepth parseNumber input upper stack = some outcome := by
  unfold parseWithMaxDepth at *
  split_ifs at found ⊢ with blank
  · exact found
  cases lexed : tokenize parseNumber input with
  | error failure => rwa [lexed] at found
  | ok tokens =>
    rw [lexed] at found
    dsimp only at found ⊢
    split_ifs at found with parentheses
    · cases found
      exact absurd rfl within
    rw [if_neg (by omega)]
    unfold parseTokens at found ⊢
    cases parsed : parseTernary lower stack ⟨tokens, 0⟩ with
    | none =>
      rw [parsed] at found
      cases found
    | some result =>
      rw [parsed] at found
      rw [(sameBut le stack).1 _ _ parsed fun failure refused limit => ?_]
      · exact found
      · subst refused limit
        cases found
        exact within rfl

theorem parseWithMaxDepth_of_le_group :
    parseWithMaxDepth (fun _ => none : Text → Option Nat) "(a)".toList 64 9 =
      some (.ok (.ident ['a'])) :=
  parseWithMaxDepth_of_le (show 1 ≤ 64 by decide) (by rfl) (by simp)

end Limits

end Mdbase.Expressions
