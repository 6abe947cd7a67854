import Mdbase.Expressions.Reading
import Mdbase.Library.Fallible

/-!
# What the parser leaves over

Behind the expression the parser tolerates closing parentheses and commas, and numbers, which
are then missing from what it returns.
-/

namespace Mdbase.Expressions

open Library

variable {Number : Type} {parseNumber : Text → Option Number}

mutual

/-- The literals, the names and the operators of an expression, in their order. -/
def Expr.mentions : Expr Number → List (Token Number)
  | .null => [.null]
  | .bool value => [.bool value]
  | .number value => [.number value]
  | .str value => [.str value]
  | .ident name => [.ident name]
  | .dot base name => base.mentions ++ [.dot, .ident name]
  | .index base position => base.mentions ++ position.mentions
  | .binOp left operator right => left.mentions ++ operator.token :: right.mentions
  | .unaryOp .not operand => .not :: operand.mentions
  | .unaryOp .neg operand => .minus :: operand.mentions
  | .nullCoalesce left right => left.mentions ++ .questionQuestion :: right.mentions
  | .array elements => mentionsAll elements
  | .call callee arguments => callee.mentions ++ mentionsAll arguments
  | .conditional condition thenExpr elseExpr =>
    condition.mentions ++ .question :: (thenExpr.mentions ++ .colon :: elseExpr.mentions)

/-- What the items of a list mention. -/
def mentionsAll : List (Expr Number) → List (Token Number)
  | [] => []
  | first :: rest => first.mentions ++ mentionsAll rest

end

theorem mentionsAll_append (front back : List (Expr Number)) :
    mentionsAll (front ++ back) = mentionsAll front ++ mentionsAll back := by
  induction front with
  | nil => rfl
  | cons first rest ih => rw [List.cons_append, mentionsAll, mentionsAll, ih, List.append_assoc]

/-- What a phrase mentions. -/
def Phrase.mentions : Phrase Number → List (Token Number)
  | .ternary expr | .binary _ expr | .postfixed expr | .primary expr => expr.mentions
  | .items expressions => mentionsAll expressions

/-- Is the token a literal, a name or an operator? -/
def Token.isMentioned : Token Number → Bool
  | .lparen | .rparen | .lbracket | .rbracket | .comma | .eof => false
  | _ => true

variable {token : Token Number} {combine : Expr Number → Expr Number → Expr Number}

theorem mentions_combine {level : Nat}
    (operator : operatorsAt level token = some combine) (left right : Expr Number) :
    token.isMentioned = true ∧
      (combine left right).mentions = left.mentions ++ token :: right.mentions := by
  obtain ⟨symbol, rfl, rfl, rfl⟩ | ⟨rfl, rfl, rfl⟩ := operatorsAt_eq_some operator
  · exact ⟨by cases symbol <;> rfl, Expr.mentions.eq_8 ..⟩
  · exact ⟨rfl, Expr.mentions.eq_11 ..⟩

variable {phrase : Phrase Number} {input rest : List (Token Number)} {allowed : Nat}

theorem Derives.mentions (derives : Derives allowed phrase input rest) :
    input.filter Token.isMentioned = phrase.mentions ++ rest.filter Token.isMentioned := by
  induction derives with
  | @operator _ _ _ _ _ left right _ _ _ operator _ first second =>
    obtain ⟨mentioned, same⟩ := mentions_combine operator left right
    rw [first, List.filter_cons_of_pos mentioned, second]
    simp only [Phrase.mentions, same, List.append_assoc, List.cons_append]
  | itemAfter _ _ first second =>
    simp only [Phrase.mentions, Token.isMentioned, List.filter_cons, mentionsAll_append,
      mentionsAll] at *
    simp [first, second]
  | _ => simp_all [Phrase.mentions, Expr.mentions, mentionsAll, Token.isMentioned, List.filter_cons]

/-- Does every number stand where an operand may begin? It may not behind the end of an operand,
and not behind a comma outside of all brackets. -/
def strayFree : (nesting : Nat) → (ended : Bool) → List (Token Number) → Bool
  | _, _, [] => true
  | nesting, ended, token :: rest =>
    match token with
    | .number _ => !ended && strayFree nesting true rest
    | .null | .bool _ | .str _ | .ident _ | .eof => strayFree nesting true rest
    | .lparen | .lbracket => strayFree (nesting + 1) false rest
    | .rparen | .rbracket => strayFree (nesting - 1) true rest
    | .comma => strayFree nesting (nesting == 0) rest
    | _ => strayFree nesting false rest

theorem strayFree_operator {level nesting : Nat} {ended : Bool}
    (operator : operatorsAt level token = some combine) (rest : List (Token Number)) :
    strayFree nesting ended (token :: rest) = strayFree nesting false rest := by
  obtain ⟨symbol, rfl, rfl, rfl⟩ | ⟨rfl, rfl, rfl⟩ := operatorsAt_eq_some operator
  · cases symbol <;> rfl
  · rfl

theorem Derives.strayFree (derives : Derives allowed phrase input rest) :
    (nesting : Nat) → (∀ items, phrase = .items items → 0 < nesting) →
      strayFree nesting false input = Expressions.strayFree nesting true rest := by
  induction derives with
  | operator _ operator _ first second =>
    intro nesting _
    rw [first nesting nofun, strayFree_operator operator, second nesting nofun]
  | itemAfter _ _ first second =>
    intro nesting inside
    obtain ⟨nesting, rfl⟩ := Nat.exists_eq_add_one_of_ne_zero (inside _ rfl).ne'
    rw [first _ fun _ _ => Nat.succ_pos _]
    exact second _ nofun
  | _ => intros; simp_all [Expressions.strayFree]

theorem lexName_ne_eof (text : Text) : (@lexName Number text).1 ≠ .eof := by
  unfold lexName
  dsimp only
  split_ifs
  · split <;> nofun
  all_goals nofun

theorem readNumber_ok {text : Text}
    (read : readNumber parseNumber text = .ok token) : ∃ number, token = .number number := by
  unfold readNumber at read
  split at read <;> cases read
  exact ⟨_, rfl⟩

theorem lexToken_ne_eof {first : Char} {rest after : Text}
    (lexed : lexToken parseNumber first rest = .ok (token, after)) : token ≠ .eof := by
  have numeral {text : Text}
      {next : Token Number → Except (ParseError Number) (Token Number × Text)}
      (same : ∀ token result, next token = .ok result → result.1 = token)
      (read : (readNumber parseNumber text >>= next) = .ok (.eof, after)) : False := by
    obtain ⟨number, read, written⟩ := bind_eq_ok.mp read
    obtain ⟨_, rfl⟩ := readNumber_ok read
    cases same _ _ written
  rintro rfl
  unfold lexToken at lexed
  dsimp only at lexed
  split at lexed
  all_goals try cases lexed
  all_goals try
    split_ifs at lexed <;> cases lexed
  · split_ifs at lexed
    · exact numeral (fun _ _ same => by cases same; rfl) lexed
    · cases lexed
  · split_ifs at lexed
    · obtain ⟨_, _, same⟩ := bind_eq_ok.mp lexed
      cases same
    · exact numeral (fun _ _ same => by cases same; rfl) lexed
    · exact lexName_ne_eof _ (congrArg Prod.fst (Except.ok.inj lexed))

/-- The end is the last token, and no other. -/
def EndsOnce (tokens : List (Token Number)) : Prop :=
  ∃ front, tokens = front ++ [.eof] ∧ .eof ∉ front

variable {tokens : List (Token Number)}

theorem endsOnce_cons (other : token ≠ .eof) : EndsOnce (token :: tokens) ↔ EndsOnce tokens := by
  constructor
  · rintro ⟨front, same, absent⟩
    cases front with
    | nil => exact absurd (List.cons.inj same).1 other
    | cons first front =>
      obtain ⟨rfl, rfl⟩ := List.cons.inj same
      exact ⟨front, rfl, fun member => absent (List.mem_cons_of_mem _ member)⟩
  · rintro ⟨front, rfl, absent⟩
    exact ⟨token :: front, rfl, List.not_mem_cons_of_ne_of_not_mem other.symm absent⟩

theorem tokenizeFrom_endsOnce {fuel : Nat} {text : Text}
    (lexed : tokenizeFrom parseNumber fuel text = .ok tokens) : EndsOnce tokens := by
  induction fuel generalizing text tokens with
  | zero =>
    cases lexed
    exact ⟨[], rfl, List.not_mem_nil⟩
  | succ fuel ih =>
    rw [tokenizeFrom] at lexed
    split at lexed
    next =>
      cases lexed
      exact ⟨[], rfl, List.not_mem_nil⟩
    obtain ⟨⟨token, after⟩, here, lexed⟩ := bind_eq_ok.mp lexed
    obtain ⟨later, there, same⟩ := bind_eq_ok.mp lexed
    cases same
    exact (endsOnce_cons (lexToken_ne_eof here)).mpr (ih there)

theorem Derives.endsOnce (derives : Derives allowed phrase input rest) :
    EndsOnce input → EndsOnce rest := by
  induction derives with
  | @operator _ level _ _ _ _ _ token _ _ operator _ first second =>
    have other : token ≠ .eof := by
      rintro rfl
      exact nomatch (operatorsAt_eof (level + 1)).symm.trans operator
    exact fun ends => second ((endsOnce_cons other).mp (first ends))
  | conditional _ _ _ first second third =>
    intro ends
    exact third ((endsOnce_cons (by simp)).mp (second ((endsOnce_cons (by simp)).mp (first ends))))
  | _ => simp_all [endsOnce_cons]

/-- The tokens are those of the expression, and behind it are closing parentheses and commas
only. Each literal, name and operator among the tokens is one of the expression. -/
def FullyRead (tokens : List (Token Number)) (expr : Expr Number) : Prop :=
  ∃ allowed surplus, Derives allowed (.ternary expr) tokens (surplus ++ [.eof]) ∧
    (∀ token ∈ surplus, token = .rparen ∨ token = .comma) ∧
    tokens.filter Token.isMentioned = expr.mentions

theorem strayFree_surplus {surplus : List (Token Number)} (absent : .eof ∉ surplus)
    (trailing : ∀ token ∈ surplus, token.isTrailing = true) :
    strayFree 0 true (surplus ++ [.eof]) = true ↔
      ∀ token ∈ surplus, token = .rparen ∨ token = .comma := by
  induction surplus with
  | nil => simp [strayFree]
  | cons token surplus ih =>
    obtain ⟨other, absent⟩ := not_or.mp (mt List.mem_cons.mpr absent)
    obtain ⟨here, trailing⟩ := List.forall_mem_cons.mp trailing
    rw [List.forall_mem_cons, ← ih absent trailing]
    unfold Token.isTrailing at here
    split at here
    next => simp [strayFree]
    next => simp [strayFree]
    next => exact absurd rfl other
    next => simp [strayFree]
    next => cases here

theorem parseTokens_ok [DecidableEq Number] {maxDepth stack : Nat} {expr : Expr Number}
    (parsed : parseTokens maxDepth stack tokens = some (.ok expr)) (ends : EndsOnce tokens) :
    ∃ surplus, Derives maxDepth (.ternary expr) tokens (surplus ++ [.eof]) ∧ .eof ∉ surplus ∧
      ∀ token ∈ surplus, token.isTrailing = true := by
  have reads := (readsAll maxDepth stack).ternary ⟨tokens, 0⟩
  unfold parseTokens at parsed
  split at parsed
  next => cases parsed
  next => cases parsed
  rename_i read state outcome
  rw [Descent.Meets, outcome] at reads
  obtain ⟨-, derives⟩ := reads
  obtain ⟨surplus, same, absent⟩ := derives.endsOnce ends
  split_ifs at parsed with refused
  · cases parsed
  cases parsed
  refine ⟨surplus, same ▸ derives, absent, fun token member => ?_⟩
  rw [same] at refused
  by_contra other
  refine refused ⟨?_, ?_, ?_⟩
  · cases surplus with
    | nil => cases member
    | cons first surplus => exact fun ended => absent (ended ▸ List.mem_cons_self)
  · refine List.any_eq_true.mpr ⟨token, List.mem_append_left _ member, ?_⟩
    cases token <;> first | rfl | exact absurd rfl other
  · exact fun all => other (List.all_eq_true.mp all token (List.mem_append_left _ member))

theorem eq_some_ok_of_toOption {ε α : Type} {outcome : Option (Except ε α)} {value : α}
    (here : outcome.bind Except.toOption = some value) : outcome = some (.ok value) := by
  match outcome with
  | none => cases here
  | some (.error _) => cases here
  | some (.ok _) => cases here; rfl

/-- The parser has read all of a text, but for closing parentheses and commas at its end, exactly
when no number of the text stands alone. -/
theorem fullyRead_iff [DecidableEq Number] {input : Text} {maxDepth stack : Nat}
    {expr : Expr Number}
    (parsed : parseWithMaxDepth parseNumber input maxDepth stack = some (.ok expr)) :
    ∃ tokens, tokenize parseNumber input = .ok tokens ∧
      (FullyRead tokens expr ↔ strayFree 0 false tokens = true) := by
  unfold parseWithMaxDepth at parsed
  split at parsed
  next => cases parsed
  split at parsed
  next => cases parsed
  rename_i tokens lexed
  split at parsed
  next => cases parsed
  obtain ⟨surplus, derives, absent, trailing⟩ :=
    parseTokens_ok parsed (tokenizeFrom_endsOnce lexed)
  refine ⟨tokens, lexed, ?_, fun free => ?_⟩
  · rintro ⟨allowed, surplus, derives, closing, -⟩
    rw [derives.strayFree 0 nofun]
    refine (strayFree_surplus (fun member => ?_) fun token member => ?_).mpr closing
    · rcases closing _ member with same | same <;> cases same
    · rcases closing _ member with rfl | rfl <;> rfl
  · rw [derives.strayFree 0 nofun, strayFree_surplus absent trailing] at free
    refine ⟨maxDepth, surplus, derives, free, ?_⟩
    rw [derives.mentions, List.filter_eq_nil_iff.mpr, List.append_nil]
    · rfl
    · intro token member
      rcases List.mem_append.mp member with inside | last
      · rcases free token inside with rfl | rfl <;> nofun
      · cases List.mem_singleton.mp last
        nofun

/-- The filter `a.b` has been read, with a closing parenthesis and a comma behind it. -/
theorem fullyRead_surplus :
    ∃ expr : Expr Nat, expr.mentions = [.ident ['a'], .dot, .ident ['b']] ∧
      ∃ tokens, tokenize (fun _ => none) "a.b ) ,".toList = .ok tokens ∧
        (FullyRead tokens expr ↔ strayFree 0 false tokens = true) := by
  have parsed : ((@parseWithMaxDepth Nat _ (fun _ => none) "a.b ) ,".toList maxParseDepth
      9).bind Except.toOption).map Expr.mentions = some [.ident ['a'], .dot, .ident ['b']] := by
    decide +kernel
  obtain ⟨expr, here, mentions⟩ := Option.map_eq_some_iff.mp parsed
  exact ⟨expr, mentions, fullyRead_iff (eq_some_ok_of_toOption here)⟩

/-- The number behind a name is no part of the expression that is returned. -/
theorem number_left_over :
    let parseNumber : Text → Option Nat := fun text => some (Nat.ofDigitChars 10 text 0)
    ∃ expr tokens, parseWithMaxDepth parseNumber "done 5".toList maxParseDepth 9 = some (.ok expr) ∧
      tokenize parseNumber "done 5".toList = .ok tokens ∧ ¬FullyRead tokens expr := by
  intro parseNumber
  have parsed : ((parseWithMaxDepth parseNumber "done 5".toList maxParseDepth 9).bind
      Except.toOption).map Expr.mentions = some [.ident "done".toList] := by decide +kernel
  have lexed : (some (tokenize parseNumber "done 5".toList)).bind Except.toOption =
      some [.ident "done".toList, .number 5, .eof] := by decide +kernel
  obtain ⟨expr, here, mentions⟩ := Option.map_eq_some_iff.mp parsed
  refine ⟨expr, _, eq_some_ok_of_toOption here, Option.some.inj (eq_some_ok_of_toOption lexed), ?_⟩
  rintro ⟨_, _, _, _, same⟩
  rw [mentions] at same
  exact absurd same (by decide +kernel)

end Mdbase.Expressions
