import Mdbase.Expressions.Grammar

/-!
# What the parser reads

The parser returns what is derived from the tokens that it has read. Where its budget does not
last, the tokens lead into nested constructs: a third of the budget, at least.
-/

namespace Mdbase.Expressions

open Library

variable {Number : Type} {maxDepth : Nat}

/-- What a reader of phrases returns is derived from what it reads, and the tokens lead deeply
into a place when its budget does not last. -/
def Reads (maxDepth budget slack : Nat) {α : Type} (phrase : α → Phrase Number) (place : Place)
    (reader : Parse Number α) : Prop :=
  ∀ state, reader.Meets state
    (fun value later => later.depth = state.depth ∧
      Derives (maxDepth - state.depth) (phrase value) state.rest later.rest)
    (∃ counted uncounted, Enters (maxDepth - state.depth) counted uncounted place state.rest ∧
      budget < 3 * (counted + uncounted) + slack)

section Steps

variable {α β : Type} {rest : List (Token Number)} {depth : Nat}
  {returns : α → ParserState Number → Prop} {exhausts : Prop} {next : Token Number → Parse Number α}

theorem meets_peek (meets : (next (rest.headD .eof)).Meets ⟨rest, depth⟩ returns exhausts) :
    (peek >>= next).Meets ⟨rest, depth⟩ returns exhausts := meets

theorem meets_advance (meets : (next (rest.headD .eof)).Meets ⟨rest.tail, depth⟩ returns exhausts) :
    (advance >>= next).Meets ⟨rest, depth⟩ returns exhausts := meets

theorem meets_fail {failure : ParseError Number} {state : ParserState Number} :
    (Descent.fail failure : Parse Number α).Meets state returns exhausts := trivial

theorem exists_eq_cons {token : Token Number} (here : rest.headD .eof = token)
    (other : token ≠ .eof) : ∃ middle, rest = token :: middle := by
  cases rest with
  | nil => exact absurd here.symm other
  | cons first middle => exact ⟨middle, by rw [← here]; rfl⟩

theorem meets_expect [DecidableEq Number] {token : Token Number} (other : token ≠ .eof)
    {next : Unit → Parse Number α}
    (meets : ∀ middle, rest = token :: middle → (next ()).Meets ⟨middle, depth⟩ returns exhausts) :
    (expect token >>= next).Meets ⟨rest, depth⟩ returns exhausts := by
  refine (show Descent.Meets _ _ (fun _ later => ∃ middle, rest = token :: middle ∧
    later = ⟨middle, depth⟩) exhausts from meets_advance ?_).bind ?_
  · split
    next here =>
      obtain ⟨middle, rfl⟩ := exists_eq_cons here other
      exact ⟨middle, rfl, rfl⟩
    next => exact meets_fail
  · rintro _ _ ⟨middle, here, rfl⟩
    exact meets middle here

/-- A nested parser spends one level and gives it back. -/
theorem meets_nested {inner : Parse Number α}
    (meets : ∀ allowed, maxDepth - depth = allowed + 1 → maxDepth - (depth + 1) = allowed →
      inner.Meets ⟨rest, depth + 1⟩ (fun value later => later.depth = depth + 1 ∧
        returns value ⟨later.rest, depth⟩) exhausts) :
    (nested maxDepth inner).Meets ⟨rest, depth⟩ returns exhausts := by
  refine (show Descent.Meets _ _ (fun _ later => depth + 1 ≤ maxDepth ∧
    later = ⟨rest, depth + 1⟩) exhausts from ?_).bind ?_
  · unfold Descent.Meets checkDepth
    dsimp only
    by_cases exceeded : depth + 1 > maxDepth
    · rw [if_pos exceeded]
      trivial
    · rw [if_neg exceeded]
      exact ⟨Nat.le_of_not_lt exceeded, rfl⟩
  · rintro _ _ ⟨within, rfl⟩
    refine (meets (maxDepth - (depth + 1)) (by omega) rfl).bind ?_
    rintro value ⟨rest, _⟩ ⟨rfl, kept⟩
    exact kept

/-- What is read in sequence derives one phrase behind the other. -/
theorem Reads.bind {budget slack : Nat} {phrase : β → Phrase Number} {place : Place}
    {reader : Parse Number β} (reads : Reads maxDepth budget slack phrase place reader)
    {next : β → Parse Number α}
    (deep : ∀ counted uncounted, Enters (maxDepth - depth) counted uncounted place rest →
      budget < 3 * (counted + uncounted) + slack → exhausts)
    (goesOn : ∀ value middle, Derives (maxDepth - depth) (phrase value) rest middle →
      (next value).Meets ⟨middle, depth⟩ returns exhausts) :
    (reader >>= next).Meets ⟨rest, depth⟩ returns exhausts := by
  refine ((reads ⟨rest, depth⟩).imp (fun _ _ => id) ?_).bind ?_
  · rintro ⟨counted, uncounted, enters, far⟩
    exact deep counted uncounted enters far
  · rintro value ⟨middle, _⟩ ⟨rfl, derives⟩
    exact goesOn value middle derives

end Steps

section Lists

variable {operand parseTernary parsePrimary : Parse Number (Expr Number)} {budget slack : Nat}

theorem Reads.operators {level : Nat}
    (reads : Reads maxDepth budget slack (.binary level) (.binary level) operand) :
    Reads maxDepth budget slack (.binary (level + 1)) (.binary (level + 1))
      (parseOperators (operatorsAt (level + 1)) operand) := by
  rintro ⟨input, depth⟩
  refine reads.bind (fun _ _ enters deep => ⟨_, _, enters.tighter, deep⟩) ?_
  intro left middle derives
  refine Descent.Meets.loop (fun left later => later.depth = depth ∧
    Derives (maxDepth - depth) (.binary (level + 1) left) input later.rest)
    ⟨rfl, derives.tighter⟩ ?_
  rintro left ⟨middle, _⟩ ⟨rfl, derives⟩
  refine meets_peek ?_
  split
  next => exact ⟨rfl, derives⟩
  rename_i combine operator
  cases middle with
  | nil => exact nomatch (operatorsAt_eof _).symm.trans operator
  | cons token after =>
    refine meets_advance (reads.bind ?_ ?_)
    · exact fun _ _ enters deep => ⟨_, _, .operator derives operator enters, deep⟩
    · intro right rest derives'
      exact ⟨⟨rfl, .operator derives operator derives'⟩, Nat.lt_succ_of_lt derives'.length_lt⟩

theorem Reads.binary (reads : Reads maxDepth budget slack (.binary 0) (.binary 0) operand) :
    (level : Nat) →
      Reads maxDepth budget slack (.binary level) (.binary level) (parseBinary operand level)
  | 0 => reads
  | level + 1 => (reads.binary level).operators

variable [DecidableEq Number]

theorem Reads.parseItems (reads : Reads maxDepth budget slack .ternary .ternary parseTernary)
    (trailing : Bool) :
    (parseItems parseTernary trailing).Meets ⟨input, depth⟩
      (fun items later => later.depth = depth ∧ ∃ rest,
        Derives (maxDepth - depth) (.items items) input rest ∧
          (rest = later.rest ∨
            trailing = true ∧ rest = .comma :: later.rest ∧ later.rest.headD .eof = .rbracket))
      (∃ counted uncounted, Enters (maxDepth - depth) counted uncounted (.items trailing) input ∧
        budget < 3 * (counted + uncounted) + slack) := by
  refine reads.bind (fun _ _ enters deep => ⟨_, _, enters.item, deep⟩) ?_
  intro first middle derives
  refine Descent.Meets.loop (fun items later => later.depth = depth ∧
    Derives (maxDepth - depth) (.items items) input later.rest) ⟨rfl, derives.item⟩ ?_
  rintro items ⟨middle, _⟩ ⟨rfl, derives⟩
  refine meets_peek ?_
  split
  next comma =>
    obtain ⟨after, rfl⟩ := exists_eq_cons comma nofun
    refine meets_advance (meets_peek ?_)
    split
    next ended => exact ⟨rfl, _, derives, .inr ⟨ended.1, rfl, ended.2⟩⟩
    rename_i more
    refine reads.bind ?_ ?_
    · exact fun _ _ enters deep => ⟨_, _, .itemAfter derives more enters, deep⟩
    · intro item rest derives'
      exact ⟨⟨rfl, .itemAfter derives derives'⟩, Nat.lt_succ_of_lt derives'.length_lt⟩
  next => exact ⟨rfl, _, derives, .inl rfl⟩

theorem Reads.parseCall {input middle : List (Token Number)} {depth : Nat}
    (reads : Reads maxDepth budget 3 .ternary .ternary parseTernary) {callee : Expr Number}
    (base : Derives (maxDepth - depth) (.postfixed callee) input (.lparen :: middle)) :
    (parseCall maxDepth parseTernary callee).Meets ⟨.lparen :: middle, depth⟩
      (fun value later => later.depth = depth ∧
        Derives (maxDepth - depth) (.postfixed value) input later.rest ∧
          later.rest.length < middle.length + 1)
      (∃ counted uncounted, Enters (maxDepth - depth) counted uncounted .postfixed input ∧
        budget < 3 * (counted + uncounted) + 1) := by
  refine meets_nested fun allowed one inner => meets_advance ?_
  rw [one] at base ⊢
  refine (show Descent.Meets _ _ (fun arguments later => later.depth = depth + 1 ∧
    (arguments = [] ∧ later.rest = middle ∨
      Derives allowed (.items arguments) middle later.rest)) _ from ?_).bind ?_
  · refine meets_peek ?_
    split
    next => exact ⟨rfl, .inl ⟨rfl, rfl⟩⟩
    rename_i some_
    refine (reads.parseItems false).imp ?_ ?_
    · rintro arguments ⟨rest, _⟩ ⟨rfl, _, derives, rfl | ⟨none, -⟩⟩
      · exact ⟨rfl, .inr (inner ▸ derives)⟩
      · cases none
    · rintro ⟨counted, uncounted, enters, deep⟩
      rw [inner] at enters
      exact ⟨counted + 1, uncounted, .call base some_ enters, by omega⟩
  · rintro arguments ⟨rest, _⟩ ⟨rfl, outcome⟩
    refine meets_expect (by simp) fun after same => ⟨rfl, rfl, ?_⟩
    rcases outcome with ⟨rfl, rfl⟩ | derives
    · cases same
      exact ⟨base.callEmpty, Nat.lt_succ_of_lt (Nat.lt_succ_self _)⟩
    · cases same
      exact ⟨base.call derives, Nat.lt_succ_of_lt (Nat.lt_of_succ_lt derives.length_lt)⟩

/-- The postfix parser reads the postfix grammar if the parsers it calls read theirs. -/
theorem Reads.parsePostfix (reads : Reads maxDepth budget 3 .ternary .ternary parseTernary)
    (readsPrimary : Reads maxDepth budget 1 .primary .primary parsePrimary) :
    Reads maxDepth budget 1 .postfixed .postfixed
      (parsePostfix maxDepth parseTernary parsePrimary) := by
  rintro ⟨input, depth⟩
  refine readsPrimary.bind (fun _ _ enters deep => ⟨_, _, enters.ofPrimary, deep⟩) ?_
  intro first middle derives
  refine Descent.Meets.loop (fun expr later => later.depth = depth ∧
    Derives (maxDepth - depth) (.postfixed expr) input later.rest) ⟨rfl, derives.ofPrimary⟩ ?_
  rintro expr ⟨middle, _⟩ ⟨rfl, derives⟩
  refine meets_peek ?_
  split
  next dot =>
    obtain ⟨after, rfl⟩ := exists_eq_cons dot nofun
    refine meets_advance (meets_advance ?_)
    split
    next name found =>
      obtain ⟨after, rfl⟩ := exists_eq_cons found nofun
      refine meets_peek ?_
      split
      next called =>
        obtain ⟨after, rfl⟩ := exists_eq_cons called nofun
        refine (reads.parseCall derives.dot).bind ?_
        rintro value ⟨rest, _⟩ ⟨rfl, derives', shorter⟩
        exact ⟨⟨rfl, derives'⟩, Nat.lt_succ_of_lt (Nat.lt_succ_of_lt shorter)⟩
      next => exact ⟨⟨rfl, derives.dot⟩, Nat.lt_succ_of_lt (Nat.lt_succ_self _)⟩
    next => exact meets_fail
  next bracket =>
    obtain ⟨after, rfl⟩ := exists_eq_cons bracket nofun
    refine meets_advance (reads.bind ?_ ?_)
    · intro counted uncounted enters deep
      exact ⟨counted, uncounted + 1, .index derives enters, by omega⟩
    · intro position rest derives'
      refine meets_expect (by simp) fun last same => ?_
      cases same
      exact ⟨⟨rfl, .index derives derives'⟩,
        Nat.lt_succ_of_lt (Nat.lt_of_succ_lt derives'.length_lt)⟩
  next called =>
    obtain ⟨after, rfl⟩ := exists_eq_cons called nofun
    refine (reads.parseCall derives).bind ?_
    rintro value ⟨rest, _⟩ ⟨rfl, derives', shorter⟩
    exact ⟨⟨rfl, derives'⟩, shorter⟩
  next => exact ⟨rfl, derives⟩

end Lists

section Nesting

variable [DecidableEq Number]

/-- What the functions of the parser that call themselves read. -/
structure ReadsAll (Number : Type) [DecidableEq Number] (maxDepth stack : Nat) : Prop where
  ternary : Reads maxDepth stack 3 .ternary .ternary (@parseTernary Number _ maxDepth stack)
  unary : Reads maxDepth stack 2 (.binary 0) (.binary 0) (@parseUnary Number _ maxDepth stack)
  primary : Reads maxDepth stack 1 .primary .primary (@parsePrimary Number _ maxDepth stack)

theorem ReadsAll.parseTernary {stack : Nat} (reads : ReadsAll Number maxDepth stack) :
    Reads maxDepth (stack + 1) 3 .ternary .ternary
      (@Expressions.parseTernary Number _ maxDepth (stack + 1)) := by
  rintro ⟨input, depth⟩
  rw [Expressions.parseTernary, parseNullCoalesce_eq]
  refine (reads.unary.binary 7).bind ?_ ?_
  · exact fun counted uncounted enters deep => ⟨counted, uncounted, enters.ofBinary, by omega⟩
  intro condition middle derives
  refine meets_peek ?_
  split
  next question =>
    obtain ⟨first, rfl⟩ := exists_eq_cons question nofun
    refine meets_nested fun allowed one inner => meets_advance ?_
    rw [one] at derives ⊢
    refine reads.ternary.bind ?_ fun thenExpr rest thenDerives =>
      meets_expect (by simp) fun second same => ?_
    · rw [inner]
      intro counted uncounted enters deep
      exact ⟨counted + 1, uncounted, .thenExpr derives enters, by omega⟩
    cases same
    rw [inner] at thenDerives
    refine reads.ternary.bind ?_ fun elseExpr rest elseDerives => ⟨rfl, rfl, ?_⟩
    · rw [inner]
      intro counted uncounted enters deep
      exact ⟨counted + 1, uncounted, .elseExpr derives thenDerives enters, by omega⟩
    exact .conditional derives thenDerives (inner ▸ elseDerives)
  next => exact ⟨rfl, derives.ofBinary⟩

theorem ReadsAll.parseUnary {stack : Nat} (reads : ReadsAll Number maxDepth stack) :
    Reads maxDepth (stack + 1) 2 (.binary 0) (.binary 0)
      (@Expressions.parseUnary Number _ maxDepth (stack + 1)) := by
  rintro ⟨input, depth⟩
  rw [Expressions.parseUnary]
  refine meets_peek ?_
  split
  next token =>
    obtain ⟨rest, rfl⟩ := exists_eq_cons token nofun
    refine meets_advance (reads.unary.bind ?_ fun _ _ derives => ⟨rfl, derives.not⟩)
    exact fun counted uncounted enters deep => ⟨counted, uncounted + 1, enters.not, by omega⟩
  next token =>
    obtain ⟨rest, rfl⟩ := exists_eq_cons token nofun
    refine meets_advance (reads.unary.bind ?_ fun _ _ derives => ⟨rfl, derives.neg⟩)
    exact fun counted uncounted enters deep => ⟨counted, uncounted + 1, enters.neg, by omega⟩
  refine (reads.ternary.parsePostfix reads.primary ⟨input, depth⟩).imp ?_ ?_
  · exact fun _ _ ⟨same, derives⟩ => ⟨same, derives.ofPostfix⟩
  · rintro ⟨counted, uncounted, enters, deep⟩
    exact ⟨counted, uncounted, enters.ofPostfix, by omega⟩

/-- The primary parser reads the primary grammar. -/
theorem ReadsAll.parsePrimary {stack : Nat} (reads : ReadsAll Number maxDepth stack) :
    Reads maxDepth (stack + 1) 1 .primary .primary
      (@Expressions.parsePrimary Number _ maxDepth (stack + 1)) := by
  rintro ⟨input, depth⟩
  rw [Expressions.parsePrimary]
  refine meets_peek ?_
  split
  next token =>
    obtain ⟨rest, rfl⟩ := exists_eq_cons token nofun
    exact ⟨rfl, .null⟩
  next value token =>
    obtain ⟨rest, rfl⟩ := exists_eq_cons token nofun
    exact ⟨rfl, .bool value⟩
  next value token =>
    obtain ⟨rest, rfl⟩ := exists_eq_cons token nofun
    exact ⟨rfl, .number value⟩
  next value token =>
    obtain ⟨rest, rfl⟩ := exists_eq_cons token nofun
    exact ⟨rfl, .str value⟩
  next name token =>
    obtain ⟨rest, rfl⟩ := exists_eq_cons token nofun
    exact ⟨rfl, .ident name⟩
  next token =>
    obtain ⟨rest, rfl⟩ := exists_eq_cons token nofun
    refine meets_nested fun allowed one inner => meets_advance ?_
    rw [one]
    refine reads.ternary.bind ?_ fun expr middle derives =>
      meets_expect (by simp) fun after same => ⟨rfl, rfl, ?_⟩
    · rw [inner]
      exact fun counted uncounted enters deep =>
        ⟨counted + 1, uncounted, enters.group, by omega⟩
    cases same
    exact .group (inner ▸ derives)
  next token =>
    obtain ⟨rest, rfl⟩ := exists_eq_cons token nofun
    refine meets_advance ?_
    refine (show Descent.Meets _ _ (fun elements (later : ParserState Number) =>
      later.depth = depth ∧ ∀ after, later.rest = .rbracket :: after →
        Derives (maxDepth - depth) (.primary (.array elements)) (.lbracket :: rest) after)
      _ from ?_).bind ?_
    · refine meets_peek ?_
      split
      next => exact ⟨rfl, fun after same => by cases same; exact .noElements⟩
      rename_i some_
      refine (reads.ternary.parseItems true).imp ?_ ?_
      · rintro elements ⟨later, _⟩ ⟨rfl, _, derives, rfl | ⟨-, rfl, -⟩⟩
        · exact ⟨rfl, fun after same => by cases same; exact derives.elements⟩
        · exact ⟨rfl, fun after same => by cases same; exact derives.elementsComma⟩
      · rintro ⟨counted, uncounted, enters, deep⟩
        exact ⟨counted, uncounted + 1, .elements some_ enters, by omega⟩
    · rintro elements ⟨later, _⟩ ⟨rfl, derives⟩
      exact meets_expect (by simp) fun after same => ⟨rfl, derives after same⟩
  next => exact meets_fail

theorem readsAll (maxDepth : Nat) : (stack : Nat) → ReadsAll Number maxDepth stack
  | 0 => ⟨fun _ => ⟨0, 0, .start, by omega⟩, fun _ => ⟨0, 0, .start, by omega⟩,
      fun _ => ⟨0, 0, .start, by omega⟩⟩
  | stack + 1 =>
    let reads := readsAll maxDepth stack
    ⟨reads.parseTernary, reads.parseUnary, reads.parsePrimary⟩

end Nesting

end Mdbase.Expressions
