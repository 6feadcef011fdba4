import BendSyntax.Proofs.Plain.Parser

/-! Plain expressions are made of names, literals, operators, applications and brackets. What the
grammar reads of them depends on nothing but the pieces of the text, so it can be written as a
parser. The parser of the next level is only used behind at least one piece; so an expression is
what its production makes of itself. -/

namespace BendSyntax

/-- What matters about a term that has been read. -/
structure Part where
  dump : String
  /-- It is a name that does not stand in parentheses. -/
  bare : Bool
  deriving Repr, DecidableEq

namespace Plain

open BendSyntax.Parser
open Reading (Round)

def part (term : Term String String) : Part := ⟨term.dump, false⟩

section Productions

variable (deep : Level → Parser Part)

def inner : Parser String := (·.dump) <$> deep .check

/-! ## Suffixes -/

def callArgs : Parser (List String) := do
  let args ← separated (.mark .rightParen) (inner deep)
  expect (.mark .rightParen)
  return args

def call (head : Part) : Parser Part := do
  advance
  let args ← callArgs deep
  return part (.call head.dump args true)

def typeArgs : Parser (List String) := do
  advance
  let args ← commaList ((·.dump) <$> deep .additive)
  closeAngle
  return args

/-- `(x)` behind type arguments; otherwise no operand may begin there. -/
def valueArgs? : Parser (Option (List String)) := do
  if ← looks fun ps => Pieces.kind ps = .mark .leftParen && Pieces.tight ps then
    advance
    some <$> callArgs deep
  else if ← looks Pieces.startsOperand then fail
  else return none

/-- `<A, B>(x)` or `<A, B>` -/
def genericArgs : Parser (List String × Option (List String)) := do
  let args ← typeArgs deep
  return (args, ← valueArgs? deep)

def generic (head : Part) : List String × Option (List String) → Part
  | (args, some values) => part (.genericCall head.dump args values)
  | (args, none) => part (.tyApp head.dump args)

/-- `{a == b}` or `{a != b}` -/
def equality : Parser (String × Bool × String) := do
  advance
  let lhs ← deep .comparison
  match Grammar.negated? (← kind) with
  | some negated =>
      advance
      let rhs ← deep .comparison
      expect (.mark .rightBrace)
      return (lhs.dump, negated, rhs.dump)
  | none => fail

def implicitArgs : Parser (List String) := do
  advance
  let args ← separated (.mark .rightBrace) (inner deep)
  expect (.mark .rightBrace)
  return args

def refl : Parser Part := do
  advance
  advance
  advance
  return part .refl

/-- A brace behind `head`. -/
def braces (head : Part) : Parser Part := do
  if ← looks Pieces.atRefl then
    let arg ← refl
    return part (.app head.dump arg.dump)
  else
    match ← attempt (equality deep) with
    | some (lhs, negated, rhs) => return part (.eql head.dump lhs rhs negated)
    | none => return part (.implicit head.dump (← implicitArgs deep) true)

/-- `[]` -/
def listSuffix : Parser Unit := do
  if ← looks fun ps => Pieces.kind ps.tail = .mark .rightBracket then
    advance
    advance
  else fail

/-- One suffix that touches the operand, if there is one. -/
def suffixRound (head : Part) : Parser (Round Part) := do
  if !(← looks Pieces.tight) then return .done head
  match ← kind with
  | .mark .leftParen => .more <$> call deep head
  | .mark .less =>
      if head.bare then
        match ← attempt (genericArgs deep) with
        | some args => return .more (generic head args)
        | none => return .done head
      else return .done head
  | .mark .leftBracket =>
      match ← attempt listSuffix with
      | some _ => return .more (part (.listType head.dump))
      | none => return .done head
  | .mark .leftBrace => .more <$> braces deep head
  | _ => return .done head

def suffixes (head : Part) : Parser Part := loop (suffixRound deep) head

/-! ## Operands -/

def identifier : Parser String := do
  let lexeme ← asks Pieces.lexeme
  expect .ident
  return lexeme

def literal (kind : TokenKind) : Parser Part := do
  match Literal.ofLexeme? kind (← asks Pieces.lexeme).toList with
  | some value =>
      advance
      return part (.lit value)
  | none => fail

/-- `@Tag` or `@Tag{a, b}` -/
def constructor : Parser Part := do
  advance
  let name ← identifier
  if ← sees (.mark .leftBrace) then return part (.ctor name (← implicitArgs deep))
  else return part (.tag name)

/-- `()`, `(a, b)`, or an expression in parentheses, which is no bare name. -/
def parentheses : Parser Part := do
  advance
  if ← accept (.mark .rightParen) then return part .unit
  else
    let first ← deep .check
    if ← accept (.mark .comma) then
      let rest ← callArgs deep
      return part (.tuple (first.dump :: rest))
    else
      expect (.mark .rightParen)
      return { first with bare := false }

/-- `[]` or `[a, b]` -/
def listTerm : Parser Part := do
  advance
  if ← accept (.mark .rightBracket) then return part .emptyList
  else
    let items ← separated (.mark .rightBracket) (inner deep)
    expect (.mark .rightBracket)
    return part (.list items)

def operand : Parser Part := do
  match ← kind with
  | .ident => return ⟨← identifier, true⟩
  | .mark .star =>
      advance
      return part .era
  | .mark .atSign => constructor deep
  | .mark .leftParen => parentheses deep
  | .mark .leftBracket => listTerm deep
  | .mark .leftBrace => if ← looks Pieces.atRefl then refl else fail
  | k => if Grammar.isLiteral k then literal k else fail

/-! ## Expressions -/

def signed (op : UnaryOp) : Parser Part := do
  advance
  let arg ← deep .operand
  return part (.op1 op arg.dump)

/-- What an expression begins with. -/
def leading : Parser Part := do
  match ← kind with
  | .word .not => signed deep .not
  | .mark .minus => signed deep .neg
  | _ =>
      let head ← operand deep
      suffixes deep head

/-- An argument that begins here, a call behind a blank, or a brace. -/
def juxtaposed? (func : Part) : Parser (Option Part) := do
  if ← looks fun ps => Pieces.kind ps = .mark .leftParen && !Pieces.tight ps && func.bare then
    some <$> call deep func
  else if ← sees (.mark .leftBrace) then some <$> braces deep func
  else if ← looks fun ps => Cursor.opensArgument (Pieces.kind ps) then
    let arg ← deep .suffix
    return some (part (.app func.dump arg.dump))
  else return none

/-- What an operator makes of the dumps of its operands. -/
def infixDumps (form : InfixForm) (lhs rhs : String) : Term String String :=
  match form with
  | .op op => .op2 op lhs rhs
  | .arrow => .arrow lhs rhs
  | .check => .check lhs rhs
  | .sigma => .sigma lhs rhs

def infixPart (form : InfixForm) (lhs rhs : Part) : Part := part (infixDumps form lhs.dump rhs.dump)

/-- The operator next, if it binds tightly enough. -/
def operator? (k : TokenKind) (min : Level) : Option Infix :=
  match Infix.ofKind? k with
  | some op => if op.level < min then none else some op
  | none => none

def operatorRound (min : Level) (lhs : Part) : Parser (Round Part) := do
  match operator? (← kind) min with
  | some op =>
      advance
      let rhs ← deep op.next
      return .more (infixPart op.form lhs rhs)
  | none => return .done lhs

/-- One more argument or operator behind `lhs`. -/
def climbRound (min : Level) (lhs : Part) : Parser (Round Part) := do
  if min ≤ Level.application then
    match ← juxtaposed? deep lhs with
    | some app => return .more app
    | none => operatorRound deep min lhs
  else operatorRound deep min lhs

def expression (min : Level) : Parser Part := do
  let lhs ← leading deep
  loop (climbRound deep min) lhs

end Productions

def nested : Nat → Level → Parser Part
  | 0, _ => fail
  | n + 1, min => expression (nested n) min

/-- An expression whose operators bind at `min` or more tightly. It is nested less deeply than it
has pieces. -/
def expr (min : Level) : Parser Part where
  run ps := (nested (ps.length + 1) min).run ps
  suffix h := (nested _ min).suffix h

/-! ## Unfolding -/

section Below

variable {deep deep' : Level → Parser Part} {n : Nat}
  (h : ∀ min, Below n (deep min) (deep' min))
include h

theorem below_callArgs : Below n (callArgs deep) (callArgs deep') :=
  .bind (.separated ((h _).map _) _) fun _ => .refl _ _

theorem below_call (head : Part) : Below (n + 1) (call deep head) (call deep' head) :=
  .behind_advance fun _ => .bind (below_callArgs h) fun _ => .refl _ _

theorem below_genericArgs : Below (n + 1) (genericArgs deep) (genericArgs deep') := by
  refine .bind (.behind_advance fun _ => .bind (.commaList ((h _).map _)) fun _ => .refl _ _)
    fun _ => .bind (.bind (.refl _ _) fun _ => .ite (fun _ => ?_) fun _ => .refl _ _) fun _ => .refl _ _
  exact .behind_advance fun _ => (below_callArgs h).map _

theorem below_equality : Below (n + 1) (equality deep) (equality deep') := by
  refine .behind_advance fun _ => .bind (h _) fun _ => .bind (.refl _ _) fun k => ?_
  cases Grammar.negated? k with
  | none => exact .refl _ _
  | some negated => exact .bind (.refl _ _) fun _ => .bind (h _) fun _ => .refl _ _

theorem below_implicitArgs : Below (n + 1) (implicitArgs deep) (implicitArgs deep') :=
  .behind_advance fun _ => .bind (.separated ((h _).map _) _) fun _ => .refl _ _

theorem below_braces (head : Part) : Below (n + 1) (braces deep head) (braces deep' head) := by
  refine .bind (.refl _ _) fun _ => .ite (fun _ => .refl _ _) fun _ =>
    .bind (below_equality h).attempt fun found => ?_
  cases found with
  | none => exact .bind (below_implicitArgs h) fun _ => .refl _ _
  | some sides => exact .refl _ _

theorem below_suffixRound (head : Part) :
    Below (n + 1) (suffixRound deep head) (suffixRound deep' head) := by
  refine .bind (.refl _ _) fun _ => .ite (fun _ => .refl _ _) fun _ => .bind (.refl _ _) fun k => ?_
  split
  · exact (below_call h head).map _
  · exact .ite (fun _ => .bind (below_genericArgs h).attempt fun _ => .refl _ _) fun _ => .refl _ _
  · exact .refl _ _
  · exact (below_braces h head).map _
  · exact .refl _ _

theorem below_constructor : Below (n + 1) (constructor deep) (constructor deep') :=
  .behind_advance fun _ => .bind (.refl _ _) fun _ => .bind (.refl _ _) fun _ =>
    .ite (fun _ => .bind ((below_implicitArgs h).mono (Nat.le_succ n)) fun _ => .refl _ _) fun _ =>
      .refl _ _

theorem below_parentheses : Below (n + 1) (parentheses deep) (parentheses deep') :=
  .behind_advance fun _ => .bind (.refl _ _) fun _ => .ite (fun _ => .refl _ _) fun _ =>
    .bind (h _) fun _ => .bind (.refl _ _) fun _ =>
      .ite (fun _ => .bind (below_callArgs h) fun _ => .refl _ _) fun _ => .refl _ _

theorem below_listTerm : Below (n + 1) (listTerm deep) (listTerm deep') :=
  .behind_advance fun _ => .bind (.refl _ _) fun _ => .ite (fun _ => .refl _ _) fun _ =>
    .bind (.separated ((h _).map _) _) fun _ => .refl _ _

theorem below_operand : Below (n + 1) (operand deep) (operand deep') := by
  refine .bind (.refl _ _) fun k => ?_
  split
  · exact .refl _ _
  · exact .refl _ _
  · exact below_constructor h
  · exact below_parentheses h
  · exact below_listTerm h
  · exact .refl _ _
  · exact .refl _ _

theorem below_signed (op : UnaryOp) : Below (n + 1) (signed deep op) (signed deep' op) :=
  .behind_advance fun _ => .bind (h _) fun _ => .refl _ _

theorem below_leading : Below (n + 1) (leading deep) (leading deep') := by
  refine .bind (.refl _ _) fun k => ?_
  split
  · exact below_signed h _
  · exact below_signed h _
  · exact .bind (below_operand h) fun head => .loop (below_suffixRound h) head

theorem below_juxtaposed? (func : Part) :
    Below n (juxtaposed? deep func) (juxtaposed? deep' func) := by
  have hle := Nat.le_succ n
  refine .bind (.refl _ _) fun _ => .ite (fun _ => ?_) fun _ => .bind (.refl _ _) fun _ =>
    .ite (fun _ => ?_) fun _ => .bind (.refl _ _) fun _ => .ite (fun _ => ?_) fun _ => .refl _ _
  · exact ((below_call h func).mono hle).map _
  · exact ((below_braces h func).mono hle).map _
  · exact .bind (h _) fun _ => .refl _ _

theorem below_operatorRound (min : Level) (lhs : Part) :
    Below n (operatorRound deep min lhs) (operatorRound deep' min lhs) := by
  refine .bind (.refl _ _) fun k => ?_
  cases operator? k min with
  | none => exact .refl _ _
  | some op => exact .bind (.refl _ _) fun _ => .bind (h _) fun _ => .refl _ _

theorem below_climbRound (min : Level) (lhs : Part) :
    Below n (climbRound deep min lhs) (climbRound deep' min lhs) := by
  refine .ite (fun _ => .bind (below_juxtaposed? h lhs) fun found => ?_) fun _ =>
    below_operatorRound h min lhs
  cases found with
  | none => exact below_operatorRound h min lhs
  | some app => exact .refl _ _

end Below

theorem takes_identifier : Takes identifier :=
  .bind' _ fun _ => .bind (.bind' _ fun _ => .ite (fun _ => takes_advance) fun _ => takes_fail) _

theorem takes_operand (deep : Level → Parser Part) : Takes (operand deep) := by
  refine .bind' _ fun k => ?_
  split
  · exact takes_identifier.bind _
  · exact takes_advance.bind _
  · exact takes_advance.bind _
  · exact takes_advance.bind _
  · exact takes_advance.bind _
  · exact .bind' _ fun _ => .ite (fun _ => takes_advance.bind _) fun _ => takes_fail
  · refine .ite (fun _ => .bind' _ fun lexeme => ?_) fun _ => takes_fail
    split
    · exact takes_advance.bind _
    · exact takes_fail

theorem takes_leading (deep : Level → Parser Part) : Takes (leading deep) := by
  refine .bind' _ fun k => ?_
  split
  · exact takes_advance.bind _
  · exact takes_advance.bind _
  · exact (takes_operand deep).bind _

/-- Rounds behind `a`, each of which takes something or is the last and does nothing. -/
def Rounds (r : Parser (Round Part)) (a : Part) : Prop :=
  ∀ ps round qs, r.run ps = some (round, qs) →
    (round = .done a ∧ qs = ps) ∨ ((∃ b, round = .more b) ∧ qs.length < ps.length)

theorem Rounds.done (a : Part) : Rounds (pure (.done a)) a := by
  rintro ps _ _ ⟨⟩
  exact .inl ⟨rfl, rfl⟩

theorem Rounds.more {r : Parser Part} (h : Takes r) (a : Part) : Rounds (.more <$> r) a := by
  intro ps round qs hrun
  obtain ⟨b, rs, hr, hpure⟩ := run_bind_eq_some.mp hrun
  cases hpure
  exact .inr ⟨⟨b, rfl⟩, h _ _ _ hr⟩

theorem Rounds.asks {α : Type} {g : List Piece → α} {f : α → Parser (Round Part)} {a : Part}
    (h : ∀ b, Rounds (f b) a) : Rounds (asks g >>= f) a :=
  fun ps => h (g ps) ps

theorem Rounds.ite {c : Prop} [Decidable c] {r r' : Parser (Round Part)} {a : Part}
    (h : Rounds r a) (h' : Rounds r' a) : Rounds (if c then r else r') a := by
  split
  · exact h
  · exact h'

/-- What was declined is gone on from. -/
theorem Rounds.attempt {α : Type} {r : Parser α} {f : Option α → Parser (Round Part)} {a : Part}
    (h : Takes r) (hsome : ∀ b, ∃ c, f (some b) = pure (.more c)) (hnone : Rounds (f none) a) :
    Rounds (attempt r >>= f) a := by
  intro ps round qs hrun
  obtain ⟨found, rs, hfound, hnext⟩ := run_bind_eq_some.mp hrun
  cases found with
  | none =>
      obtain ⟨-, rfl⟩ := eq_of_attempt_none hfound
      exact hnone _ _ _ hnext
  | some b =>
      obtain ⟨c, hc⟩ := hsome b
      rw [hc] at hnext
      cases hnext
      exact .inr ⟨⟨c, rfl⟩, h _ _ _ (eq_of_attempt_some hfound)⟩

theorem takes_braces (deep : Level → Parser Part) (head : Part) : Takes (braces deep head) := by
  refine .bind' _ fun _ => .ite (fun _ => (takes_advance.bind _).bind _) fun _ => ?_
  intro ps a qs h
  obtain ⟨found, rs, hfound, hnext⟩ := run_bind_eq_some.mp h
  cases found with
  | none =>
      obtain ⟨-, rfl⟩ := eq_of_attempt_none hfound
      exact (takes_advance.bind _).bind _ _ _ _ hnext
  | some sides =>
      cases hnext
      exact takes_advance.bind _ _ _ _ (eq_of_attempt_some hfound)

theorem rounds_suffixRound (deep : Level → Parser Part) (head : Part) :
    Rounds (suffixRound deep head) head := by
  refine .asks fun _ => .ite (.done _) (.asks fun k => ?_)
  split
  · exact .more (takes_advance.bind _) _
  · refine .ite (.attempt ((takes_advance.bind _).bind _) (fun _ => ⟨_, rfl⟩) (.done _)) (.done _)
  · refine .attempt (.bind' _ fun _ => .ite (fun _ => takes_advance.bind _) fun _ => takes_fail)
      (fun _ => ⟨_, rfl⟩) (.done _)
  · exact .more (takes_braces _ _) _
  · exact .done _

theorem rounds_operatorRound (deep : Level → Parser Part) (min : Level) (lhs : Part) :
    Rounds (operatorRound deep min lhs) lhs := by
  refine .asks fun k => ?_
  cases operator? k min with
  | none => exact .done _
  | some op =>
      intro ps round qs h
      obtain ⟨_, rs, hadvance, h⟩ := run_bind_eq_some.mp h
      obtain ⟨rhs, us, hrhs, hpure⟩ := run_bind_eq_some.mp h
      cases hpure
      refine .inr ⟨⟨_, rfl⟩, ?_⟩
      exact Nat.lt_of_le_of_lt (Parser.suffix _ hrhs).length_le (takes_advance _ _ _ hadvance)

/-- What is applied to an argument takes it. -/
theorem juxtaposed?_cases {deep : Level → Parser Part} (h : ∀ min, Takes (deep min)) {func : Part}
    {ps qs : List Piece} {found : Option Part} (hrun : (juxtaposed? deep func).run ps = some (found, qs)) :
    (found = none ∧ qs = ps) ∨ ((∃ app, found = some app) ∧ qs.length < ps.length) := by
  have hmap {r : Parser Part} (hr : Takes r) (hrun : (some <$> r).run ps = some (found, qs)) :
      (∃ app, found = some app) ∧ qs.length < ps.length := by
    obtain ⟨b, rs, hb, hpure⟩ := run_bind_eq_some.mp hrun
    cases hpure
    exact ⟨⟨b, rfl⟩, hr _ _ _ hb⟩
  obtain ⟨_, _, ⟨⟩, hrun⟩ := run_bind_eq_some.mp hrun
  split at hrun
  · exact .inr (hmap (takes_advance.bind _) hrun)
  · obtain ⟨_, _, ⟨⟩, hrun⟩ := run_bind_eq_some.mp hrun
    split at hrun
    · exact .inr (hmap (takes_braces _ _) hrun)
    · obtain ⟨_, _, ⟨⟩, hrun⟩ := run_bind_eq_some.mp hrun
      split at hrun
      · obtain ⟨b, rs, hb, hpure⟩ := run_bind_eq_some.mp hrun
        cases hpure
        exact .inr ⟨⟨_, rfl⟩, h _ _ _ _ hb⟩
      · cases hrun
        exact .inl ⟨rfl, rfl⟩

theorem rounds_climbRound {deep : Level → Parser Part} (h : ∀ min, Takes (deep min)) (min : Level)
    (lhs : Part) : Rounds (climbRound deep min lhs) lhs := by
  refine .ite ?_ (rounds_operatorRound deep min lhs)
  intro ps round qs hrun
  obtain ⟨found, rs, hfound, hnext⟩ := run_bind_eq_some.mp hrun
  obtain ⟨rfl, rfl⟩ | ⟨⟨app, rfl⟩, hlt⟩ := juxtaposed?_cases h hfound
  · exact rounds_operatorRound deep min lhs _ _ _ hnext
  · cases hnext
    exact .inr ⟨⟨app, rfl⟩, hlt⟩

/-- The next level is only used behind what an expression begins with. -/
theorem below_expression {deep deep' : Level → Parser Part} {n : Nat}
    (h : ∀ min, Below n (deep min) (deep' min)) (min : Level) :
    Below (n + 1) (expression deep min) (expression deep' min) :=
  .behind (takes_leading deep) (below_leading h) fun lhs => .loop (below_climbRound h min) lhs

/-- As many levels as there are pieces are enough. -/
theorem below_nested {n k l : Nat} (hk : n ≤ k) (hl : n ≤ l) (min : Level) :
    Below n (nested k min) (nested l min) := by
  induction n generalizing k l min with
  | zero => exact fun _ h => absurd h (Nat.not_lt_zero _)
  | succ n ih =>
      obtain ⟨k, rfl⟩ := Nat.exists_eq_add_of_le' hk
      obtain ⟨l, rfl⟩ := Nat.exists_eq_add_of_le' hl
      exact below_expression (ih (Nat.le_add_left n k) (Nat.le_add_left n l)) min

theorem run_expr (min : Level) (ps : List Piece) :
    (expr min).run ps = (expression expr min).run ps := by
  refine below_expression (fun min qs hqs => ?_) min ps (Nat.lt_succ_self _)
  exact below_nested hqs (Nat.le_refl _) min qs (Nat.lt_succ_self _)

end Plain

end BendSyntax
