import BendSyntax.Grammar.Binders
import BendSyntax.Grammar.Control
import BendSyntax.Grammar.Operands

/-!
# Expressions

An expression begins with an operand or with a form that has a keyword or a sign in
front. Then operators are taken as long as they bind tightly enough; application by
juxtaposition is one of them.
-/

namespace BendSyntax.Grammar

open Reading

variable (deep : Deeper)

/-- What an expression begins with. -/
def leading : Reading TermId := do
  let c ← cursor
  let start := c.span
  match c.kind with
  | .word .not => before deep start .operand (.op1 .not)
  | .mark .minus => before deep start .operand (.op1 .neg)
  | .mark .tilde => tilde deep start
  | .word .lambda => lambda deep start
  | .word .mu => fixedPoint deep start
  | .word .all => all deep start
  | .word .any => any deep start
  | .word .if_ => ifElse deep start
  | .word .fork => fork deep start
  | .word .match_ => matchOn deep start
  | .word .use => useIn deep start
  | .word .rewrite => operandAndBody deep start .rewrite
  | .word .log => operandAndBody deep start .log
  | .word .trust => before deep start .check .trust
  | .word .absurd => before deep start .check .absurd
  | .word .return_ => before deep start .check .ret
  | .word .sub => before deep start .operand .sub
  | _ =>
      let head ← operand deep
      suffixes deep start head

/-- An argument that begins here, a call behind a blank, or a brace. -/
def juxtaposed? (func : TermId) (start : Span) : Reading (Option TermId) := do
  let c ← cursor
  let s ← slot
  if s.noJuxtapose then return none
  else if c.kind = .mark .leftParen && !c.isTight && (← bareName func) then
    some <$> call deep func start false
  else if c.kind = .mark .leftBrace then
    if s.noLooseBrace || !c.bracesOperand s then return none
    else some <$> braceSuffix deep func start c.isTight
  else if c.startsArgument s then
    let arg ← deep.expr .suffix
    some <$> close start (.app func arg)
  else return none

/-- The term that an operator builds. -/
def infixTerm (form : InfixForm) (lhs rhs : TermId) : Term TermId PatternId :=
  match form with
  | .op op => .op2 op lhs rhs
  | .arrow => .arrow lhs rhs
  | .check => .check lhs rhs
  | .sigma => .sigma lhs rhs

/-- The right operand of an operator; behind `::` stands a type. -/
def rightOperand (op : Infix) : Reading TermId :=
  match op.form with
  | .check => withUsage .type (deep.expr op.next)
  | _ => deep.expr op.next

/-- The operator at the cursor, if it binds tightly enough and the slot admits it. -/
def operator? (c : Cursor) (s : Slot) (min : Level) : Option Infix :=
  match Infix.ofKind? c.kind with
  | some op => if op.level < min || (op.form = .sigma && s.noDot) then none else some op
  | none => none

def operatorRound (min : Level) (start : Span) (lhs : TermId) : Reading (Round TermId) := do
  match operator? (← cursor) (← slot) min with
  | some op =>
      let _ ← advance
      let rhs ← rightOperand deep op
      .more <$> close start (infixTerm op.form lhs rhs)
  | none => return .done lhs

/-- One more argument or operator behind `lhs`. -/
def climbRound (min : Level) (start : Span) (lhs : TermId) : Reading (Round TermId) := do
  if (← cursor).atHead (← slot) then return .done lhs
  else if min ≤ Level.application then
    match ← juxtaposed? deep lhs start with
    | some app => return .more app
    | none => operatorRound deep min start lhs
  else operatorRound deep min start lhs

/-- An expression whose operators bind at `min` or more tightly. -/
def expression (min : Level) : Reading TermId := do
  let start ← here
  let lhs ← leading deep
  loop (climbRound deep min start) lhs

end BendSyntax.Grammar
