import BendSyntax.Grammar.Deeper

/-!
# What directly follows an operand

Calls, type arguments, list types and braces. Type arguments are tried: if they fail,
or if an operand follows them, the angle bracket is a comparison. Braces are tried as an
equality type and otherwise hold implicit arguments.
-/

namespace BendSyntax.Grammar

open Reading

variable (deep : Deeper)

/-- The arguments of a call behind its opening bracket. -/
def callArgs : Reading (List TermId) := do
  let args ← delimited (separated (.mark .rightParen) deep.inner)
  let _ ← expect (.mark .rightParen)
  return args

/-- A call of `head`, at its opening bracket. -/
def call (head : TermId) (start : Span) (tight : Bool) : Reading TermId := do
  let _ ← advance
  let args ← callArgs deep
  close start (.call head args tight)

/-- The arguments in `f<A, B>`, at the opening bracket. -/
def typeArgs : Reading (List TermId) := do
  let _ ← advance
  let args ← delimited (withUsage .type (commaList (deep.expr .additive)))
  let _ ← closeAngle
  return args

/-- `<A, B>(x)` or `<A, B>` with no operand behind it. -/
def genericArgs : Reading (Option (List TermId × Option (List TermId))) := do
  let args ← typeArgs deep
  let c ← cursor
  if c.kind = .mark .leftParen && c.isTight then
    let _ ← advance
    return some (args, some (← callArgs deep))
  else if c.startsOperand (← slot) then return none
  else return some (args, none)

/-- Type arguments, unless the bracket is a comparison. -/
def genericArgs? : Reading (Option (List TermId × Option (List TermId))) :=
  attempt .generic (genericArgs deep)

/-- `f<A, B>(x)` or `F<A, B>` -/
def generic? (head : TermId) (start : Span) : Reading (Option TermId) := do
  match ← genericArgs? deep with
  | some (args, some values) => some <$> close start (.genericCall head args values)
  | some (args, none) => some <$> close start (.tyApp head args)
  | none => return none

/-- Whether a mark between the sides of an equality negates it. -/
def negated? : TokenKind → Option Bool
  | .mark .eqEq => some false
  | .mark .notEq => some true
  | _ => none

/-- The sides of an equality and whether it is negated. -/
def equalitySides : Reading (Option (TermId × Bool × TermId)) := do
  let lhs ← deep.expr .comparison
  match negated? (← kind) with
  | some negated =>
      let _ ← advance
      return some (lhs, negated, ← deep.expr .comparison)
  | none => return none

/-- `{a == b}` or `{a != b}` -/
def equality : Reading (Option (TermId × Bool × TermId)) := do
  let _ ← advance
  match ← delimited (withUsage .term (equalitySides deep)) with
  | some sides => if ← accept (.mark .rightBrace) then return some sides else return none
  | none => return none

/-- An equality, if there is nothing else in the braces. -/
def equality? : Reading (Option (TermId × Bool × TermId)) := attempt .equality (equality deep)

/-- `{==}` at the cursor. -/
def refl : Reading TermId := do
  let start ← here
  let _ ← advance
  let _ ← advance
  let _ ← advance
  close start .refl

/-- A brace behind `head`: an argument `{==}`, an equality type or implicit arguments. -/
def braceSuffix (head : TermId) (start : Span) (tight : Bool) : Reading TermId := do
  if (← cursor).atRefl then
    let arg ← refl
    close start (.app head arg)
  else
    match ← equality? deep with
    | some (lhs, negated, rhs) => close start (.eql head lhs rhs negated)
    | none =>
        let _ ← expect (.mark .leftBrace)
        let args ← delimited (withUsage .term (separated (.mark .rightBrace) deep.inner))
        let _ ← expect (.mark .rightBrace)
        close start (.implicit head args tight)

/-- One suffix that touches the operand, if there is one. -/
def suffixRound (start : Span) (head : TermId) : Reading (Round TermId) := do
  let c ← cursor
  let s ← slot
  if !c.isTight || c.atCaseHead s then return .done head
  match c.kind with
  | .mark .leftParen => .more <$> call deep head start true
  | .mark .less =>
      if ← bareName head then
        match ← generic? deep head start with
        | some term => return .more term
        | none => return .done head
      else return .done head
  | .mark .leftBracket =>
      if c.kindAt 1 = .mark .rightBracket then
        let _ ← advance
        let _ ← advance
        .more <$> close start (.listType head)
      else return .done head
  | .mark .leftBrace =>
      if c.bracesOperand s then .more <$> braceSuffix deep head start true
      else return .done head
  | _ => return .done head

/-- All suffixes that touch the operand. -/
def suffixes (start : Span) (head : TermId) : Reading TermId :=
  loop (suffixRound deep start) head

end BendSyntax.Grammar
