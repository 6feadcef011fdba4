import BendSyntax.Grammar.CaseBlocks

/-!
# Constructs that bind names

Lambdas, fixed points, and the quantifiers `all` and `any`.
-/

namespace BendSyntax.Grammar

open Reading

variable (deep : Deeper)

/-- A parameter in parentheses: a name with its type, or patterns. -/
def parenthesisedParam (c : Cursor) : Reading (Param TermId PatternId) := do
  let _ ← advance
  if c.kindAt 1 = .ident ∧ c.kindAt 2 = .mark .colon then
    let binder ← delimited (binder deep.type)
    let _ ← expect (.mark .rightParen)
    return .typed binder
  else
    let patterns ← delimited (separated (.mark .rightParen) deep.pattern)
    require (!patterns.isEmpty) "pattern"
    let _ ← expect (.mark .rightParen)
    return .patterns patterns

def param : Reading (Param TermId PatternId) := do
  let c ← cursor
  match c.kind with
  | .ident =>
      let span ← advance
      if ← accept (.mark .colon) then
        let type ← deep.binderType
        return .typed ⟨c.lexeme, span, type⟩
      else return .name c.lexeme span
  | .mark .leftParen => parenthesisedParam deep c
  | _ => unexpected "lambda parameter or `.`"

/-- `λx (y: A) (p, q). body` or `λ{...}` -/
def lambda (start : Span) : Reading TermId := do
  let _ ← advance
  if ← sees (.mark .leftBrace) then
    let block ← caseBlock deep
    close start (.lamMatch block)
  else
    let params ← oneUpTo (.mark .dot) (param deep)
    let _ ← expect (.mark .dot)
    let body ← deep.statement
    close start (.lam params body)

/-- `μ f. body` -/
def fixedPoint (start : Span) : Reading TermId := do
  let _ ← advance
  let (name, _) ← identifier
  let _ ← expect (.mark .dot)
  let body ← deep.statement
  close start (.fix name body)

/-- The type behind the dot of a quantifier. -/
def quantified : Reading TermId := do
  let _ ← expect (.mark .dot)
  withUsage .type (deep.expr .arrow)

/-- `all x: A, y: B. C` -/
def all (start : Span) : Reading TermId := do
  let _ ← advance
  let binders ← commaList (binder deep.binderType)
  let body ← quantified deep
  close start (.all binders body)

/-- `any x: A. B` -/
def any (start : Span) : Reading TermId := do
  let _ ← advance
  let bound ← binder deep.binderType
  let body ← quantified deep
  close start (.any bound body)

end BendSyntax.Grammar
