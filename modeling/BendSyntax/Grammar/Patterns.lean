import BendSyntax.Grammar.Deeper

/-!
# Reading patterns

Patterns stand in the cases of a `match` and in the parameters of a lambda.
-/

namespace BendSyntax.Grammar

open Reading

variable (deep : Deeper)

/-- The value of a literal token at the cursor. -/
def literal (kind : TokenKind) : Reading Literal := do
  let c ← cursor
  match c.token.literal? with
  | some value => return value
  | none => fail (.invalid s!"malformed {kind.name}" c.span)

/-- A pattern in parentheses; a comma makes it a tuple. -/
def parenthesised (start : Span) : Reading PatternId := do
  let _ ← advance
  let (items, comma) ← loop (fun (acc, comma) => do
    if ← sees (.mark .rightParen) then return .done (acc, comma)
    let acc := acc.push (← deep.pattern)
    if ← accept (.mark .comma) then return .more (acc, true) else return .done (acc, false))
    (#[], false)
  require (!items.isEmpty) "pattern"
  let _ ← expect (.mark .rightParen)
  match items.toList, comma with
  | [single], false => closePattern start (.paren single)
  | items, _ => closePattern start (.tuple items)

/-- `@Tag` or `@Tag{p, q}` -/
def constructorPattern (start : Span) : Reading PatternId := do
  let _ ← advance
  let (name, _) ← identifier
  if ← accept (.mark .leftBrace) then
    let args ← separated (.mark .rightBrace) deep.pattern
    let _ ← expect (.mark .rightBrace)
    closePattern start (.ctor name args)
  else closePattern start (.tag name)

/-- `[]` or `[p, q]` -/
def listPattern (start : Span) : Reading PatternId := do
  let _ ← advance
  if ← accept (.mark .rightBracket) then closePattern start .emptyList
  else
    let items ← separated (.mark .rightBracket) deep.pattern
    let _ ← expect (.mark .rightBracket)
    closePattern start (.list items)

/-- `Nn + rest` -/
def successor (start : Span) : Reading PatternId := do
  match Literal.nat? (← cursor).lexeme.toList with
  | some n =>
      let _ ← advance
      let _ ← advance
      closePattern start (.succ n (← deep .patternAtom))
  | none => fail (.invalid "malformed natural literal" start)

def literalPattern (start : Span) (kind : TokenKind) : Reading PatternId := do
  let value ← literal kind
  let _ ← advance
  closePattern start (.lit value)

/-- A pattern without `<>`. -/
def patternAtom : Reading PatternId := do
  let c ← cursor
  let start := c.span
  match c.kind with
  | .ident =>
      let _ ← advance
      closePattern start (.var c.lexeme)
  | .nat =>
      if c.kindAt 1 = .mark .plus then successor deep start
      else literalPattern start .nat
  | .int => literalPattern start .int
  | .float => literalPattern start .float
  | .char => literalPattern start .char
  | .str => literalPattern start .str
  | .word .true => literalPattern start (.word .true)
  | .word .false => literalPattern start (.word .false)
  | .mark .atSign => constructorPattern deep start
  | .mark .ampersand =>
      let _ ← advance
      let (name, _) ← identifier
      closePattern start (.sym name)
  | .mark .leftParen => parenthesised deep start
  | .mark .leftBracket => listPattern deep start
  | _ => unexpected "pattern"

/-- A pattern; `<>` nests to the right. -/
def pattern : Reading PatternId := do
  let start ← here
  let head ← patternAtom deep
  if ← accept (.mark .cons) then
    let tail ← deep.pattern
    closePattern start (.cons head tail)
  else return head

end BendSyntax.Grammar
