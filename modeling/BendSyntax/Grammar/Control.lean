import BendSyntax.Grammar.CaseBlocks

/-!
# Constructs that begin with a keyword

Choices, matches, and the keywords that take operands and a body.
-/

namespace BendSyntax.Grammar

open Reading

variable (deep : Deeper)

/-- A statement behind a keyword and a colon. -/
def branch (keyword : Keyword) : Reading TermId := do
  let _ ← expect (.word keyword)
  let _ ← expect (.mark .colon)
  deep.statement

/-- The condition behind a keyword, and the statement behind its colon. -/
def condition : Reading (TermId × TermId) := do
  let _ ← advance
  let cond ← deep.term
  let _ ← expect (.mark .colon)
  return (cond, ← deep.statement)

/-- `if c: a else: b` -/
def ifElse (start : Span) : Reading TermId := do
  let (cond, yes) ← condition deep
  let no ← branch deep .else_
  close start (.ite cond yes no)

/-- `fork c: a elif: b else: d` -/
def fork (start : Span) : Reading TermId := do
  let (cond, yes) ← condition deep
  let elifs ← collectWhile (sees (.word .elif)) (branch deep .elif)
  let no ← branch deep .else_
  close start (.fork cond yes elifs no)

/-- The slot of a scrutinee: one operand, so that the next can follow. -/
def Slot.scrutinee (s : Slot) : Slot := { s with noJuxtapose := true, usage := .term }

/-- `x` or `x = e` behind `with` -/
def withClause : Reading (WithClause TermId) := do
  let (name, span) ← identifier
  if ← accept (.mark .equals) then
    let value ← within Slot.scrutinee (deep.expr .check)
    return ⟨name, span, some value⟩
  else return ⟨name, span, none⟩

def withClauses : Reading (List (WithClause TermId)) := do
  let _ ← expect (.word .with_)
  collectThrough (withClause deep) (sees .ident)

/-- `case p q: body`, possibly with a semicolon. -/
def matchCase : Reading (MatchCase TermId PatternId) := do
  let start ← expect (.word .case)
  let patterns ← oneUpTo (.mark .colon) deep.pattern
  let _ ← expect (.mark .colon)
  let body ← deep.statement
  let _ ← accept (.mark .semicolon)
  return ⟨patterns, body, ← since start⟩

/-- `match s t: with x = e case p q: body` -/
def matchOn (start : Span) : Reading TermId := do
  let _ ← advance
  let scrutinees ← within Slot.scrutinee (oneUpTo (.mark .colon) (deep.expr .check))
  let _ ← expect (.mark .colon)
  let withs ← collectWhile (sees (.word .with_)) (withClauses deep)
  let cases ← collectWhile (sees (.word .case)) (matchCase deep)
  require (!cases.isEmpty) "`case`"
  close start (.matchOn scrutinees withs.flatten cases)

/-- `use x = e; body` -/
def useIn (start : Span) : Reading TermId := do
  let _ ← advance
  let (name, _) ← identifier
  let _ ← expect (.mark .equals)
  let value ← deep.term
  let _ ← expect (.mark .semicolon)
  let body ← deep.statement
  close start (.useIn name value body)

/-- `rewrite e body` or `log e body`, possibly with a semicolon between the two. -/
def operandAndBody (start : Span) (term : TermId → TermId → Term TermId PatternId) :
    Reading TermId := do
  let _ ← advance
  let first ← deep.expr .suffix
  let _ ← accept (.mark .semicolon)
  let body ← deep.statement
  close start (term first body)

/-- A keyword or sign in front of one expression. -/
def before (start : Span) (min : Level) (term : TermId → Term TermId PatternId) :
    Reading TermId := do
  let _ ← advance
  let arg ← deep.expr min
  close start (term arg)

/-- `~e`, or `~e{...}` where braces may follow. -/
def tilde (start : Span) : Reading TermId := do
  let _ ← advance
  let scrutinee ← within (fun s => { s with noBrace := true }) (deep.expr .operand)
  let s ← slot
  let c ← cursor
  if !s.noBrace && c.kind = .mark .leftBrace && !c.atCaseHead s then
    let block ← caseBlock deep
    close start (.tildeMatch scrutinee block)
  else close start (.tilde scrutinee)

end BendSyntax.Grammar
