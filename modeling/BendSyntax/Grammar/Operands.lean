import BendSyntax.Grammar.Patterns
import BendSyntax.Grammar.Suffixes

/-!
# Operands

Names, literals, constants, and what begins with a bracket or a mark of its own.
-/

namespace BendSyntax.Grammar

open Reading

variable (deep : Deeper)

/-- A path such as `List/map`, cut at the slashes. -/
def cutAtSlashes : List Char → List String
  | [] => [""]
  | c :: cs =>
      match cutAtSlashes cs with
      | s :: path => if c = '/' then "" :: s :: path else (String.singleton c ++ s) :: path
      | [] => []

theorem cutAtSlashes_ne_nil (cs : List Char) : cutAtSlashes cs ≠ [] := by
  induction cs with
  | nil => simp [cutAtSlashes]
  | cons c cs ih =>
      unfold cutAtSlashes
      split
      · split <;> simp
      · exact absurd ‹_› ih

theorem intercalate_cutAtSlashes (cs : List Char) :
    "/".intercalate (cutAtSlashes cs) = String.ofList cs := by
  refine String.toList_inj.mp ?_
  rw [String.toList_intercalate, String.toList_ofList]
  induction cs with
  | nil => rfl
  | cons c cs ih =>
      obtain ⟨s, path, hpath⟩ := List.exists_cons_of_ne_nil (cutAtSlashes_ne_nil cs)
      rw [hpath] at ih
      simp only [cutAtSlashes, hpath]
      split
      · rename_i hslash
        simp only [List.map_cons, List.intercalate_cons_cons] at ih ⊢
        simp [ih, hslash]
      · cases path with
        | nil => simpa using ih
        | cons t path =>
            simp only [List.map_cons, List.intercalate_cons_cons] at ih ⊢
            simp [← ih]

def nameTerm (lexeme : String) : Term TermId PatternId :=
  if lexeme.toList.contains '/' then .qualified (cutAtSlashes lexeme.toList) else .var lexeme

/-- A name is as long as its text, also where it is cut at the slashes. -/
theorem nameLength?_nameTerm (lexeme : String) :
    (nameTerm lexeme).nameLength? = some lexeme.utf8ByteSize := by
  unfold nameTerm
  split
  · simp [Term.nameLength?, intercalate_cutAtSlashes]
  · rfl

/-- The terms that a single keyword or mark is. -/
def constant? : TokenKind → Option (Term TermId PatternId)
  | .word .set => some .set
  | .word .empty => some .emptyType
  | .word .unit => some .unitType
  | .word .bool => some .boolType
  | .word .nat => some .natType
  | .word .u64 => some (.num .u64)
  | .word .i64 => some (.num .i64)
  | .word .f64 => some (.num .f64)
  | .word .char => some (.num .char)
  | .word .selfType => some .selfType
  | .word .u64ToChar => some (.pri .u64ToChar)
  | .word .charToU64 => some (.pri .charToU64)
  | .word .hvmInc => some (.pri .hvmInc)
  | .word .hvmDec => some (.pri .hvmDec)
  | .word .finally_ => some .refl
  | .mark .star => some .era
  | _ => none

def isLiteral : TokenKind → Bool
  | .nat | .int | .float | .char | .str | .word .true | .word .false => true
  | _ => false

/-- `@Tag` or `@Tag{a, b}` -/
def constructor (start : Span) : Reading TermId := do
  let _ ← advance
  let (name, _) ← identifier
  if (← cursor).bracesOperand (← slot) then
    let _ ← advance
    let args ← delimited (separated (.mark .rightBrace) deep.inner)
    let _ ← expect (.mark .rightBrace)
    close start (.ctor name args)
  else close start (.tag name)

/-- `&name` or `&label{a, b}` -/
def symbolOrSup (start : Span) : Reading TermId := do
  let _ ← advance
  let c ← cursor
  let s ← slot
  let braced := c.kindAt 1 = .mark .leftBrace && !s.noBrace
  if c.kind = .ident && c.isTight && !braced then
    let (name, _) ← identifier
    close start (.sym name)
  else
    let label ← within (fun s => { s with noBrace := true }) (deep.expr .suffix)
    let _ ← expect (.mark .leftBrace)
    let (left, right) ← delimited do
      let left ← deep.inner
      let _ ← expect (.mark .comma)
      return (left, ← deep.inner)
    let _ ← expect (.mark .rightBrace)
    close start (.sup label left right)

/-- `?name: T` or `?name: T {a, b}` -/
def hole (start : Span) : Reading TermId := do
  let _ ← advance
  let (name, _) ← identifier
  let _ ← expect (.mark .colon)
  let type ← within (fun s => { s with noBrace := true, usage := .type }) (deep.expr .product)
  let s ← slot
  let c ← cursor
  if !s.noBrace && c.kind = .mark .leftBrace && !c.atCaseHead s then
    let _ ← advance
    let ctx ← delimited (withUsage .term (separated (.mark .rightBrace) deep.inner))
    let _ ← expect (.mark .rightBrace)
    close start (.hole name type ctx)
  else close start (.hole name type [])

/-- `()`, `(a, b)`, or an expression in parentheses, whose span is extended over them. -/
def parentheses (start : Span) : Reading TermId := do
  let _ ← advance
  if ← accept (.mark .rightParen) then close start .unit
  else
    let first ← delimited deep.inner
    if ← accept (.mark .comma) then
      let rest ← delimited (separated (.mark .rightParen) deep.inner)
      let _ ← expect (.mark .rightParen)
      close start (.tuple (first :: rest))
    else
      let stop ← expect (.mark .rightParen)
      widen first (start.hull stop)
      return first

/-- `[]` or `[a, b]` -/
def listTerm (start : Span) : Reading TermId := do
  let _ ← advance
  if ← accept (.mark .rightBracket) then close start .emptyList
  else
    let items ← delimited (separated (.mark .rightBracket) deep.inner)
    let _ ← expect (.mark .rightBracket)
    close start (.list items)

/-- `&name` in an `enum` -/
def enumSymbol : Reading String := do
  let _ ← expect (.mark .ampersand)
  let (name, _) ← identifier
  return name

/-- `enum{&a, &b}` -/
def enumType (start : Span) : Reading TermId := do
  let _ ← advance
  let _ ← expect (.mark .leftBrace)
  let symbols ← separated (.mark .rightBrace) enumSymbol
  let _ ← expect (.mark .rightBrace)
  close start (.enum symbols)

/-- `ref name` -/
def reference (start : Span) : Reading TermId := do
  let _ ← advance
  let (name, _) ← identifier
  close start (.ref name)

/-- `view(name)` -/
def view (start : Span) : Reading TermId := do
  let _ ← advance
  let _ ← expect (.mark .leftParen)
  let (name, _) ← identifier
  let _ ← expect (.mark .rightParen)
  close start (.view name)

/-- An operand that is more than one token. -/
def compound (c : Cursor) (start : Span) : Reading TermId :=
  match c.kind with
  | .mark .atSign => constructor deep start
  | .mark .ampersand => symbolOrSup deep start
  | .mark .question => hole deep start
  | .mark .leftParen => parentheses deep start
  | .mark .leftBracket => listTerm deep start
  | .mark .leftBrace => if c.atRefl then refl else unexpected "expression"
  | .word .enum => enumType start
  | .word .ref => reference start
  | .word .view => view start
  | _ => unexpected "expression"

/-- An operand without what follows it. -/
def operand : Reading TermId := do
  let c ← cursor
  let start := c.span
  if c.kind = .ident then
    let _ ← advance
    addTerm (nameTerm c.lexeme) start
  else if isLiteral c.kind then
    let value ← literal c.kind
    let _ ← advance
    addTerm (.lit value) start
  else
    match constant? c.kind with
    | some term =>
        let _ ← advance
        addTerm term start
    | none => compound deep c start

end BendSyntax.Grammar
