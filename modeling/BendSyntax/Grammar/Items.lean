import BendSyntax.Grammar.Nesting

/-!
# Top-level items

An item that cannot be read is reported once, and reading goes on at the next keyword
that begins an item. If only its body cannot be read, the item is kept and an error
node stands for the body.
-/

namespace BendSyntax.Grammar

open Reading

variable (deep : Deeper)

/-! ## Recovery -/

/-- Skips to the next token that can begin an item, and returns the region from `start`
to the last token skipped. -/
def skipToItem (start : Span) : Reading Span :=
  loop (fun region => do
    if (← kind).startsItem then return .done region
    else return .more (region.hull (← advance))) start.opening

/-- An error node for the rest of an item from `start`. -/
def errorNode (start : Span) : Reading TermId := do
  addTerm .error (← skipToItem start)

/-- A statement, or else an error node from `start`; the error is reported as `describe`
puts it. -/
def statementOrError (describe : SyntaxError → SyntaxError) (start : Span) : Reading TermId :=
  recovering describe (errorNode start) deep.statement

/-- The body of a definition. -/
def body : Reading TermId := do
  statementOrError deep id (← here)

/-! ## Definitions -/

/-- `T` or `T: Set` -/
def typeParam : Reading (TypeParam TermId) := do
  let (name, span) ← identifier
  if ← accept (.mark .colon) then
    let bound ← withUsage .type (deep.expr .additive)
    return ⟨name, span, some bound⟩
  else return ⟨name, span, none⟩

/-- `<T, U: Set>` behind the name of a definition. -/
def typeParams : Reading (List (TypeParam TermId)) := do
  if ← accept (.mark .less) then
    let params ← delimited (commaList (typeParam deep))
    let _ ← closeAngle
    return params
  else return []

/-- `x: A, y: B)` behind an opening bracket. -/
def params : Reading (List (Binder TermId)) := do
  let params ← delimited (separated (.mark .rightParen) (binder deep.type))
  let _ ← expect (.mark .rightParen)
  return params

/-- `-> T` -/
def result? : Reading (Option TermId) := do
  if ← accept (.mark .arrow) then some <$> deep.type else return none

/-- A type behind which `=` stands. -/
def equationType : Reading TermId := do
  let type ← deep.type
  if ← sees (.mark .equals) then return type else unexpected "`=`"

/-- An error in the last form that a definition can have. -/
def noDefinition (e : SyntaxError) : SyntaxError :=
  if e.isFatal then e
  else .ambiguous "definition" "`def name : type = value`, `def name : body`" e e.span

/-- What follows `def name :`. A type with `=` behind it begins an equation; anything else
is read again as a body. -/
def definitionTail : Reading (DefForm TermId) := do
  let start ← here
  match ← speculate (some <$> equationType deep) with
  | some type =>
      let _ ← expect (.mark .equals)
      let value ← body deep
      return .equation type value
  | none => return .nullary (← statementOrError deep noDefinition start)

def definitionForm : Reading (DefForm TermId) := do
  if ← accept (.mark .leftParen) then
    let params ← params deep
    let result ← result? deep
    let _ ← expect (.mark .colon)
    let id ← body deep
    return .full params result id
  else
    let _ ← expect (.mark .colon)
    definitionTail deep

def definition : Reading (Item TermId) := do
  let start ← advance
  let (name, _) ← identifier
  let typeParams ← typeParams deep
  let form ← definitionForm deep
  return .definition ⟨name, typeParams, form, ← since start⟩

/-! ## Type definitions -/

/-- Whether a field begins here. -/
def atField : Reading Bool := do
  let c ← cursor
  return c.kind = .ident && c.kindAt 1 = .mark .colon

/-- `case @Tag: field: T ...` -/
def ctorCase : Reading (CtorCase TermId) := do
  let start ← expect (.word .case)
  let _ ← expect (.mark .atSign)
  let (tag, _) ← identifier
  let _ ← expect (.mark .colon)
  let fields ← within (fun _ => { Slot.free .type with fieldHeads := true })
    (collectWhile atField (binder (deep.expr .product)))
  return ⟨tag, fields, ← since start⟩

/-- The parameters of a type definition, if it has any. -/
def optionalParams : Reading (List (Binder TermId)) := do
  if ← accept (.mark .leftParen) then params deep else return []

def typeDefinition : Reading (Item TermId) := do
  let start ← advance
  let (name, _) ← identifier
  let typeParams ← typeParams deep
  let params ← optionalParams deep
  let _ ← expect (.mark .colon)
  let cases ← collectWhile (sees (.word .case)) (ctorCase deep)
  require (!cases.isEmpty) "`case`"
  return .typeDef ⟨name, typeParams, params, cases, ← since start⟩

/-! ## Other items -/

/-- `assert e : T` -/
def assertion : Reading (Item TermId) := do
  let start ← advance
  let term ← deep.term
  let _ ← expect (.mark .colon)
  let type ← deep.type
  return .assertion term type (← since start)

/-- `try name : T { body }` -/
def proof : Reading (Item TermId) := do
  let start ← advance
  let (name, _) ← identifier
  let _ ← expect (.mark .colon)
  let type ← within (fun s => { s with noLooseBrace := true }) deep.type
  let _ ← expect (.mark .leftBrace)
  let id ← delimited deep.statement
  let _ ← expect (.mark .rightBrace)
  return .proof name type id (← since start)

def item : Reading (Item TermId) := do
  match ← kind with
  | .word .def_ => definition deep
  | .word .type => typeDefinition deep
  | .word .assert => assertion deep
  | .word .try_ => proof deep
  | _ => return .expr (← deep.statement)

/-- Skips the first token of an item if the error came up in front of it. -/
def skipFirst (first : Cursor) : Reading Unit := do
  if (← cursor).index = first.index then
    let _ ← advance

/-- The region of an item that could not be read, of which `first` is the first token. -/
def skipItem (first : Cursor) : Reading (Item TermId) := whole do
  skipFirst first
  return .error (← skipToItem first.span)

def semicolons : Reading Unit :=
  loop (fun _ => do
    if ← accept (.mark .semicolon) then return .more () else return .done ()) ()

/-- The next item; without recovery an error is the end. -/
def itemRound (items : Array (Item TermId)) : Reading (Round (Array (Item TermId))) := do
  let c ← cursor
  if c.kind = .eof then return .done items
  match ← reported (recovering id (skipItem c) (item deep)) with
  | some item =>
      semicolons
      return .more (items.push item)
  | none => return .done items

/-- All items of a text. -/
def sourceFile : Reading (List (Item TermId)) := do
  return (← loop (itemRound deep) #[]).toList

end BendSyntax.Grammar
