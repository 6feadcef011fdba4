import BendSyntax.Grammar.Deeper

/-!
# Case blocks

The blocks of `λ{...}` and `~e{...}`. The first head decides the shape of a block. The
two cases of a Bool, Nat or list block come in a fixed order; an enum block has any
number of cases and may end with one that has no head.
-/

namespace BendSyntax.Grammar

open Reading

variable (deep : Deeper)

def expectedHeads : String :=
  "a case head (`():`, `False:`, `0n:`, `[]:`, `(,):`, `@Tag:`, `&sym:`, `&L\x7b,\x7d:`" ++
    " or `\x7b==\x7d:`)"

def skipTokens : Nat → Reading Unit
  | 0 => return
  | n + 1 => do
      let _ ← advance
      skipTokens n

/-- A head that is always written with the same `width` tokens. -/
def fixedTag (tag : CaseTag TermId) (width : Nat) : Reading (CaseTag TermId) := do
  skipTokens width
  return tag

/-- `&L{,}` -/
def supTag : Reading (CaseTag TermId) := do
  let _ ← expect (.mark .ampersand)
  let label ← within (fun s => { s with noBrace := true, caseHeads := false })
    (deep.expr .suffix)
  let _ ← expect (.mark .leftBrace)
  let _ ← expect (.mark .comma)
  let _ ← expect (.mark .rightBrace)
  return .sup label

/-- The tokens of a head without its colon. -/
def caseTag : CaseHead → Reading (CaseTag TermId)
  | .unit => fixedTag .unit 2
  | .pair => fixedTag .pair 3
  | .false => fixedTag .false 1
  | .true => fixedTag .true 1
  | .zero => fixedTag .zero 1
  | .succ => fixedTag .succ 2
  | .nil => fixedTag .nil 2
  | .cons => fixedTag .cons 1
  | .refl => fixedTag .refl 3
  | .ctor => do
      let _ ← advance
      let (name, _) ← identifier
      return .ctor name
  | .sym => do
      let _ ← advance
      let (name, _) ← identifier
      return .sym name
  | .sup => supTag deep

/-- A case with its head; a semicolon may end it. -/
def blockCase (head : CaseHead) : Reading (BlockCase TermId) := do
  let start ← here
  let tag ← caseTag deep head
  let _ ← expect (.mark .colon)
  let body ← deep.statement
  let _ ← accept (.mark .semicolon)
  return ⟨tag, ← since start, body⟩

/-- The next case of a block whose cases have a fixed order. -/
def positionalCase (kind : BlockKind) (head : CaseHead) : Reading (BlockCase TermId) := do
  if (← cursor).caseHead? = some head then blockCase deep head
  else unexpected s!"{head.described} case ({kind.name} match cases are positional)"

def positionalBlock (kind : BlockKind) (first second : CaseHead) :
    Reading (CaseBlock TermId) := do
  let a ← positionalCase deep kind first
  let b ← positionalCase deep kind second
  return ⟨kind, [a, b], none⟩

def singleBlock (kind : BlockKind) (head : CaseHead) : Reading (CaseBlock TermId) := do
  return ⟨kind, [← blockCase deep head], none⟩

/-- The next case of an enum block, if one follows. -/
def enumRound (cases : Array (BlockCase TermId)) :
    Reading (Round (Array (BlockCase TermId))) := do
  match (← cursor).caseHead? with
  | some .ctor => return .more (cases.push (← blockCase deep .ctor))
  | some .sym => return .more (cases.push (← blockCase deep .sym))
  | _ => return .done cases

def enumBlock : Reading (CaseBlock TermId) := do
  let cases ← loop (enumRound deep) #[]
  if ← sees (.mark .rightBrace) then return ⟨.enum, cases.toList, none⟩
  else
    let body ← deep.statement
    let _ ← accept (.mark .semicolon)
    return ⟨.enum, cases.toList, some body⟩

/-- Whether `&label{,}:` follows, with a label of more than one token. Nothing is read. -/
def atLongSupHead : Reading Bool :=
  succeeds do
    let _ ← supTag deep
    expect (.mark .colon)

/-- A block whose first case has the given head. -/
def blockFrom : CaseHead → Reading (CaseBlock TermId)
  | .unit => singleBlock deep .unit .unit
  | .pair => singleBlock deep .pair .pair
  | .refl => singleBlock deep .eql .refl
  | .sup => singleBlock deep .sup .sup
  | .false => positionalBlock deep .bool .false .true
  | .true => positionalBlock deep .bool .false .true
  | .zero => positionalBlock deep .nat .zero .succ
  | .succ => positionalBlock deep .nat .zero .succ
  | .nil => positionalBlock deep .list .nil .cons
  | .cons => positionalBlock deep .list .nil .cons
  | .ctor => enumBlock deep
  | .sym => enumBlock deep

/-- The contents of a block. What begins no case but an operand is an enum block that
only has a case without a head. -/
def blockCases : Reading (CaseBlock TermId) := do
  let c ← cursor
  if c.kind = .mark .rightBrace then return ⟨.empty, [], none⟩
  match c.caseHead? with
  | some head => blockFrom deep head
  | none =>
      if c.kind = .mark .ampersand then
        if ← atLongSupHead deep then blockFrom deep .sup else enumBlock deep
      else if c.startsOperand (← slot) then enumBlock deep
      else unexpected expectedHeads

/-- A case block with its braces. -/
def caseBlock : Reading (CaseBlock TermId) := do
  let _ ← expect (.mark .leftBrace)
  let block ← within (fun _ => { Slot.free .term with caseHeads := true }) (blockCases deep)
  let _ ← expect (.mark .rightBrace)
  return block

end BendSyntax.Grammar
