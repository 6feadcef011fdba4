import BendSyntax.Grammar.Items
import BendSyntax.Token.Lexing

/-!
# Reading source texts

`Expression.ofText` reads a text as one expression and `Program.ofText` as a source file.
An expression is read whole or not at all; a program is read as far as it goes, with
error nodes where it does not follow the grammar.
-/

namespace BendSyntax

/-- A program with what was reported about it. -/
structure Report where
  program : Program
  diagnostics : List Diagnostic
  deriving Repr, DecidableEq, Inhabited

namespace Reading

/-- The session in front of a text. -/
def initial (lexing : Lexing) : Session :=
  ⟨.start lexing.tokens, .empty, lexing.diagnostics.toArray, []⟩

def setting (config : Config) (remembers : Bool) : Setting := ⟨config, remembers, .free .term⟩

/-- What a reading makes of a text. -/
def onText {α : Type} (r : Reading α) (config : Config) (remembers : Bool) (source : String) :
    Outcome α :=
  r.run (setting config remembers) (initial (Lexing.ofText source))

end Reading

namespace Grammar

open Reading

/-- A statement that is a whole text. -/
def wholeStatement (deep : Deeper) : Reading TermId := do
  let root ← deep.statement
  if ← sees .eof then return root else unexpected "end of input"

end Grammar

open Grammar

namespace Expression

/-- The expression that a text is, or what is wrong with it. Unless `remembers` is set,
attempts are repeated where they are known to fail. -/
def read (config : Config) (remembers : Bool) (source : String) :
    Except (List Diagnostic) Expression :=
  match (wholeStatement (nested config.maxDepth)).onText config remembers source with
  | .ok root s =>
      if s.diagnostics.isEmpty then .ok ⟨s.tree, root⟩ else .error s.diagnostics.toList
  | .error e s => .error (s.diagnostics.push e.toDiagnostic).toList

def ofText (source : String) (config : Config) : Except (List Diagnostic) Expression :=
  read config true source

end Expression

namespace Program

/-- The program that a text is, with everything that is wrong with it. -/
def read (config : Config) (remembers : Bool) (source : String) : Report :=
  match (sourceFile (nested config.maxDepth)).onText config remembers source with
  | .ok items s => ⟨⟨s.tree, items⟩, s.diagnostics.toList⟩
  | .error e s => ⟨⟨s.tree, []⟩, (s.diagnostics.push e.toDiagnostic).toList⟩

def ofText (source : String) (config : Config) : Report := read config true source

/-- The program that a text is, if nothing is wrong with it. -/
def ofTextStrict (source : String) (config : Config) : Except (List Diagnostic) Program :=
  let report := ofText source config
  if report.diagnostics.isEmpty then .ok report.program else .error report.diagnostics

end Program

end BendSyntax
