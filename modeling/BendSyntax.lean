import BendSyntax.Json.Writer
import BendSyntax.Proofs.Integrity
import BendSyntax.Proofs.Memory
import BendSyntax.Reader
import BendSyntax.Syntax.Record
import BendSyntax.Proofs.Lexing.Joined
import BendSyntax.Proofs.Dumps
import BendSyntax.Proofs.Containment
import BendSyntax.Proofs.DepthLimit
import BendSyntax.Proofs.SpanNesting
import BendSyntax.Proofs.Precedence
import BendSyntax.Proofs.Accounting
import BendSyntax.Proofs.Chain.Grouping
import BendSyntax.Proofs.Chain
import BendSyntax.Proofs.Lexing.Tiling
import BendSyntax.Proofs.Safety
import BendSyntax.Proofs.Termination
import BendSyntax.Proofs.Coverage
import BendSyntax.Proofs.Stopping
import BendSyntax.Proofs.TokensOnly
import BendSyntax.Proofs.Shapes.Items
import BendSyntax.Proofs.Chain.Blocks
import BendSyntax.Proofs.Declarations
import BendSyntax.Proofs.Positions.Items
import BendSyntax.Proofs.Formula.Reading
import BendSyntax.Proofs.Usages
import BendSyntax.Proofs.Lexing.Rejoined
import BendSyntax.Proofs.Enclosed
import BendSyntax.Proofs.Plain
import BendSyntax.Proofs.Plain.Brackets
import BendSyntax.Proofs.Plain.Cursors
import BendSyntax.Proofs.Plain.Following
import BendSyntax.Proofs.Plain.Simulation
import BendSyntax.Proofs.Plain.Suffixes
import BendSyntax.Proofs.Plain.Operands
import BendSyntax.Proofs.Plain.Terms
import BendSyntax.Proofs.Plain.Expressions
import BendSyntax.Proofs.Lexing.Excerpts
import BendSyntax.Proofs.Lexing.Severed
import BendSyntax.Proofs.Reparsing
import BendSyntax.Proofs.Generics
import BendSyntax.Proofs.Generics.Tokens
import BendSyntax.Proofs.Generics.Reading
import BendSyntax.Proofs.Lexing.Literals
import BendSyntax.Proofs.PatternTrees
import BendSyntax.Proofs.PatternTrees.Reading
import BendSyntax.Proofs.Fields
import BendSyntax.Proofs.Adjacency.Items
import BendSyntax.Proofs.Lexing.Reported
import BendSyntax.Proofs.Malformed
import BendSyntax.Proofs.Places.Items
import BendSyntax.Proofs.Fallback
import BendSyntax.Proofs.Lexing.Escapes
import BendSyntax.Proofs.Atomicity
import BendSyntax.Proofs.Assignments
import BendSyntax.Proofs.Readback
