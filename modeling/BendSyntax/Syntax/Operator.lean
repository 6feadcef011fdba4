/-!
# Operators of the syntax tree
-/

namespace BendSyntax

inductive BinaryOp where
  | assign | define | product | cons | or | xor | and | eq | neq | strictEq | strictNeq
  | lt | gt | le | ge | shl | shr | add | sub | mul | div | mod | pow
  deriving Repr, DecidableEq, Inhabited

namespace BinaryOp

def symbol : BinaryOp → String
  | assign => "="
  | define => ":="
  | product => "&"
  | cons => "<>"
  | or => "or"
  | xor => "xor"
  | and => "and"
  | eq => "=="
  | neq => "!="
  | strictEq => "==="
  | strictNeq => "!=="
  | lt => "<"
  | gt => ">"
  | le => "<="
  | ge => ">="
  | shl => "<<"
  | shr => ">>"
  | add => "+"
  | sub => "-"
  | mul => "*"
  | div => "/"
  | mod => "%"
  | pow => "**"

/-- The name of an operator in records. -/
def tag : BinaryOp → String
  | assign => "Assign"
  | define => "Define"
  | product => "Product"
  | cons => "Cons"
  | or => "Or"
  | xor => "Xor"
  | and => "And"
  | eq => "Eq"
  | neq => "Neq"
  | strictEq => "StrictEq"
  | strictNeq => "StrictNeq"
  | lt => "Lt"
  | gt => "Gt"
  | le => "Le"
  | ge => "Ge"
  | shl => "Shl"
  | shr => "Shr"
  | add => "Add"
  | sub => "Sub"
  | mul => "Mul"
  | div => "Div"
  | mod => "Mod"
  | pow => "Pow"

end BinaryOp

inductive UnaryOp where
  | not | neg
  deriving Repr, DecidableEq, Inhabited

namespace UnaryOp

def symbol : UnaryOp → String
  | not => "not"
  | neg => "neg"

def tag : UnaryOp → String
  | not => "Not"
  | neg => "Neg"

end UnaryOp

/-- The built-in types of machine numbers. -/
inductive NumType where
  | u64 | i64 | f64 | char
  deriving Repr, DecidableEq, Inhabited

def NumType.name : NumType → String
  | u64 => "U64"
  | i64 => "I64"
  | f64 => "F64"
  | char => "Char"

/-- The built-in functions. -/
inductive Primitive where
  | u64ToChar | charToU64 | hvmInc | hvmDec
  deriving Repr, DecidableEq, Inhabited

namespace Primitive

def name : Primitive → String
  | u64ToChar => "U64_TO_CHAR"
  | charToU64 => "CHAR_TO_U64"
  | hvmInc => "HVM_INC"
  | hvmDec => "HVM_DEC"

def tag : Primitive → String
  | u64ToChar => "U64ToChar"
  | charToU64 => "CharToU64"
  | hvmInc => "HvmInc"
  | hvmDec => "HvmDec"

end Primitive

end BendSyntax
