/-!
# Keywords

The reserved words of the language. Four of them can also be written as a single
letter or sign.
-/

namespace BendSyntax

inductive Keyword where
  | def_ | type | case | assert | try_ | all | any | enum
  | selfType | set | empty | unit | bool | nat | u64 | i64
  | f64 | char | lambda | mu | if_ | else_ | elif | fork
  | match_ | with_ | not | and | or | xor | use | rewrite
  | finally_ | trust | absurd | log | view | return_ | ref | sub
  | true | false | u64ToChar | charToU64 | hvmInc | hvmDec
  deriving Repr, DecidableEq, Inhabited

namespace Keyword

/-- The ways to write a keyword; messages use the first. -/
def spellings : Keyword → List String
  | def_ => ["def"]
  | type => ["type"]
  | case => ["case"]
  | assert => ["assert"]
  | try_ => ["try"]
  | all => ["all", "∀"]
  | any => ["any", "Σ"]
  | enum => ["enum"]
  | selfType => ["Self"]
  | set => ["Set"]
  | empty => ["Empty"]
  | unit => ["Unit"]
  | bool => ["Bool"]
  | nat => ["Nat"]
  | u64 => ["U64"]
  | i64 => ["I64"]
  | f64 => ["F64"]
  | char => ["Char"]
  | lambda => ["λ", "lambda"]
  | mu => ["μ", "mu"]
  | if_ => ["if"]
  | else_ => ["else"]
  | elif => ["elif"]
  | fork => ["fork"]
  | match_ => ["match"]
  | with_ => ["with"]
  | not => ["not"]
  | and => ["and"]
  | or => ["or"]
  | xor => ["xor"]
  | use => ["use"]
  | rewrite => ["rewrite"]
  | finally_ => ["finally"]
  | trust => ["trust"]
  | absurd => ["absurd"]
  | log => ["log"]
  | view => ["view"]
  | return_ => ["return"]
  | ref => ["ref"]
  | sub => ["sub"]
  | true => ["True"]
  | false => ["False"]
  | u64ToChar => ["U64_TO_CHAR"]
  | charToU64 => ["CHAR_TO_U64"]
  | hvmInc => ["HVM_INC"]
  | hvmDec => ["HVM_DEC"]

/-- The name of a keyword in messages. -/
def name (k : Keyword) : String := k.spellings.headD ""

/-- The name of a keyword in records. -/
def tag : Keyword → String
  | def_ => "Def"
  | type => "Type"
  | case => "Case"
  | assert => "Assert"
  | try_ => "Try"
  | all => "All"
  | any => "Any"
  | enum => "Enum"
  | selfType => "SelfType"
  | set => "Set"
  | empty => "Empty"
  | unit => "Unit"
  | bool => "Bool"
  | nat => "NatType"
  | u64 => "U64"
  | i64 => "I64"
  | f64 => "F64"
  | char => "CharType"
  | lambda => "Lambda"
  | mu => "Mu"
  | if_ => "If"
  | else_ => "Else"
  | elif => "Elif"
  | fork => "Fork"
  | match_ => "Match"
  | with_ => "With"
  | not => "Not"
  | and => "And"
  | or => "Or"
  | xor => "Xor"
  | use => "Use"
  | rewrite => "Rewrite"
  | finally_ => "Finally"
  | trust => "Trust"
  | absurd => "Absurd"
  | log => "Log"
  | view => "View"
  | return_ => "Return"
  | ref => "Ref"
  | sub => "Sub"
  | true => "True"
  | false => "False"
  | u64ToChar => "U64ToChar"
  | charToU64 => "CharToU64"
  | hvmInc => "HvmInc"
  | hvmDec => "HvmDec"

def list : List Keyword :=
  [.def_, .type, .case, .assert, .try_, .all, .any, .enum, .selfType, .set, .empty, .unit,
    .bool, .nat, .u64, .i64, .f64, .char, .lambda, .mu, .if_, .else_, .elif, .fork, .match_,
    .with_, .not, .and, .or, .xor, .use, .rewrite, .finally_, .trust, .absurd, .log, .view,
    .return_, .ref, .sub, .true, .false, .u64ToChar, .charToU64, .hvmInc, .hvmDec]

/-- The keyword that a word is, if it is reserved. -/
def ofWord? (word : String) : Option Keyword :=
  list.find? fun k => k.spellings.contains word

/-- Keywords that are complete operands on their own. -/
def isOperand : Keyword → Bool
  | selfType | set | empty | unit | bool | nat | u64 | i64 | f64 | char => Bool.true
  | finally_ | true | false | u64ToChar | charToU64 | hvmInc | hvmDec => Bool.true
  | _ => Bool.false

/-- Keywords that begin a top-level item. -/
def startsItem : Keyword → Bool
  | def_ | type | assert | try_ => Bool.true
  | _ => Bool.false

theorem mem_list (k : Keyword) : k ∈ list := by
  cases k <;> decide

end Keyword

end BendSyntax
