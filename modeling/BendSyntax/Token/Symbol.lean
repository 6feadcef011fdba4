/-!
# Symbols

Operators and delimiters. `Symbol.list` puts longer spellings first, so that the first
symbol at the front of a text is the longest one there.
-/

namespace BendSyntax

inductive Symbol where
  | strictEq | strictNotEq | eqEq | notEq | lessEq | greaterEq | shiftLeft | shiftRight
  | power | doubleColon | cons | arrow | colonEq | plus | minus | star
  | slash | percent | less | greater | equals | colon | semicolon | comma
  | dot | ampersand | atSign | question | tilde | leftParen | rightParen | leftBracket
  | rightBracket | leftBrace | rightBrace
  deriving Repr, DecidableEq, Inhabited

namespace Symbol

def spelling : Symbol → String
  | strictEq => "==="
  | strictNotEq => "!=="
  | eqEq => "=="
  | notEq => "!="
  | lessEq => "<="
  | greaterEq => ">="
  | shiftLeft => "<<"
  | shiftRight => ">>"
  | power => "**"
  | doubleColon => "::"
  | cons => "<>"
  | arrow => "->"
  | colonEq => ":="
  | plus => "+"
  | minus => "-"
  | star => "*"
  | slash => "/"
  | percent => "%"
  | less => "<"
  | greater => ">"
  | equals => "="
  | colon => ":"
  | semicolon => ";"
  | comma => ","
  | dot => "."
  | ampersand => "&"
  | atSign => "@"
  | question => "?"
  | tilde => "~"
  | leftParen => "("
  | rightParen => ")"
  | leftBracket => "["
  | rightBracket => "]"
  | leftBrace => "\x7b"
  | rightBrace => "\x7d"

/-- The name of a symbol in records. -/
def tag : Symbol → String
  | strictEq => "EqEqEq"
  | strictNotEq => "NotEqEq"
  | eqEq => "EqEq"
  | notEq => "NotEq"
  | lessEq => "Le"
  | greaterEq => "Ge"
  | shiftLeft => "Shl"
  | shiftRight => "Shr"
  | power => "StarStar"
  | doubleColon => "ColonColon"
  | cons => "Cons"
  | arrow => "Arrow"
  | colonEq => "ColonEq"
  | plus => "Plus"
  | minus => "Minus"
  | star => "Star"
  | slash => "Slash"
  | percent => "Percent"
  | less => "Lt"
  | greater => "Gt"
  | equals => "Assign"
  | colon => "Colon"
  | semicolon => "Semicolon"
  | comma => "Comma"
  | dot => "Dot"
  | ampersand => "Amp"
  | atSign => "At"
  | question => "Question"
  | tilde => "Tilde"
  | leftParen => "LParen"
  | rightParen => "RParen"
  | leftBracket => "LBracket"
  | rightBracket => "RBracket"
  | leftBrace => "LBrace"
  | rightBrace => "RBrace"

def list : List Symbol :=
  [.strictEq, .strictNotEq, .eqEq, .notEq, .lessEq, .greaterEq, .shiftLeft, .shiftRight, .power,
    .doubleColon, .cons, .arrow, .colonEq, .plus, .minus, .star, .slash, .percent, .less,
    .greater, .equals, .colon, .semicolon, .comma, .dot, .ampersand, .atSign, .question, .tilde,
    .leftParen, .rightParen, .leftBracket, .rightBracket, .leftBrace, .rightBrace]

/-- The longest symbol at the front of a text. -/
def atFront? (cs : List Char) : Option Symbol :=
  list.find? fun s => s.spelling.toList.isPrefixOf cs

theorem mem_list (s : Symbol) : s ∈ list := by
  cases s <;> decide

end Symbol

end BendSyntax
