import BendSyntax.Source.Span
import BendSyntax.Token.Keyword
import BendSyntax.Token.Symbol

/-!
# Tokens

A token is a piece of source text with its kind. Whether blanks or a comment stand
in front of it is part of the token, because `f(x)` and `f (x)` are read differently.
-/

namespace BendSyntax

inductive TokenKind where
  | nat | int | float | char | str
  /-- An identifier, possibly qualified as in `List/map`. -/
  | ident
  | word (k : Keyword)
  | mark (s : Symbol)
  /-- Malformed text, about which a diagnostic has been made. -/
  | invalid
  | eof
  deriving Repr, DecidableEq, Inhabited

namespace TokenKind

/-- The name of a kind in messages. -/
def name : TokenKind → String
  | nat => "natural literal"
  | int => "integer literal"
  | float => "float literal"
  | char => "character literal"
  | str => "string literal"
  | ident => "identifier"
  | word k => k.name
  | mark s => s.spelling
  | invalid => "invalid token"
  | eof => "end of file"

/-- The name of a kind in records. -/
def tag : TokenKind → String
  | nat => "Nat"
  | int => "Int"
  | float => "Float"
  | char => "Char"
  | str => "Str"
  | ident => "Ident"
  | word k => k.tag
  | mark s => s.tag
  | invalid => "Invalid"
  | eof => "Eof"

def ofWord? (w : String) : Option TokenKind := (Keyword.ofWord? w).map word

/-- Where reading can go on after an error: a keyword that begins an item, or the end. -/
def startsItem : TokenKind → Bool
  | word k => k.startsItem
  | eof => true
  | _ => false

/-- Whether a token of this kind can end an operand. A sign behind such a token is an
operator; elsewhere it belongs to the number that follows. -/
def endsOperand : TokenKind → Bool
  | nat | int | float | char | str | ident => true
  | word k => k.isOperand
  | mark .rightParen | mark .rightBracket | mark .rightBrace => true
  | _ => false

end TokenKind

structure Token where
  kind : TokenKind
  span : Span
  /-- The source text of the token, with quotation marks and suffixes. -/
  lexeme : String
  /-- Blanks or a comment stand in front; counted so for the first token, too. -/
  spaced : Bool
  deriving Repr, DecidableEq, Inhabited

/-- Whether a token touches the one in front of it. -/
def Token.isTight (t : Token) : Bool := !t.spaced

/-- The tokens of a text, with the one that marks its end. -/
structure Tokens where
  body : List Token
  eof : Token
  deriving Repr, DecidableEq, Inhabited

def Tokens.toList (ts : Tokens) : List Token := ts.body ++ [ts.eof]

end BendSyntax
