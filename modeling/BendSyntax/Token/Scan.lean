import BendSyntax.Token.Flaw
import BendSyntax.Token.Literal

/-!
# Scanning one token

`Scanned.next` takes the token at the front of a text. It never fails: malformed text
becomes a token of kind `invalid` with the flaws found in it. No token begins with a
blank, so the text is expected to stand behind a gap.
-/

namespace BendSyntax

structure Scanned where
  kind : TokenKind
  text : List Char
  rest : List Char
  flaws : List Flaw
  deriving Repr

namespace Scanned

def isWordStart (c : Char) : Bool := c.isAlpha || c == '_'

def isWordPart (c : Char) : Bool := c.isAlphanum || c == '_'

def isAscii (c : Char) : Bool := c.toNat < 128

def valid (kind : TokenKind) (text rest : List Char) : Scanned := ⟨kind, text, rest, []⟩

/-- A token that is malformed as a whole. -/
def bad (cause : Flaw.Cause) (text rest : List Char) : Scanned :=
  ⟨.invalid, text, rest, [⟨0, text.length, cause⟩]⟩

/-- A numeral, provided that its value is in range. -/
def checked (kind : TokenKind) (text rest : List Char) : Scanned :=
  if (Literal.ofLexeme? kind text).isSome then valid kind text rest
  else bad (.outOfRange kind) text rest

/-! ## Numbers -/

/-- A numeral behind `0x` or `0b`. -/
def based (radix : Nat) (mark : String) (sign cs : List Char) : Scanned :=
  let digits := cs.takeWhile (Numeral.isDigit radix)
  let rest := cs.dropWhile (Numeral.isDigit radix)
  let text := sign ++ mark.toList ++ digits
  if digits.isEmpty then bad (.missingDigits mark) text rest else checked .int text rest

/-- What follows the digits of a decimal numeral decides its kind. -/
def decimal (sign cs : List Char) : Scanned :=
  let digits := cs.takeWhile Char.isDigit
  let text := sign ++ digits
  match cs.dropWhile Char.isDigit with
  | 'n' :: rest =>
      if rest.head?.any isWordPart then checked .int text ('n' :: rest)
      else if sign.isEmpty then checked .nat (text ++ ['n']) rest
      else bad .signedNatural (text ++ ['n']) rest
  | '.' :: rest =>
      if rest.head?.any Char.isDigit then
        checked .float (text ++ '.' :: rest.takeWhile Char.isDigit)
          (rest.dropWhile Char.isDigit)
      else checked .int text ('.' :: rest)
  | rest => checked .int text rest

/-- A number whose sign has been taken. -/
def number (sign : List Char) : List Char → Scanned
  | '0' :: 'x' :: cs => based 16 "0x" sign cs
  | '0' :: 'b' :: cs => based 2 "0b" sign cs
  | cs => decimal sign cs

/-! ## Words -/

/-- How many characters a word goes on; a slash belongs to it if a name follows. -/
def wordLength : List Char → Nat
  | '/' :: c :: cs => if isWordStart c then wordLength cs + 2 else 0
  | c :: cs => if isWordPart c then wordLength cs + 1 else 0
  | [] => 0

def word (cs : List Char) : Scanned :=
  let text := cs.take (wordLength cs)
  let kind := (TokenKind.ofWord? (String.ofList text)).getD .ident
  valid kind text (cs.drop (wordLength cs))

/-- A letter outside ASCII is a token if it spells a keyword. -/
def letter (c : Char) (cs : List Char) : Scanned :=
  match TokenKind.ofWord? (String.singleton c) with
  | some kind => valid kind [c] cs
  | none => bad (.unexpected c) [c] cs

/-! ## Strings and characters -/

/-- An escape, given what follows the backslash: how many of these characters belong
to it, and what is wrong with it. At the end of the text the literal is unterminated,
which is a flaw of the literal. -/
def escape : List Char → Nat × Option Flaw.Cause
  | [] => (0, none)
  | 'u' :: cs =>
      let digits := (cs.take 4).takeWhile (Numeral.isDigit 16)
      let named := Numeral.value? 16 digits >>= Escape.scalar?
      (digits.length + 1,
        if digits.length = 4 ∧ named.isSome then none else some .badCodePoint)
  | c :: _ =>
      if (Escape.letter? c).isSome then (1, none)
      else (if isAscii c ∧ c ≠ '\n' then 1 else 0, some (.badEscape c))

/-- The flaw of an escape at `n`, of which the backslash is part. -/
def escapeFlaw (n : Nat) (cs : List Char) : List Flaw :=
  match escape cs with
  | (width, some cause) => [⟨n, width + 1, cause⟩]
  | (_, none) => []

/-- The flaws of the escapes in the body of a string that begins at `n`. -/
def escapeFlaws : Nat → List Char → List Flaw
  | n, '\\' :: c :: cs => escapeFlaw n (c :: cs) ++ escapeFlaws (n + 2) cs
  | n, _ :: cs => escapeFlaws (n + 1) cs
  | _, [] => []

/-- How many characters a string has up to its closing mark, if it is closed. A
character behind a backslash does not close it. -/
def stringLength? : List Char → Option Nat
  | '\\' :: _ :: cs => (stringLength? cs).map (· + 2)
  | c :: cs => if c = '"' then some 0 else (stringLength? cs).map (· + 1)
  | [] => none

/-- A string behind its opening mark. -/
def string (cs : List Char) : Scanned :=
  match stringLength? cs with
  | some n =>
      let flaws := escapeFlaws 1 (cs.take n)
      ⟨if flaws.isEmpty then .str else .invalid, '"' :: cs.take (n + 1), cs.drop (n + 1), flaws⟩
  | none =>
      let text := '"' :: cs
      ⟨.invalid, text, [], escapeFlaws 1 cs ++ [⟨0, text.length, .unclosedString⟩]⟩

/-- A character literal of which `n` characters and the opening mark are known. -/
def closeChar (cs : List Char) (n : Nat) (flaws : List Flaw) : Scanned :=
  match cs.drop n with
  | '\'' :: rest =>
      ⟨if flaws.isEmpty then .char else .invalid, '\'' :: cs.take n ++ ['\''], rest, flaws⟩
  | rest => ⟨.invalid, '\'' :: cs.take n, rest, flaws ++ [⟨0, n + 1, .unclosedChar⟩]⟩

/-- A character literal behind its opening mark. -/
def char (cs : List Char) : Scanned :=
  match cs with
  | [] => bad .unclosedChar ['\''] []
  | '\n' :: _ => bad .unclosedChar ['\''] cs
  | '\'' :: rest => bad .emptyChar ['\'', '\''] rest
  | '\\' :: rest => closeChar cs ((escape rest).1 + 1) (escapeFlaw 1 rest)
  | _ :: _ => closeChar cs 1 []

/-! ## The next token -/

/-- A symbol or a stray character. -/
def symbol (c : Char) (cs : List Char) : Scanned :=
  match Symbol.atFront? (c :: cs) with
  | some s =>
      let n := s.spelling.length
      valid (.mark s) ((c :: cs).take n) ((c :: cs).drop n)
  | none => bad (.unexpected c) [c] cs

/-- Whether the text begins with a sign that belongs to a number. -/
def signs (signed : Bool) (c : Char) (cs : List Char) : Bool :=
  signed && (c == '+' || c == '-') && cs.head?.any Char.isDigit

/-- The token at the front of a text; `signed` tells whether a number may have a sign. -/
def next (signed : Bool) : List Char → Scanned
  | [] => valid .eof [] []
  | c :: cs =>
      if c.isDigit then number [] (c :: cs)
      else if signs signed c cs then number [c] cs
      else if isWordStart c then word (c :: cs)
      else if c = '"' then string cs
      else if c = '\'' then char cs
      else if isAscii c then symbol c cs
      else letter c cs

end Scanned

end BendSyntax
