import BendSyntax.Json.Basic
import BendSyntax.Number.Decimal

/-!
# Reading JSON

`Json.ofText?` reads a text that is one value with blanks around it. Arrays and objects
may be nested to a given depth. `Json.isDefinite` says that every string in a value
denotes a text and every number a finite binary one.
-/

namespace BendSyntax.Json

/-- The result of reading from the front of a text, with what remains. -/
abbrev Read (α : Type) := List Char → Option (α × List Char)

def isBlank (c : Char) : Bool := c == ' ' || c == '\t' || c == '\n' || c == '\r'

def skipBlanks (cs : List Char) : List Char := cs.dropWhile isBlank

/-- What follows a word at the front of a text. -/
def after? (word : String) (cs : List Char) : Option (List Char) :=
  if word.toList.isPrefixOf cs then some (cs.drop word.length) else none

def hex4? (cs : List Char) : Option Nat :=
  if cs.length = 4 then Numeral.value? 16 cs else none

/-- A unit of a string: a character as its code point, an escape as what it names,
possibly half of a surrogate pair. -/
abbrev Unit16 := Nat

def isHigh (u : Unit16) : Bool := 0xD800 ≤ u && u < 0xDC00

def isLow (u : Unit16) : Bool := 0xDC00 ≤ u && u < 0xE000

/-- The characters that units stand for, if every surrogate is half of a pair. -/
def pair? : List Unit16 → Option (List Char)
  | [] => some []
  | u :: v :: us =>
      if isHigh u then
        if isLow v then
          (pair? us).map (Char.ofNat (0x10000 + (u - 0xD800) * 0x400 + (v - 0xDC00)) :: ·)
        else none
      else if isLow u then none
      else (pair? (v :: us)).map (Char.ofNat u :: ·)
  | [u] => if isHigh u || isLow u then none else some [Char.ofNat u]

def letterEscape? : Char → Option Unit16
  | '"' => some 34
  | '\\' => some 92
  | '/' => some 47
  | 'b' => some 8
  | 'f' => some 12
  | 'n' => some 10
  | 'r' => some 13
  | 't' => some 9
  | _ => none

/-- The units of a string, in reverse, up to its closing quotation mark. -/
def units? (acc : List Unit16) : Read (List Unit16)
  | [] => none
  | '"' :: cs => some (acc, cs)
  | '\\' :: 'u' :: a :: b :: c :: d :: cs =>
      match hex4? [a, b, c, d] with
      | some u => units? (u :: acc) cs
      | none => none
  | '\\' :: c :: cs =>
      match letterEscape? c with
      | some u => units? (u :: acc) cs
      | none => none
  | c :: cs => if c.toNat < 32 || c == '\\' then none else units? (c.toNat :: acc) cs

/-- A string after its opening quotation mark. -/
def string? : Read (Option String) := fun cs =>
  (units? [] cs).map fun (units, cs) => ((pair? units.reverse).map String.ofList, cs)

/-- Digits, at least one. -/
def digits? : Read (List Char) := fun cs =>
  let digits := cs.takeWhile Char.isDigit
  if digits.isEmpty then none else some (digits, cs.dropWhile Char.isDigit)

/-- Digits without a leading zero. -/
def whole? : Read (List Char)
  | '0' :: cs => some (['0'], cs)
  | cs => digits? cs

def fraction? : Read (List Char)
  | '.' :: cs => (digits? cs).map fun (digits, cs) => ('.' :: digits, cs)
  | cs => some ([], cs)

def exponent? : Read (List Char)
  | e :: cs =>
      if e = 'e' ∨ e = 'E' then
        match cs with
        | s :: cs' =>
            if s = '+' ∨ s = '-' then
              (digits? cs').map fun (digits, cs) => (e :: s :: digits, cs)
            else (digits? cs).map fun (digits, cs) => (e :: digits, cs)
        | [] => none
      else some ([], e :: cs)
  | [] => some ([], [])

def unsignedNumeral? : Read (List Char) := fun cs => do
  let (whole, cs) ← whole? cs
  let (part, cs) ← fraction? cs
  let (power, cs) ← exponent? cs
  return (whole ++ part ++ power, cs)

def numeral? : Read String
  | '-' :: cs => (unsignedNumeral? cs).map fun (n, cs) => (String.ofList ('-' :: n), cs)
  | cs => (unsignedNumeral? cs).map fun (n, cs) => (String.ofList n, cs)

/-- Items separated by commas up to a closing bracket; each takes a character, so the
length of the text bounds their number. -/
def separated {α : Type} (close : Char) (item : Read α) : Nat → List α → Read (List α)
  | 0, _, _ => none
  | n + 1, acc, cs =>
      match item cs with
      | none => none
      | some (a, cs) =>
          match skipBlanks cs with
          | ',' :: cs => separated close item n (a :: acc) cs
          | c :: cs => if c = close then some ((a :: acc).reverse, cs) else none
          | [] => none

/-- The contents of a bracket, possibly nothing. -/
def bracketed {α : Type} (close : Char) (item : Read α) : Read (List α) := fun cs =>
  match skipBlanks cs with
  | c :: cs' => if c = close then some ([], cs') else separated close item (cs.length + 1) [] cs
  | [] => none

def member (value : Read Json) : Read (Option String × Json) := fun cs =>
  match skipBlanks cs with
  | '"' :: cs => do
      let (name, cs) ← string? cs
      match skipBlanks cs with
      | ':' :: cs => do
          let (j, cs) ← value cs
          return ((name, j), cs)
      | _ => none
  | _ => none

/-- A value whose brackets are nested at most `depth` deep. -/
def value : Nat → Read Json := fun depth cs =>
  match skipBlanks cs with
  | '"' :: cs => (string? cs).map fun (s, cs) => (.string s, cs)
  | '[' :: cs =>
      match depth with
      | 0 => none
      | d + 1 => (bracketed ']' (value d) cs).map fun (items, cs) => (.array items, cs)
  | '\x7b' :: cs =>
      match depth with
      | 0 => none
      | d + 1 =>
          (bracketed '\x7d' (member (value d)) cs).map fun (members, cs) =>
            (.object members, cs)
  | 'n' :: cs => (after? "ull" cs).map fun cs => (.null, cs)
  | 't' :: cs => (after? "rue" cs).map fun cs => (.bool true, cs)
  | 'f' :: cs => (after? "alse" cs).map fun cs => (.bool false, cs)
  | cs => (numeral? cs).map fun (n, cs) => (.number n, cs)

def ofText? (depth : Nat) (s : String) : Option Json :=
  match value depth s.toList with
  | some (j, cs) => if (skipBlanks cs).isEmpty then some j else none
  | none => none

mutual

def isDefinite : Json → Bool
  | .string s => s.isSome
  | .number numeral => (Decimal.read? numeral.toList).isSome
  | .array items => allDefinite items
  | .object members => membersDefinite members
  | _ => true

def allDefinite : List Json → Bool
  | [] => true
  | j :: items => isDefinite j && allDefinite items

def membersDefinite : List (Option String × Json) → Bool
  | [] => true
  | (name, j) :: members => name.isSome && isDefinite j && membersDefinite members

end

end BendSyntax.Json
