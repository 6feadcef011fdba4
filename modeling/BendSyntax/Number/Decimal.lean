import BendSyntax.Number.Binary64
import BendSyntax.Number.Numeral

/-!
# Decimal numerals with a fraction or an exponent

A decimal numeral is a sign, digits with at most one point among them, and an
exponent after `e`. Sign, point and exponent may be missing, and digits may be
missing on one side of the point. `Decimal.read?` gives the closest binary number.
-/

namespace BendSyntax

/-- The number `± digits · 10 ^ exponent`. -/
structure Decimal where
  negative : Bool
  digits : List Nat
  exponent : Int
  deriving Repr, DecidableEq, Inhabited

namespace Decimal

def sign : List Char → Bool × List Char
  | '-' :: cs => (true, cs)
  | '+' :: cs => (false, cs)
  | cs => (false, cs)

/-- The digits at the front of a text. -/
def digitsOf (cs : List Char) : List Nat × List Char :=
  ((cs.takeWhile (Numeral.isDigit 10)).filterMap (Numeral.digit? 10),
    cs.dropWhile (Numeral.isDigit 10))

def fraction : List Char → List Nat × List Char
  | '.' :: cs => digitsOf cs
  | cs => ([], cs)

/-- The exponent that ends a numeral. -/
def exponent? : List Char → Option Int
  | [] => some 0
  | c :: cs => if c = 'e' ∨ c = 'E' then Numeral.signed? 10 cs else none

/-- The numeral that a text is. -/
def ofText? (cs : List Char) : Option Decimal :=
  let (negative, cs) := sign cs
  let (whole, cs) := digitsOf cs
  let (part, cs) := fraction cs
  if whole.isEmpty ∧ part.isEmpty then none
  else (exponent? cs).map fun e => ⟨negative, whole ++ part, e - part.length⟩

/-- The closest binary number. A first digit at `10 ^ 309` or above is beyond the
greatest number, and one below `10 ^ -324` is less than half the smallest, so the
powers of ten that are computed stay small. -/
def nearest? (d : Decimal) : Option Binary64 :=
  let digits := d.digits.dropWhile (· == 0)
  let value := Numeral.ofDigits 10 digits
  let top := (digits.length : Int) + d.exponent
  if value = 0 then some (.zero d.negative)
  else if 309 < top then none
  else if top ≤ -324 then some (.zero d.negative)
  else if 0 ≤ d.exponent then
    Binary64.nearest? d.negative (value * Nat.pow 10 d.exponent.toNat) 1
  else
    Binary64.nearest? d.negative value (Nat.pow 10 (-d.exponent).toNat)

/-- The finite number that a text denotes. -/
def read? (cs : List Char) : Option Binary64 :=
  ofText? cs >>= nearest?

end Decimal

end BendSyntax
