/-!
# Finite binary floating-point numbers of 64 bits

A finite number is `± m · 2 ^ q`, kept with its sign so that the two zeros differ.
`nearest?` rounds a quotient of natural numbers to the closest such number, a tie
going to the even significand, and answers nothing above the largest one.
-/

namespace BendSyntax

structure Binary64 where
  negative : Bool
  /-- Below `2 ^ 53`; below `2 ^ 52` only at the least exponent. -/
  significand : Nat
  exponent : Int
  deriving Repr, DecidableEq, Inhabited

namespace Binary64

def leastExponent : Int := -1074

def greatestExponent : Int := 971

/-- The least significand of 53 bits, `2 ^ 52`. -/
def leastNormal : Nat := 0x10000000000000

def zero (negative : Bool) : Binary64 := ⟨negative, 0, leastExponent⟩

def isZero (x : Binary64) : Bool := x.significand == 0

/-- `num / den`, multiplied by `2 ^ -q`, as a quotient. -/
def scaled (num den : Nat) (q : Int) : Nat × Nat :=
  if q ≤ 0 then (num <<< (-q).toNat, den) else (num, den <<< q.toNat)

/-- The natural number closest to a quotient; a tie goes to the even one. -/
def roundHalfEven (num den : Nat) : Nat :=
  let m := num / den
  let twice := 2 * (num % den)
  if den < twice ∨ (twice = den ∧ m % 2 = 1) then m + 1 else m

/-- The exponent at which a positive quotient has a significand of 53 bits, or the
least exponent for a smaller quotient. -/
def exponentFor (num den : Nat) : Int :=
  let q := (num.log2 : Int) - (den.log2 : Int) - 53
  let (a, b) := scaled num den q
  let q := if a / b < 2 * leastNormal then q else q + 1
  max leastExponent q

/-- The number closest to `± num / den`, if there is a finite one. -/
def nearest? (negative : Bool) (num den : Nat) : Option Binary64 :=
  if num = 0 then some (zero negative)
  else
    let q := exponentFor num den
    let (a, b) := scaled num den q
    let m := roundHalfEven a b
    let (m, q) := if m = 2 * leastNormal then (leastNormal, q + 1) else (m, q)
    if q ≤ greatestExponent then some ⟨negative, m, q⟩ else none

/-- The 64 bits of the interchange format, as a natural number. -/
def bits (x : Binary64) : Nat :=
  let sign := if x.negative then 0x8000000000000000 else 0
  let magnitude :=
    if x.significand < leastNormal then x.significand
    else (x.exponent - leastExponent + 1).toNat * leastNormal + (x.significand - leastNormal)
  sign + magnitude

end Binary64

end BendSyntax
