import BendSyntax.Number.Binary64

/-!
# The shortest decimal that reads back

Every finite binary number is the closest one to all reals of an interval. Of the
decimals in that interval `Binary64.shortest` takes one with the fewest digits, and
of those the closest, the greater of two that are equally close. `Binary64.shown`
lays the digits out: positionally for magnitudes from `10 ^ -4` up to `10 ^ 16`, with a
fraction always, and with a power of ten otherwise.
-/

namespace BendSyntax.Binary64

/-- An interval around a number, in units in which all three are whole: every
quantity below is a multiple of `unit`, a power of two. -/
structure Rounding where
  low : Nat
  value : Nat
  high : Nat
  /-- Whether the ends round to the number too, as they do to an even one. -/
  closed : Bool
  unit : Int

/-- The reals that round to a positive number. The gap below a power of two is half
the gap above it, so quarters of the last place are counted. -/
def rounding (x : Binary64) : Rounding :=
  let m := x.significand
  let narrow := m == leastNormal && leastExponent < x.exponent
  ⟨4 * m - (if narrow then 1 else 2), 4 * m, 4 * m + 2, m % 2 == 0, x.exponent - 2⟩

/-- `n` units as a quotient. -/
def Rounding.inUnits (r : Rounding) (n : Nat) : Nat × Nat :=
  if 0 ≤ r.unit then (n <<< r.unit.toNat, 1) else (n, 1 <<< (-r.unit).toNat)

/-- Whether `c · 10 ^ k` lies in the interval. -/
def Rounding.holds (r : Rounding) (c : Nat) (k : Int) : Bool :=
  let (low, den) := r.inUnits r.low
  let (high, _) := r.inUnits r.high
  let (c, den) :=
    if 0 ≤ k then (c * Nat.pow 10 k.toNat * den, 1) else (c * den, Nat.pow 10 (-k).toNat)
  if r.closed then low * den ≤ c && c ≤ high * den else low * den < c && c < high * den

/-- The multiples of `10 ^ k` on both sides of the number, with the doubled distance
to the lower one and the step, in a common unit. -/
def Rounding.around (r : Rounding) (k : Int) : Nat × Nat × Nat :=
  let (value, den) := r.inUnits r.value
  let (value, step) :=
    if 0 ≤ k then (value, den * Nat.pow 10 k.toNat) else (value * Nat.pow 10 (-k).toNat, den)
  (value / step, 2 * (value % step), step)

/-- The closest multiple of `10 ^ k` that lies in the interval. -/
def Rounding.hit? (r : Rounding) (k : Int) : Option Nat :=
  let (lower, twice, step) := r.around k
  match r.holds lower k, r.holds (lower + 1) k with
  | true, true => if twice < step then some lower else some (lower + 1)
  | true, false => some lower
  | false, true => some (lower + 1)
  | false, false => none

/-- Tries ever finer powers of ten, `k`, `k - 1`, and so on. -/
def Rounding.search (r : Rounding) : Nat → Int → Nat × Int
  | 0, k => ((r.around k).1, k)
  | n + 1, k =>
      match r.hit? k with
      | some c => (c, k)
      | none => search r n (k - 1)

/-- A power of ten that is too coarse for the number to have a digit there. -/
def coarse (x : Binary64) : Int :=
  let top := (x.significand.log2 : Int) + x.exponent + 1
  if 0 ≤ top then top * 30103 / 100000 + 1 else top * 30102 / 100000 + 1

/-- The digits of a positive number and the exponent of the last of them. -/
def shortest (x : Binary64) : Nat × Int :=
  x.rounding.search 20 x.coarse

/-- The digits of `c` without the zeros at its end, and how many those were. -/
def strip (c : Nat) : List Char × Nat :=
  let digits := Nat.toDigits 10 c
  let zeros := (digits.reverse.takeWhile (· == '0')).length
  (digits.take (digits.length - zeros), zeros)

/-- Digits with a point after the first `whole` of them, and zeros where the point
lies outside. -/
def positional (digits : List Char) (whole : Int) : List Char :=
  if whole ≤ 0 then
    ['0', '.'] ++ List.replicate (-whole).toNat '0' ++ digits
  else
    let before := digits.take whole.toNat
    let after := digits.drop whole.toNat
    before ++ List.replicate (whole.toNat - before.length) '0' ++ ['.'] ++
      (if after.isEmpty then ['0'] else after)

/-- Digits with a point after the first and a power of ten. -/
def scientific (digits : List Char) (power : Int) : List Char :=
  let mantissa :=
    match digits with
    | d :: e :: ds => d :: '.' :: e :: ds
    | ds => ds
  mantissa ++ ['e'] ++ (toString power).toList

/-- The text of a number. -/
def shown (x : Binary64) : String :=
  let magnitude :=
    if x.isZero then ['0', '.', '0']
    else
      let (c, k) := x.shortest
      let (digits, zeros) := strip c
      let whole := k + zeros + digits.length
      if -4 < whole ∧ whole ≤ 16 then positional digits whole
      else scientific digits (whole - 1)
  String.ofList (if x.negative then '-' :: magnitude else magnitude)

end BendSyntax.Binary64
