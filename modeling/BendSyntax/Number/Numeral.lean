/-!
# Integer numerals

The value of a row of digits in a radix, with or without a sign in front. A
numeral has at least one digit; letters stand for the digits from ten on, in
either case.
-/

namespace BendSyntax.Numeral

/-- The digit that a character stands for in a radix. -/
def digit? (radix : Nat) (c : Char) : Option Nat :=
  let n :=
    if '0' ≤ c ∧ c ≤ '9' then c.toNat - 48
    else if 'a' ≤ c ∧ c ≤ 'z' then c.toNat - 87
    else if 'A' ≤ c ∧ c ≤ 'Z' then c.toNat - 55
    else radix
  if n < radix then some n else none

def isDigit (radix : Nat) (c : Char) : Bool := (digit? radix c).isSome

/-- Reads on from a value of `acc`, most significant digit first. -/
def continue? (radix : Nat) (acc : Nat) : List Char → Option Nat
  | [] => some acc
  | c :: cs =>
      match digit? radix c with
      | some d => continue? radix (acc * radix + d) cs
      | none => none

/-- The value of a non-empty row of digits. -/
def value? (radix : Nat) : List Char → Option Nat
  | [] => none
  | cs => continue? radix 0 cs

/-- A numeral that may carry a plus sign. -/
def unsigned? (radix : Nat) : List Char → Option Nat
  | '+' :: cs => value? radix cs
  | cs => value? radix cs

/-- A numeral that may carry either sign. -/
def signed? (radix : Nat) : List Char → Option Int
  | '+' :: cs => (value? radix cs).map Int.ofNat
  | '-' :: cs => (value? radix cs).map fun n => -Int.ofNat n
  | cs => (value? radix cs).map Int.ofNat

/-- The value denoted by digits, most significant first. -/
def ofDigits (radix : Nat) (digits : List Nat) : Nat :=
  digits.foldl (fun acc d => acc * radix + d) 0

theorem digit?_lt {radix : Nat} {c : Char} {d : Nat} (h : digit? radix c = some d) :
    d < radix := by
  unfold digit? at h
  grind

end BendSyntax.Numeral
