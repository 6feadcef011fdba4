/-!
# Gaps between tokens

Between tokens stand blanks, comments from `#` to the end of the line, and comments
between `{-` and the next `-}`. Comments of the second form do not nest, and one that
is never closed runs to the end of the text.
-/

namespace BendSyntax

structure Gap where
  /-- How many characters the gap has. -/
  length : Nat
  rest : List Char
  /-- How many characters of the gap stand before a comment that is never closed. -/
  unclosed : Option Nat
  deriving Repr, DecidableEq

namespace Gap

/-- What the characters being skipped belong to. -/
inductive Inside where
  | blanks
  | line
  | block (start : Nat)

def isBlank (c : Char) : Bool := c == ' ' || c == '\t' || c == '\r' || c == '\n'

/-- Skips a gap of which `n` characters are behind. -/
def scan : Inside → Nat → List Char → Gap
  | .blanks, n, '\x7b' :: '-' :: cs => scan (.block n) (n + 2) cs
  | .blanks, n, c :: cs =>
      if isBlank c then scan .blanks (n + 1) cs
      else if c = '#' then scan .line (n + 1) cs
      else ⟨n, c :: cs, none⟩
  | .line, n, c :: cs => scan (if c = '\n' then .blanks else .line) (n + 1) cs
  | .block _, n, '-' :: '\x7d' :: cs => scan .blanks (n + 2) cs
  | .block start, n, _ :: cs => scan (.block start) (n + 1) cs
  | .block start, n, [] => ⟨n, [], some start⟩
  | _, n, [] => ⟨n, [], none⟩

/-- The gap at the front of a text. -/
def atFront (cs : List Char) : Gap := scan .blanks 0 cs

theorem scan_length (i : Inside) (n : Nat) (cs : List Char) :
    (scan i n cs).length + (scan i n cs).rest.length = n + cs.length := by
  fun_induction scan i n cs <;> simp_all <;> omega

theorem rest_length_le (cs : List Char) : (atFront cs).rest.length ≤ cs.length := by
  have := scan_length .blanks 0 cs
  unfold atFront
  omega

end Gap

end BendSyntax
