import BendSyntax.Source.Position

/-!
# Spans of a source text

A span is a half-open range of byte offsets together with the line and column of
its first byte. `Span.hull` covers two spans; `Span.text` cuts a span out of
a source and answers the empty text unless both ends fall between characters.
-/

namespace BendSyntax

structure Span where
  start : Nat
  stop : Nat
  line : Nat
  column : Nat
  deriving Repr, DecidableEq, Inhabited

namespace Span

/-- The span before any text. -/
def zero : Span := ⟨0, 0, 0, 0⟩

/-- The span of the text that lies between two positions. -/
def between (p q : Position) : Span := ⟨p.offset, q.offset, p.line, p.column⟩

/-- The smallest span that covers both; it begins where the earlier one begins,
the first of the two when both begin together. -/
def hull (s t : Span) : Span :=
  let first := if s.start ≤ t.start then s else t
  ⟨first.start, max s.stop t.stop, first.line, first.column⟩

/-- The empty span at the start of `s`. -/
def opening (s : Span) : Span := { s with stop := s.start }

def contains (s t : Span) : Bool := s.start ≤ t.start && t.stop ≤ s.stop

def length (s : Span) : Nat := s.stop - s.start

def isEmpty (s : Span) : Bool := s.start == s.stop

/-- What remains of a text after its first `n` bytes, if they end a character. -/
def dropBytes : Nat → List Char → Option (List Char)
  | 0, cs => some cs
  | _ + 1, [] => none
  | n + 1, c :: cs =>
      if c.utf8Size ≤ n + 1 then dropBytes (n + 1 - c.utf8Size) cs else none

/-- The first `n` bytes of a text, if they end a character. -/
def takeBytes : Nat → List Char → Option (List Char)
  | 0, _ => some []
  | _ + 1, [] => none
  | n + 1, c :: cs =>
      if c.utf8Size ≤ n + 1 then (takeBytes (n + 1 - c.utf8Size) cs).map (c :: ·)
      else none

def text? (s : Span) (source : List Char) : Option (List Char) :=
  if s.start ≤ s.stop then
    dropBytes s.start source >>= takeBytes (s.stop - s.start)
  else none

/-- The part of `source` that the span covers. -/
def text (s : Span) (source : String) : String :=
  match s.text? source.toList with
  | some cs => String.ofList cs
  | none => ""

/-- The place of a span as `LINE:COLUMN`. -/
def place (s : Span) : String := s!"{s.line}:{s.column}"

@[simp] theorem hull_start (s t : Span) : (s.hull t).start = min s.start t.start := by
  unfold hull
  grind

@[simp] theorem hull_stop (s t : Span) : (s.hull t).stop = max s.stop t.stop := rfl

theorem hull_self (s : Span) : s.hull s = s := by
  simp [hull]

theorem contains_refl (s : Span) : s.contains s = true := by
  simp [contains]

theorem contains_trans {s t u : Span} (h : s.contains t = true) (k : t.contains u = true) :
    s.contains u = true := by
  grind [contains]

theorem contains_hull_left (s t : Span) : (s.hull t).contains s = true := by
  grind [contains, hull_start, hull_stop]

theorem contains_hull_right (s t : Span) : (s.hull t).contains t = true := by
  grind [contains, hull_start, hull_stop]

end Span

end BendSyntax
