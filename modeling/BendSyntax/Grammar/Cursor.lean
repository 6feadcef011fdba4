import BendSyntax.Token.Basic

/-!
# Cursors

A cursor stands in front of the tokens that have not been read. The token `>>` can be
read in halves, each of which closes a list in angle brackets; between the halves the
cursor stands inside the token. At the end of the text every look finds the end.
-/

namespace BendSyntax

structure Cursor where
  rest : List Token
  eof : Token
  /-- How many tokens are behind. -/
  index : Nat
  /-- The first half of the `>>` at the cursor has been read. -/
  split : Bool
  /-- The span of the last token that was read. -/
  last : Span
  deriving Repr, DecidableEq, Inhabited

namespace Cursor

def start (ts : Tokens) : Cursor := ⟨ts.body, ts.eof, 0, false, .zero⟩

def tokenAt (c : Cursor) (n : Nat) : Token :=
  match c.rest[n]? with
  | some t => t
  | none => c.eof

def token (c : Cursor) : Token :=
  match c.rest with
  | t :: _ => t
  | [] => c.eof

/-- The kind of the next token; half of a `>>` counts as a `>`. -/
def kind (c : Cursor) : TokenKind :=
  if c.split && c.token.kind = .mark .shiftRight then .mark .greater else c.token.kind

/-- The kind of the token behind `n` others. -/
def kindAt (c : Cursor) : Nat → TokenKind
  | 0 => c.kind
  | n + 1 => (c.tokenAt (n + 1)).kind

def lexeme (c : Cursor) : String := c.token.lexeme

/-- The span of the next token, or of the half of it that is left. -/
def span (c : Cursor) : Span :=
  let s := c.token.span
  if c.split then ⟨s.start + 1, s.stop, s.line, s.column + 1⟩ else s

/-- Whether the next token touches what was read last. -/
def isTight (c : Cursor) : Bool := c.split || c.token.isTight

def tightAt (c : Cursor) (n : Nat) : Bool := (c.tokenAt n).isTight

/-- Reads the next token. The end of the text stays in front of the cursor. -/
def advance (c : Cursor) : Cursor :=
  match c.rest with
  | _ :: ts => ⟨ts, c.eof, c.index + 1, false, c.span⟩
  | [] => { c with last := c.span }

/-- Reads the first half of a `>>`. -/
def halve (c : Cursor) : Cursor :=
  let s := c.token.span
  { c with split := true, last := ⟨s.start, s.start + 1, s.line, s.column⟩ }

/-- Goes back to the first half of a `>>`, as the error recovery does. -/
def whole (c : Cursor) : Cursor := { c with split := false }

/-- A bound on how often the cursor can still move: a token is read in two halves at most. -/
def remaining (c : Cursor) : Nat := 2 * c.rest.length + if c.split then 0 else 1

/-- The next token as messages call it. -/
def described (c : Cursor) : String :=
  match c.kind with
  | .eof => "end of file"
  | .invalid => s!"invalid token `{c.lexeme}`"
  | .mark .greater => if c.split then "`>`" else s!"`{c.lexeme}`"
  | _ => s!"`{c.lexeme}`"

@[simp] theorem tokenAt_zero (c : Cursor) : c.tokenAt 0 = c.token := by
  unfold tokenAt token
  cases c.rest <;> rfl

theorem kind_of_not_split {c : Cursor} (h : c.split = false) : c.kind = c.token.kind := by
  simp [kind, h]

/-- Whether a cursor may come to stand where another one does: some tokens are behind now,
and the rest is still the same text. -/
def Reaches (c d : Cursor) : Prop :=
  ∃ n ≤ c.rest.length, d.rest = c.rest.drop n ∧ d.index = c.index + n ∧ d.eof = c.eof

namespace Reaches

theorem refl (c : Cursor) : c.Reaches c := ⟨0, by simp, by simp, rfl, rfl⟩

theorem trans {c d e : Cursor} (h : c.Reaches d) (k : d.Reaches e) : c.Reaches e := by
  obtain ⟨m, hm, hrest, hindex, heof⟩ := h
  obtain ⟨n, hn, krest, kindex, keof⟩ := k
  rw [hrest, List.length_drop] at hn
  refine ⟨m + n, by omega, ?_, by omega, keof.trans heof⟩
  rw [krest, hrest, List.drop_drop]

theorem advance (c : Cursor) : c.Reaches c.advance := by
  unfold Cursor.advance
  split
  · rename_i t ts h
    exact ⟨1, by simp [h], by simp [h], rfl, rfl⟩
  · exact ⟨0, by simp, by simp, rfl, rfl⟩

theorem halve (c : Cursor) : c.Reaches c.halve := refl c

theorem whole (c : Cursor) : c.Reaches c.whole := refl c

end Reaches

end Cursor

end BendSyntax
