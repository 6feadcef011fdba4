import BendSyntax.Grammar.Expressions

/-! Parsers over the pieces of a text. They stand for readings where only the tokens matter: a
parser knows neither a tree nor a memory nor a limit, and a `>>` is two pieces to it. -/

namespace BendSyntax

/-- What the grammar sees of a token, or of one half of a `>>`. -/
structure Piece where
  kind : TokenKind
  lexeme : String
  /-- Whether it touches what stands in front of it. -/
  tight : Bool
  /-- The second half of a `>>`. -/
  second : Bool
  deriving Repr, DecidableEq

namespace Pieces

/-- The two halves of a `>>` stand next. -/
def joined : List Piece → Bool
  | p :: q :: _ => p.kind = .mark .greater && q.kind = .mark .greater && q.second
  | _ => false

/-- The kind of the next token: two halves of a `>>` are one token where both are left. -/
def kind (ps : List Piece) : TokenKind :=
  if joined ps then .mark .shiftRight else (ps.head?.map (·.kind)).getD .eof

/-- What stands behind the next token. -/
def behind (ps : List Piece) : List Piece := if joined ps then ps.tail.tail else ps.tail

def tight (ps : List Piece) : Bool := ps.head?.any (·.tight)

def lexeme (ps : List Piece) : String := (ps.head?.map (·.lexeme)).getD ""

/-- `{==}` stands next. -/
def atRefl (ps : List Piece) : Bool :=
  kind ps = .mark .leftBrace && kind ps.tail = .mark .eqEq && kind ps.tail.tail = .mark .rightBrace

/-- An operand can begin here. -/
def startsOperand (ps : List Piece) : Bool :=
  Cursor.opensArgument (kind ps) || Cursor.opensOperand (kind ps) || atRefl ps

theorem behind_suffix (ps : List Piece) : behind ps <:+ ps := by
  unfold behind
  split
  · exact (List.tail_suffix _).trans (List.tail_suffix ps)
  · exact List.tail_suffix ps

theorem behind_length_lt (p : Piece) (ps : List Piece) :
    (behind (p :: ps)).length < (p :: ps).length := by
  refine Nat.lt_succ_of_le ?_
  unfold behind
  split
  · exact (List.tail_suffix ps).length_le
  · exact Nat.le_refl _

/-- Kinds of tokens that are always one piece, and not half of one. -/
def isWhole : TokenKind → Bool
  | .eof | .mark .greater | .mark .shiftRight => false
  | _ => true

theorem exists_of_kind {ps : List Piece} {k : TokenKind} (h : kind ps = k)
    (hwhole : isWhole k = true) : ∃ p, ps = p :: ps.tail ∧ p.kind = k ∧ behind ps = ps.tail := by
  unfold kind at h
  split at h
  · subst h
    cases hwhole
  · rename_i hjoined
    cases ps with
    | nil =>
        subst h
        cases hwhole
    | cons p qs => exact ⟨p, rfl, h, if_neg hjoined⟩

end Pieces

/-- A parser takes pieces from the front, or fails. -/
structure Parser (α : Type) where
  run : List Piece → Option (α × List Piece)
  suffix : ∀ {ps : List Piece} {a : α} {qs : List Piece}, run ps = some (a, qs) → qs <:+ ps

namespace Parser

variable {α β : Type}

/-- An answer from what stands next. -/
def asks (f : List Piece → α) : Parser α where
  run ps := some (f ps, ps)
  suffix h := by
    cases h
    exact List.suffix_rfl

instance : Monad Parser where
  pure a := asks fun _ => a
  bind r f := {
    run := fun ps => (r.run ps).bind fun x => (f x.1).run x.2
    suffix := by
      intro ps b rs h
      obtain ⟨⟨a, qs⟩, hr, hf⟩ := Option.bind_eq_some_iff.mp h
      exact ((f a).suffix hf).trans (r.suffix hr) }

def fail : Parser α where
  run _ := none
  suffix h := by cases h

@[simp] theorem run_asks (f : List Piece → α) (ps : List Piece) :
    (asks f).run ps = some (f ps, ps) := rfl

@[simp] theorem run_pure (a : α) (ps : List Piece) : (pure a : Parser α).run ps = some (a, ps) := rfl

@[simp] theorem run_fail (ps : List Piece) : (fail : Parser α).run ps = none := rfl

theorem run_bind (r : Parser α) (f : α → Parser β) (ps : List Piece) :
    (r >>= f).run ps = (r.run ps).bind fun x => (f x.1).run x.2 := rfl

theorem run_asks_bind (g : List Piece → α) (f : α → Parser β) (ps : List Piece) :
    (asks g >>= f).run ps = (f (g ps)).run ps := rfl

theorem run_bind_eq_some {r : Parser α} {f : α → Parser β} {ps rs : List Piece} {b : β} :
    (r >>= f).run ps = some (b, rs) ↔
      ∃ a qs, r.run ps = some (a, qs) ∧ (f a).run qs = some (b, rs) := by
  rw [run_bind, Option.bind_eq_some_iff, Prod.exists]

/-! ## Pieces -/

def kind : Parser TokenKind := asks Pieces.kind

/-- Whether something holds of what stands next. -/
def looks (f : List Piece → Bool) : Parser Bool := asks f

def sees (k : TokenKind) : Parser Bool := looks fun ps => Pieces.kind ps = k

/-- Takes the next token. -/
def advance : Parser Unit where
  run ps := if ps.isEmpty then none else some ((), Pieces.behind ps)
  suffix {ps} _ _ h := by
    split at h
    · cases h
    · cases h
      exact Pieces.behind_suffix ps

def accept (k : TokenKind) : Parser Bool := do
  if ← sees k then
    advance
    return true
  else return false

def expect (k : TokenKind) : Parser Unit := do
  if ← sees k then advance else fail

/-- Takes a `>`, which may be the first half of a `>>`. -/
def closeAngle : Parser Unit where
  run ps :=
    if Pieces.kind ps = .mark .greater ∨ Pieces.kind ps = .mark .shiftRight then some ((), ps.tail)
    else none
  suffix {ps} _ _ h := by
    split at h
    · cases h
      exact List.tail_suffix ps
    · cases h

/-! ## Loops -/

open Reading (Round)

/-- Repeats rounds until one is the last, as long as they take something. -/
def runLoop (step : α → Parser (Round α)) (a : α) (ps : List Piece) : Option (α × List Piece) :=
  match (step a).run ps with
  | some (.done b, qs) => some (b, qs)
  | some (.more b, qs) => if qs.length < ps.length then runLoop step b qs else some (b, qs)
  | none => none
termination_by ps.length

theorem suffix_runLoop {step : α → Parser (Round α)} {a b : α} {ps rs : List Piece}
    (h : runLoop step a ps = some (b, rs)) : rs <:+ ps := by
  fun_induction runLoop with
  | case1 a ps b qs hstep =>
      cases h
      exact (step a).suffix hstep
  | case2 a ps b qs hstep hlt ih => exact (ih h).trans ((step a).suffix hstep)
  | case3 a ps b qs hstep hge =>
      cases h
      exact (step a).suffix hstep
  | case4 a ps hstep => cases h

def loop (step : α → Parser (Round α)) (a : α) : Parser α where
  run := runLoop step a
  suffix := suffix_runLoop

theorem run_loop (step : α → Parser (Round α)) (a : α) (ps : List Piece) :
    (loop step a).run ps = match (step a).run ps with
      | some (.done b, qs) => some (b, qs)
      | some (.more b, qs) =>
          if qs.length < ps.length then (loop step b).run qs else some (b, qs)
      | none => none :=
  runLoop.eq_1 step a ps

theorem run_loop_done {step : α → Parser (Round α)} {a b : α} {ps qs : List Piece}
    (h : (step a).run ps = some (.done b, qs)) : (loop step a).run ps = some (b, qs) := by
  rw [run_loop, h]

theorem run_loop_more {step : α → Parser (Round α)} {a b : α} {ps qs : List Piece}
    (h : (step a).run ps = some (.more b, qs)) (hlt : qs.length < ps.length) :
    (loop step a).run ps = (loop step b).run qs := by
  rw [run_loop, h]
  exact if_pos hlt

/-- One more item, behind which the last one is over if no comma follows. -/
def commaRound (item : Parser α) (acc : List α) : Parser (Round (List α)) := do
  let acc := acc ++ [← item]
  if ← accept (.mark .comma) then return .more acc else return .done acc

/-- Items, at least one, with commas between them. -/
def commaList (item : Parser α) : Parser (List α) := loop (commaRound item) []

def separatedRound (bracket : TokenKind) (item : Parser α) (acc : List α) :
    Parser (Round (List α)) := do
  if ← sees bracket then return .done acc else commaRound item acc

/-- Items with commas between them, up to a closing bracket; a comma may stand in front
of the bracket. -/
def separated (bracket : TokenKind) (item : Parser α) : Parser (List α) :=
  loop (separatedRound bracket item) []

/-- Goes back if a parser fails. -/
def attempt (r : Parser α) : Parser (Option α) where
  run ps :=
    match r.run ps with
    | some (a, qs) => some (some a, qs)
    | none => some (none, ps)
  suffix {ps} a qs h := by
    split at h
    · rename_i hr
      cases h
      exact r.suffix hr
    · cases h
      exact List.suffix_rfl

theorem eq_of_attempt_none {r : Parser α} {ps qs : List Piece}
    (h : (attempt r).run ps = some (none, qs)) : r.run ps = none ∧ qs = ps := by
  simp only [attempt] at h
  split at h
  · cases h
  · cases h
    exact ⟨‹_›, rfl⟩

theorem eq_of_attempt_some {r : Parser α} {ps qs : List Piece} {a : α}
    (h : (attempt r).run ps = some (some a, qs)) : r.run ps = some (a, qs) := by
  simp only [attempt] at h
  split at h
  · cases h
    assumption
  · cases h

/-! ## Parsers that take something -/

/-- A parser that succeeds has taken something. -/
def Takes (r : Parser α) : Prop :=
  ∀ ps a qs, r.run ps = some (a, qs) → qs.length < ps.length

theorem takes_advance : Takes advance := by
  intro ps a qs h
  cases ps with
  | nil => cases h
  | cons p ps =>
      cases h
      exact Pieces.behind_length_lt p ps

theorem run_advance {ps : List Piece} {k : TokenKind} (h : Pieces.kind ps = k)
    (hwhole : Pieces.isWhole k = true) : advance.run ps = some ((), ps.tail) := by
  obtain ⟨p, hps, -, hbehind⟩ := Pieces.exists_of_kind h hwhole
  rw [← hbehind, hps]
  rfl

theorem Takes.bind {r : Parser α} (h : Takes r) (f : α → Parser β) : Takes (r >>= f) := by
  intro ps b rs hrun
  obtain ⟨a, qs, hr, hf⟩ := run_bind_eq_some.mp hrun
  exact Nat.lt_of_le_of_lt ((f a).suffix hf).length_le (h ps a qs hr)

theorem Takes.bind' (r : Parser α) {f : α → Parser β} (h : ∀ a, Takes (f a)) :
    Takes (r >>= f) := by
  intro ps b rs hrun
  obtain ⟨a, qs, hr, hf⟩ := run_bind_eq_some.mp hrun
  exact Nat.lt_of_lt_of_le (h a qs b rs hf) (r.suffix hr).length_le

theorem takes_fail : Takes (fail : Parser α) := fun _ _ _ h => by cases h

theorem Takes.ite {c : Prop} [Decidable c] {r r' : Parser α} (h : c → Takes r)
    (h' : ¬c → Takes r') : Takes (if c then r else r') := by
  split
  · exact h ‹_›
  · exact h' ‹_›

/-! ## Parsers that do the same on short texts -/

/-- Two parsers that do the same on less than `n` pieces. -/
def Below (n : Nat) (r r' : Parser α) : Prop := ∀ ps, ps.length < n → r.run ps = r'.run ps

section Below

variable {m n : Nat} {r r' : Parser α} {f f' : α → Parser β}

theorem Below.refl (n : Nat) (r : Parser α) : Below n r r := fun _ _ => rfl

theorem Below.mono (h : Below n r r') (hle : m ≤ n) : Below m r r' :=
  fun ps hps => h ps (Nat.lt_of_lt_of_le hps hle)

theorem Below.bind (h : Below n r r') (hf : ∀ a, Below n (f a) (f' a)) :
    Below n (r >>= f) (r' >>= f') := by
  intro ps hps
  rw [run_bind, run_bind, ← h ps hps]
  cases hr : r.run ps with
  | none => rfl
  | some x => exact hf x.1 x.2 (Nat.lt_of_le_of_lt (r.suffix hr).length_le hps)

/-- What follows something that takes a piece has one piece less. -/
theorem Below.behind (ht : Takes r) (h : Below (n + 1) r r') (hf : ∀ a, Below n (f a) (f' a)) :
    Below (n + 1) (r >>= f) (r' >>= f') := by
  intro ps hps
  rw [run_bind, run_bind, ← h ps hps]
  cases hr : r.run ps with
  | none => rfl
  | some x => exact hf x.1 x.2 (Nat.lt_of_lt_of_le (ht ps x.1 x.2 hr) (Nat.le_of_lt_succ hps))

theorem Below.behind_advance {f f' : Unit → Parser β} (hf : ∀ a, Below n (f a) (f' a)) :
    Below (n + 1) (advance >>= f) (advance >>= f') :=
  .behind takes_advance (.refl _ _) hf

theorem Below.map (h : Below n r r') (g : α → β) : Below n (g <$> r) (g <$> r') :=
  h.bind fun _ => .refl _ _

theorem Below.ite {c : Prop} [Decidable c] {q q' : Parser α} (h : c → Below n r r')
    (h' : ¬c → Below n q q') : Below n (if c then r else q) (if c then r' else q') := by
  split
  · exact h ‹_›
  · exact h' ‹_›

theorem Below.loop {step step' : α → Parser (Round α)} (h : ∀ a, Below n (step a) (step' a))
    (a : α) : Below n (loop step a) (loop step' a) := by
  intro ps hps
  change runLoop step a ps = runLoop step' a ps
  fun_induction runLoop step a ps with
  | case1 a ps b qs hstep => rw [runLoop, ← h a ps hps, hstep]
  | case2 a ps b qs hstep hlt ih =>
      rw [ih (Nat.lt_trans hlt hps), runLoop.eq_1 step' a ps, ← h a ps hps, hstep]
      exact (if_pos hlt).symm
  | case3 a ps b qs hstep hge =>
      rw [runLoop, ← h a ps hps, hstep]
      exact (if_neg hge).symm
  | case4 a ps hstep => rw [runLoop, ← h a ps hps, hstep]

theorem Below.commaRound (h : Below n r r') (acc : List α) :
    Below n (commaRound r acc) (commaRound r' acc) :=
  .bind h fun _ => .refl _ _

theorem Below.commaList (h : Below n r r') : Below n (commaList r) (commaList r') :=
  .loop (fun _ => h.commaRound _) _

theorem Below.separated (h : Below n r r') (bracket : TokenKind) :
    Below n (separated bracket r) (separated bracket r') :=
  .loop (fun _ => .bind (.refl _ _) fun _ => .ite (fun _ => .refl _ _) fun _ => h.commaRound _) _

theorem Below.attempt (h : Below n r r') : Below n (attempt r) (attempt r') := by
  intro ps hps
  simp only [Parser.attempt, h ps hps]

end Below

end Parser

end BendSyntax
