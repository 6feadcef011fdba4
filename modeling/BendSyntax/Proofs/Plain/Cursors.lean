import BendSyntax.Proofs.Layout.Cursors
import BendSyntax.Proofs.Plain.Growing

/-! The pieces that stand in front of a cursor. A cursor that moves over a token, or over half of
a `>>`, leaves the pieces behind it that a parser leaves. -/

namespace BendSyntax

open Pieces

/-- A `>>` is two pieces, every other token is one. -/
def Token.pieces (t : Token) : List Piece :=
  if t.kind = .mark .shiftRight then
    [⟨.mark .greater, ">", t.isTight, false⟩, ⟨.mark .greater, ">", true, true⟩]
  else [⟨t.kind, t.lexeme, t.isTight, false⟩]

namespace Pieces

/-- The pieces of tokens. -/
def ofTokens (ts : List Token) : List Piece := ts.flatMap Token.pieces

@[simp] theorem ofTokens_nil : ofTokens [] = [] := rfl

theorem ofTokens_cons (t : Token) (ts : List Token) :
    ofTokens (t :: ts) = t.pieces ++ ofTokens ts := rfl

theorem ofTokens_append (ts us : List Token) :
    ofTokens (ts ++ us) = ofTokens ts ++ ofTokens us :=
  List.flatMap_append

variable {t : Token} {ts : List Token}

theorem ofTokens_shiftRight (h : t.kind = .mark .shiftRight) :
    ofTokens (t :: ts) = ⟨.mark .greater, ">", t.isTight, false⟩ ::
      ⟨.mark .greater, ">", true, true⟩ :: ofTokens ts := by
  rw [ofTokens_cons, Token.pieces, if_pos h]
  rfl

theorem ofTokens_whole (h : t.kind ≠ .mark .shiftRight) :
    ofTokens (t :: ts) = ⟨t.kind, t.lexeme, t.isTight, false⟩ :: ofTokens ts := by
  rw [ofTokens_cons, Token.pieces, if_neg h]
  rfl

/-- No token begins with the second half of a `>>`. -/
theorem joined_ofTokens (p : Piece) (ts : List Token) : joined (p :: ofTokens ts) = false := by
  cases ts with
  | nil => rfl
  | cons t ts =>
      by_cases h : t.kind = .mark .shiftRight
      · rw [ofTokens_shiftRight h]
        simp [joined]
      · rw [ofTokens_whole h]
        simp [joined]

theorem kind_cons (p : Piece) (ts : List Token) : kind (p :: ofTokens ts) = p.kind := by
  rw [kind, joined_ofTokens]
  rfl

theorem behind_cons (p : Piece) (ts : List Token) : behind (p :: ofTokens ts) = ofTokens ts := by
  rw [behind, joined_ofTokens]
  rfl

theorem joined_shiftRight (h : t.kind = .mark .shiftRight) : joined (ofTokens (t :: ts)) = true := by
  rw [ofTokens_shiftRight h]
  rfl

theorem kind_ofTokens_cons (t : Token) (ts : List Token) : kind (ofTokens (t :: ts)) = t.kind := by
  by_cases h : t.kind = .mark .shiftRight
  · rw [kind, joined_shiftRight h, h]
    rfl
  · rw [ofTokens_whole h, kind_cons]

theorem behind_ofTokens (t : Token) (ts : List Token) :
    behind (ofTokens (t :: ts)) = ofTokens ts := by
  by_cases h : t.kind = .mark .shiftRight
  · rw [behind, joined_shiftRight h, ofTokens_shiftRight h]
    rfl
  · rw [ofTokens_whole h, behind_cons]

theorem tight_ofTokens (t : Token) (ts : List Token) : tight (ofTokens (t :: ts)) = t.isTight := by
  by_cases h : t.kind = .mark .shiftRight
  · rw [ofTokens_shiftRight h]
    rfl
  · rw [ofTokens_whole h]
    rfl

theorem length_ofTokens_pos (t : Token) (ts : List Token) :
    (ofTokens ts).length < (ofTokens (t :: ts)).length := by
  by_cases h : t.kind = .mark .shiftRight
  · rw [ofTokens_shiftRight h]
    exact Nat.lt_add_of_pos_right (Nat.succ_pos 1)
  · rw [ofTokens_whole h]
    exact Nat.lt_succ_self _

end Pieces

namespace Cursor

/-- The pieces that have not been read. -/
def pieces (c : Cursor) : List Piece :=
  if c.split then (ofTokens c.rest).tail else ofTokens c.rest

variable {c d : Cursor}

theorem pieces_of_not_split (h : c.split = false) : c.pieces = ofTokens c.rest := by
  rw [pieces, h]
  rfl

namespace Ahead

variable (h : c.Ahead)

include h

theorem pieces_of_nil (hrest : c.rest = []) : c.pieces = [] := by
  rw [pieces_of_not_split (h.split_of_nil hrest), hrest, ofTokens_nil]

/-- Where the first half of a `>>` has been read, the other half is left. -/
theorem pieces_of_split {t : Token} {ts : List Token} (hrest : c.rest = t :: ts)
    (hsplit : c.split = true) :
    t.kind = .mark .shiftRight ∧ c.pieces = ⟨.mark .greater, ">", true, true⟩ :: ofTokens ts := by
  have hkind := h.split hsplit
  rw [token_of_cons hrest] at hkind
  refine ⟨hkind, ?_⟩
  rw [pieces, hsplit, hrest, ofTokens_shiftRight hkind]
  rfl

theorem kind_pieces : Pieces.kind c.pieces = c.kind := by
  cases hrest : c.rest with
  | nil =>
      rw [h.pieces_of_nil hrest, h.kind_of_nil hrest]
      rfl
  | cons t ts =>
      cases hsplit : c.split with
      | true =>
          obtain ⟨hkind, hpieces⟩ := h.pieces_of_split hrest hsplit
          rw [hpieces, kind_cons, Cursor.kind, hsplit, token_of_cons hrest, hkind]
          rfl
      | false =>
          rw [pieces_of_not_split hsplit, hrest, kind_ofTokens_cons, kind_of_not_split hsplit,
            token_of_cons hrest]

theorem tight_pieces (hrest : c.rest ≠ []) : tight c.pieces = c.isTight := by
  obtain ⟨t, ts, hts⟩ := List.exists_cons_of_ne_nil hrest
  cases hsplit : c.split with
  | true =>
      rw [(h.pieces_of_split hts hsplit).2, isTight, hsplit]
      rfl
  | false =>
      rw [pieces_of_not_split hsplit, hts, tight_ofTokens, isTight, hsplit, token_of_cons hts]
      rfl

theorem pieces_advance (hrest : c.rest ≠ []) : c.advance.pieces = behind c.pieces := by
  obtain ⟨t, ts, hts⟩ := List.exists_cons_of_ne_nil hrest
  have hadvance : c.advance.pieces = ofTokens ts := by
    rw [pieces_of_not_split h.advance_split, Cursor.advance, hts]
  rw [hadvance]
  cases hsplit : c.split with
  | true => rw [(h.pieces_of_split hts hsplit).2, behind_cons]
  | false => rw [pieces_of_not_split hsplit, hts, behind_ofTokens]

theorem pieces_ne_nil (hrest : c.rest ≠ []) : c.pieces ≠ [] := by
  obtain ⟨t, ts, hts⟩ := List.exists_cons_of_ne_nil hrest
  intro hnil
  have hkind := h.kind_pieces
  rw [hnil] at hkind
  exact h.kind_ne_eof hrest hkind.symm

theorem run_advance (hkind : c.kind ≠ .eof) :
    Parser.advance.run c.pieces = some ((), c.advance.pieces) := by
  have hrest := h.rest_ne_nil hkind
  rw [h.pieces_advance hrest]
  exact if_neg (by simpa using h.pieces_ne_nil hrest)

theorem run_closeAngle_advance (hkind : c.kind = .mark .greater) :
    Parser.closeAngle.run c.pieces = some ((), c.advance.pieces) := by
  have hrest := h.rest_ne_nil (by simp [hkind])
  have hpieces : Pieces.kind c.pieces = .mark .greater := h.kind_pieces.trans hkind
  have hjoined : joined c.pieces = false := by
    cases hjoined : joined c.pieces with
    | false => rfl
    | true =>
        rw [Pieces.kind, hjoined] at hpieces
        cases hpieces
  rw [h.pieces_advance hrest, behind, hjoined]
  exact if_pos (.inl hpieces)

theorem run_closeAngle_halve (hkind : c.kind = .mark .shiftRight) :
    Parser.closeAngle.run c.pieces = some ((), c.halve.pieces) := by
  have hsplit : c.split = false := by
    cases hsplit : c.split with
    | false => rfl
    | true => simp [Cursor.kind, hsplit, h.split hsplit] at hkind
  have hpieces : Pieces.kind c.pieces = .mark .shiftRight := h.kind_pieces.trans hkind
  have hhalve : c.halve.pieces = c.pieces.tail := by
    rw [pieces_of_not_split hsplit]
    rfl
  rw [hhalve]
  exact if_pos (.inr hpieces)

/-- A token that is one piece has the lexeme of the piece, and what stands behind it are the pieces
of the tokens behind it. -/
theorem pieces_of_isWhole (hwhole : isWhole c.kind = true) :
    ∃ t ts, c.rest = t :: ts ∧ c.split = false ∧
      c.pieces = ⟨t.kind, t.lexeme, t.isTight, false⟩ :: ofTokens ts := by
  have hrest := h.rest_ne_nil (by rintro heq; rw [heq] at hwhole; cases hwhole)
  obtain ⟨t, ts, hts⟩ := List.exists_cons_of_ne_nil hrest
  have hsplit : c.split = false := by
    cases hsplit : c.split with
    | false => rfl
    | true => simp [Cursor.kind, hsplit, h.split hsplit, isWhole] at hwhole
  have hkind : c.kind = t.kind := by rw [kind_of_not_split hsplit, token_of_cons hts]
  refine ⟨t, ts, hts, hsplit, ?_⟩
  rw [pieces_of_not_split hsplit, hts, ofTokens_whole]
  rintro hshift
  rw [hkind, hshift] at hwhole
  cases hwhole

theorem lexeme_pieces (hwhole : isWhole c.kind = true) : Pieces.lexeme c.pieces = c.lexeme := by
  obtain ⟨t, ts, hts, -, hpieces⟩ := h.pieces_of_isWhole hwhole
  rw [hpieces, Cursor.lexeme, token_of_cons hts]
  rfl

theorem kind_drop (n : Nat) : Pieces.kind (ofTokens (c.rest.drop n)) = (c.tokenAt n).kind := by
  unfold tokenAt
  cases hrest : c.rest.drop n with
  | nil =>
      have hnone : c.rest[n]? = none := List.getElem?_eq_none (List.drop_eq_nil_iff.mp hrest)
      rw [hnone]
      exact h.eof_kind.symm
  | cons t ts =>
      have hsome : c.rest[n]? = some t := by
        rw [← List.head?_drop, hrest]
        rfl
      rw [hsome, kind_ofTokens_cons]

theorem kind_tail (hwhole : isWhole c.kind = true) : Pieces.kind c.pieces.tail = c.kindAt 1 := by
  obtain ⟨t, ts, hts, -, hpieces⟩ := h.pieces_of_isWhole hwhole
  rw [hpieces, kindAt, ← h.kind_drop 1, hts]
  rfl

theorem kind_tail_tail (hwhole : isWhole c.kind = true) (hwhole' : isWhole (c.kindAt 1) = true) :
    Pieces.kind c.pieces.tail.tail = c.kindAt 2 := by
  obtain ⟨t, ts, hts, -, hpieces⟩ := h.pieces_of_isWhole hwhole
  rw [hpieces, kindAt, ← h.kind_drop 2, hts]
  rw [kindAt, ← h.kind_drop 1, hts] at hwhole'
  cases ts with
  | nil => cases hwhole'
  | cons u us =>
      have hu : u.kind ≠ .mark .shiftRight := by
        rintro hshift
        rw [List.drop_succ_cons, List.drop_zero, kind_ofTokens_cons, hshift] at hwhole'
        cases hwhole'
      simp only [List.tail_cons, ofTokens_whole hu, List.drop_succ_cons, List.drop_zero]

theorem atRefl_pieces : Pieces.atRefl c.pieces = c.atRefl := by
  by_cases hbrace : c.kind = .mark .leftBrace
  · have hwhole : isWhole c.kind = true := by rw [hbrace]; rfl
    by_cases heq : c.kindAt 1 = .mark .eqEq
    · have hwhole' : isWhole (c.kindAt 1) = true := by rw [heq]; rfl
      simp only [Pieces.atRefl, Cursor.atRefl, h.kind_pieces, h.kind_tail hwhole,
        h.kind_tail_tail hwhole hwhole']
    · simp only [Pieces.atRefl, Cursor.atRefl, h.kind_tail hwhole, heq, decide_false,
        Bool.and_false, Bool.false_and]
  · simp only [Pieces.atRefl, Cursor.atRefl, h.kind_pieces, hbrace, decide_false, Bool.false_and]

/-- As long as a cursor moves on, it leaves fewer pieces. -/
theorem pieces_length_lt_iff (hreach : c.Reaches d) (hd : d.Ahead) :
    d.pieces.length < c.pieces.length ↔ d.remaining < c.remaining := by
  obtain ⟨n, hn, hrest, -, -⟩ := hreach
  cases n with
  | zero =>
      have hsame : d.rest = c.rest := hrest
      cases hts : c.rest with
      | nil =>
          rw [h.pieces_of_nil hts, hd.pieces_of_nil (hsame.trans hts)]
          simp [remaining, hsame, h.split_of_nil hts, hd.split_of_nil (hsame.trans hts)]
      | cons t ts =>
          unfold pieces remaining
          rw [hsame, hts]
          have hlength (hc : c.split = true ∨ d.split = true) :
              (ofTokens (t :: ts)).length = (ofTokens ts).length + 2 := by
            rw [ofTokens_shiftRight]
            · rfl
            · rcases hc with hc | hd'
              · exact (h.pieces_of_split hts hc).1
              · exact (hd.pieces_of_split (hsame.trans hts) hd').1
          cases hc : c.split <;> cases hd' : d.split <;> simp [hc, hd', hlength]
  | succ n =>
      obtain ⟨t, ts, hts⟩ := List.exists_cons_of_ne_nil (l := c.rest) (by
        rintro hnil
        rw [hnil] at hn
        cases hn)
      have hsuffix : d.rest <:+ ts := by
        rw [hrest, hts]
        exact List.drop_suffix n ts
      have hfewer : d.pieces.length ≤ (ofTokens ts).length := by
        obtain ⟨us, hus⟩ := hsuffix
        calc d.pieces.length ≤ (ofTokens d.rest).length := by
              unfold pieces
              split
              · exact (List.tail_suffix _).length_le
              · exact Nat.le_refl _
          _ ≤ (ofTokens ts).length := by
              rw [← hus, ofTokens_append, List.length_append]
              exact Nat.le_add_left _ _
      have hmore : (ofTokens ts).length < c.pieces.length := by
        cases hsplit : c.split with
        | true =>
            rw [(h.pieces_of_split hts hsplit).2]
            exact Nat.lt_succ_self _
        | false =>
            rw [pieces_of_not_split hsplit, hts]
            exact length_ofTokens_pos t ts
      refine iff_of_true (Nat.lt_of_le_of_lt hfewer hmore) ?_
      have hle := hsuffix.length_le
      unfold remaining
      rw [hts, List.length_cons]
      split <;> split <;> omega

end Ahead

end Cursor

end BendSyntax
