import BendSyntax.Proofs.Chain.Stops

/-! Sessions in front of known tokens, and what the readings of single tokens do there. -/

namespace BendSyntax

open Reading Grammar

/-- A session in front of tokens, about which nothing was reported. -/
structure Session.Before (s : Session) (ts : List Token) : Prop where
  faces : s.cursor.Faces [] ts
  clean : s.diagnostics = #[]

def Session.next (s : Session) : Session := { s with cursor := s.cursor.advance }

variable {s : Session} {t : Token} {ts more : List Token} {setting : Setting} {k : TokenKind}

namespace Session

theorem run_expect (hk : s.cursor.kind = k) : (expect k).run setting s = .ok s.cursor.span s.next := by
  simp only [expect, sees, Reading.kind, Reading.cursor, asks, run_bind, Outcome.andThen_ok,
    run_pure, hk, decide_true, if_true]
  rfl

theorem run_accept (hk : s.cursor.kind = k) : (accept k).run setting s = .ok true s.next := by
  simp only [accept, sees, Reading.kind, Reading.cursor, asks, run_bind, Outcome.andThen_ok,
    run_pure, hk, decide_true, if_true]
  rfl

end Session

namespace Session.Before

theorem kind (h : s.Before (t :: ts)) : s.cursor.kind = t.kind := h.faces.kind_more

theorem token (h : s.Before (t :: ts)) : s.cursor.token = t :=
  Cursor.token_of_cons h.faces.rest_nil

theorem kindAt_one {u : Token} (h : s.Before (t :: u :: ts)) : s.cursor.kindAt 1 = u.kind := by
  simp [Cursor.kindAt, Cursor.tokenAt, h.faces.rest_nil]

theorem next (h : s.Before (t :: ts)) : s.next.Before ts := by
  have hadvance : s.next.cursor = ⟨ts, s.cursor.eof, s.cursor.index + 1, false, s.cursor.span⟩ := by
    simp only [Session.next, Cursor.advance, h.faces.rest_nil]
  exact ⟨hadvance ▸ ⟨⟨[], .nil, rfl⟩, h.faces.eof, rfl⟩, h.clean⟩

theorem faces_words {words : List Word} (h : s.Before (ts ++ more))
    (hwords : List.Forall₂ Word.Becomes words ts) : s.cursor.Faces words more :=
  ⟨⟨ts, hwords, h.faces.rest_nil⟩, h.faces.eof, h.faces.split⟩

theorem setTree (h : s.Before ts) (tree : Tree) : Session.Before { s with tree } ts :=
  ⟨h.faces, h.clean⟩

theorem run_expect (h : s.Before (t :: ts)) (hk : t.kind = k) :
    (expect k).run setting s = .ok s.cursor.span s.next :=
  Session.run_expect (h.kind.trans hk)

theorem run_accept (h : s.Before (t :: ts)) (hk : t.kind = k) :
    (accept k).run setting s = .ok true s.next :=
  Session.run_accept (h.kind.trans hk)

theorem run_accept_of_ne (hk : s.cursor.kind ≠ k) : (accept k).run setting s = .ok false s := by
  simp [accept, sees, Reading.kind, Reading.cursor, asks, run_bind, run_pure, hk]

end Session.Before

end BendSyntax
