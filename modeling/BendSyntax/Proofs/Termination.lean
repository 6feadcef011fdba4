import BendSyntax.Proofs.Lexing.Tiling
import BendSyntax.Proofs.Steps.Items

/-! Why reading a text ends. The lexer takes a character for every token, whatever is read has
taken a token, no part of a run ends in front of where it started, and a loop goes on only behind
where it was, so nothing but the grammar ever ends it. -/

namespace BendSyntax

open Reading Grammar Owner

/-- A step that moves on in front of some of the tokens: it does not look behind the end, no part
of a run goes back, and the next round of a loop begins behind the one before, where less is left
to read. -/
def Step.MovesOn (tokens : Tokens) : Step → Prop
  | .tokens c => c.index ≤ tokens.body.length ∧ c.eof = tokens.eof
  | .term _ _ => True
  | .part c d => c.NotPast d
  | .round c d => c.index < d.index ∧ d.remaining < c.remaining

theorem Cursor.Reaches.index_le_length {tokens : Tokens} {c : Cursor}
    (h : (Cursor.start tokens).Reaches c) : c.index ≤ tokens.body.length := by
  obtain ⟨n, hn, -, hindex, -⟩ := h
  rw [hindex]
  simpa [Cursor.start] using hn

theorem Step.Fine.movesOn {tokens : Tokens} {x : Step} (h : x.Fine tokens) : x.MovesOn tokens := by
  cases x with
  | tokens c =>
      have hindex := Cursor.Reaches.index_le_length h
      obtain ⟨-, -, -, -, heof⟩ := h
      exact ⟨hindex, heof⟩
  | term id tree => trivial
  | part c d => exact h
  | round c d => exact h

/-- A reading of a whole text that moves on in every step and ends in front of the end. -/
structure Reading.Ends {α : Type} (r : Reading α) (config : Config) (remembers : Bool)
    (source : String) : Prop where
  steps : ∀ x, r.steps (setting config remembers) (initial (Lexing.ofText source)) x →
    x.MovesOn (Lexing.ofText source).tokens
  stops : (r.onText config remembers source).session.cursor.index ≤
    (Lexing.ofText source).tokens.body.length

theorem Keeps.ends {α : Type} [Owner α] {r : Reading α} {source : String}
    (h : Keeps (Lexing.ofText source).tokens [] r) (config : Config) (remembers : Bool) :
    r.Ends config remembers source where
  steps x hx := ((run_onText h config remembers).steps x hx).movesOn
  stops := (run_onText h config remembers).ends.fits.reaches.index_le_length

theorem advances_item (d : Nat) : (item (nested d)).Advances := by
  intro c
  by_cases hkind : c.kind = .eof
  · have hstatement : (nested d).statement.AdvancesFrom c :=
      (steady_nested ⟨[], default⟩ d).advances .statement c
    exact .lookKind (by simpa [hkind] using hstatement.bind _)
  · exact .of_takes (takes_item d) hkind

/-- What the lexer takes for a token is at least one byte. -/
theorem Scanned.takes_byte (signed : Bool) (c : Char) (cs : List Char) :
    (next signed (c :: cs)).text ++ (next signed (c :: cs)).rest = c :: cs ∧
      0 < (String.ofList (next signed (c :: cs)).text).utf8ByteSize := by
  refine ⟨Cuts.next signed (c :: cs), ?_⟩
  obtain ⟨d, ds, htext⟩ := List.exists_cons_of_ne_nil (Spelled.next signed c cs).text
  have := d.utf8Size_pos
  rw [htext, Span.utf8ByteSize_cons]
  omega

/-- Reading ends because it moves on. -/
theorem reading_ends (source : String) (config : Config) (remembers : Bool) :
    (∀ signed c cs, (Scanned.next signed (c :: cs)).text ++ (Scanned.next signed (c :: cs)).rest =
        c :: cs ∧ 0 < (String.ofList (Scanned.next signed (c :: cs)).text).utf8ByteSize) ∧
      (∀ d, (∀ g, (nested d g).Advances) ∧ (item (nested d)).Advances ∧
        ∀ items, (itemRound (nested d) items).Goes) ∧
      (sourceFile (nested config.maxDepth)).Ends config remembers source ∧
      (wholeStatement (nested config.maxDepth)).Ends config remembers source := by
  refine ⟨Scanned.takes_byte, fun d => ⟨?_, advances_item d, goes_itemRound d⟩, ?_, ?_⟩
  · exact (steady_nested (Lexing.ofText source).tokens d).advances
  · exact (keeps_sourceFile _ _).ends config remembers
  · exact (keeps_wholeStatement _ _).ends config remembers

set_option maxRecDepth 100000 in
theorem reading_ends_angles :
    ∃ id t, (nested 256 .statement).run (setting .standard true) (initial (Lexing.ofText "f<g<x>>"))
      = .ok id t ∧ 0 < t.cursor.index := by
  have hok : (Expression.ofText "f<g<x>>" .standard).isOk = true := by decide +kernel
  cases h : Expression.ofText "f<g<x>>" .standard with
  | ok e =>
      rw [Expression.ofText, Expression.read_eq] at h
      obtain ⟨s, hrun, -⟩ := Outcome.ok_of_expression h
      obtain ⟨id, t, ht, -⟩ := ok_of_bind hrun
      obtain ⟨-, hgoals, -⟩ := reading_ends "f<g<x>>" .standard true
      have heof := Lexing.eof_kind_onward none .start "f<g<x>>".toList
      exact ⟨id, t, ht, (hgoals 256).1 .statement _ _ _ id t rfl heof ht⟩
  | error ds =>
      rw [h] at hok
      cases hok

end BendSyntax
