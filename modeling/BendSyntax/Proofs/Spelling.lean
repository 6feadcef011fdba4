import BendSyntax.Proofs.Readback.Names
import BendSyntax.Proofs.Shapes.Expressions

/-! The names and literals of trees. What a tree has as a name is the text of an identifier of the source, and
its numbers are in normal form. Trees keep to this while they are read. -/

namespace BendSyntax

open Reading Grammar

/-! ## Trees -/

namespace Tree

variable {t u : Tree}

/-- Every layer of a tree has names for names. -/
structure Spelled (t : Tree) : Prop where
  terms : ∀ node ∈ t.terms, node.term.Spelled
  patterns : ∀ node ∈ t.patterns, node.pattern.Spelled

namespace Spelled

theorem empty : Tree.empty.Spelled := ⟨by simp [Tree.empty], by simp [Tree.empty]⟩

/-- The spans of terms do not count. -/
theorem congr (h : t.Spelled) (hterms : t.contents = u.contents) (hpatterns : t.patterns.toList = u.patterns.toList) :
    u.Spelled := by
  constructor
  · rw [Shaped.forall_terms, ← hterms, ← Shaped.forall_terms]
    exact h.terms
  · rw [← Array.toList_inj.mp hpatterns]
    exact h.patterns

theorem rewind (h : t.Spelled) (hu : t.Extends u) : (u.rewind t.mark).Spelled :=
  h.congr hu.contents_rewind.symm hu.patterns_rewind.symm

theorem addTerm (h : t.Spelled) {node : TermNode} (hterm : node.term.Spelled) : (t.addTerm node).2.Spelled := by
  refine ⟨fun n hn => ?_, h.patterns⟩
  rcases Array.mem_push.mp hn with hn | rfl
  · exact h.terms n hn
  · exact hterm

theorem addPattern (h : t.Spelled) {node : PatternNode} (hpattern : node.pattern.Spelled) :
    (t.addPattern node).2.Spelled := by
  refine ⟨h.terms, fun n hn => ?_⟩
  rcases Array.mem_push.mp hn with hn | rfl
  · exact h.patterns n hn
  · exact hpattern

end Spelled

end Tree

/-! ## Readings -/

/-- A session with a spelled tree, in front of tokens of which the identifiers are names. -/
structure Session.Spelled (s : Session) : Prop where
  tree : s.tree.Spelled
  named : ∀ t ∈ s.cursor.rest ++ [s.cursor.eof], t.IsIdentifier

theorem Session.Spelled.setCursor {s : Session} {c : Cursor} (hs : s.Spelled) (hreaches : s.cursor.Reaches c) :
    { s with cursor := c }.Spelled := by
  obtain ⟨n, -, hrest, -, heof⟩ := hreaches
  refine ⟨hs.tree, fun t ht => hs.named t ?_⟩
  simp only [hrest, heof, List.mem_append] at ht ⊢
  exact ht.imp_left List.mem_of_mem_drop

instance : Invariant Session.Spelled where
  advance hs := hs.setCursor (.advance _)
  halve hs _ := hs.setCursor (.halve _)
  whole hs := hs.setCursor (.whole _)
  complain hs _ := ⟨hs.tree, hs.named⟩
  restate hs _ := ⟨hs.tree, hs.named⟩
  remember _ hs := ⟨hs.tree, hs.named⟩
  rewind hs _ honward := ⟨hs.tree.rewind honward.tree, hs.named⟩
  discard hs ht honward := ⟨hs.tree.rewind honward.tree, ht.named⟩

/-- A reading keeps trees spelled. -/
abbrev Reading.Spells {α : Type} (r : Reading α) : Prop := Maintains Session.Spelled r

namespace Triple

variable {P : Session → Prop} {term : Term TermId PatternId} {pattern : Pattern PatternId} {start span : Span}

theorem failsSpelled {α : Type} {Q : α → Session → Prop} (e : SyntaxError) :
    Triple Session.Spelled P (Reading.fail e) Q :=
  fail fun _ hs _ => ⟨hs.tree, hs.named⟩

theorem widenSpelled (id : TermId) (span : Span) :
    Triple Session.Spelled P (Reading.widen id span) fun _ _ => True := by
  intro setting s hs _
  have hwiden : (s.tree.widen id span).Spelled := hs.tree.congr (by simp) rfl
  exact ⟨⟨hwiden, hs.named⟩, fun _ _ _ => trivial⟩

theorem addSpelled (h : term.Spelled) : Triple Session.Spelled P (Reading.addTerm term span) fun _ _ => True :=
  fun _ _ hs _ => ⟨⟨hs.tree.addTerm h, hs.named⟩, fun _ _ _ => trivial⟩

theorem closeSpelled (h : term.Spelled) : Triple Session.Spelled P (Reading.close start term) fun _ _ => True :=
  (since start).bind fun _ => addSpelled h

theorem closePatternSpelled (h : pattern.Spelled) :
    Triple Session.Spelled P (Reading.closePattern start pattern) fun _ _ => True :=
  (since start).bind fun _ _ _ hs _ => ⟨⟨hs.tree.addPattern h, hs.named⟩, fun _ _ _ => trivial⟩

/-- The text at a cursor in front of an identifier is a name. -/
theorem named : Triple Session.Spelled P Reading.cursor fun c _ => c.kind = .ident → IsIdentifier c.lexeme :=
  asks fun _ s hs _ hkind => hs.named _ s.cursor.token_mem (Cursor.kind_token_of_ident hkind)

theorem name : Triple Session.Spelled P Reading.identifier fun x _ => IsIdentifier x.1 := by
  refine named.given fun c hc => .ite (fun hkind => ?_) fun _ => .unexpected _
  exact advance.bind fun _ => .pure fun _ _ => hc hkind

end Triple

end BendSyntax
