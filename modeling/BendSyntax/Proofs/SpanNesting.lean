import BendSyntax.Proofs.Layout.Texts

/-! The spans of an accepted text are nested as its tree is: a node covers its children, an item
covers its roots, and of two neighbours the earlier ends before the later begins. -/

namespace BendSyntax

/-- Nodes that lie in a span, in the order of the text and disjoint. -/
structure Tree.Encloses (t : Tree) (span : Span) (refs : List Ref) : Prop where
  contains : ∀ ref ∈ refs, span.contains (t.spanAt ref) = true
  ordered : refs.Pairwise fun a b => (t.spanAt a).stop ≤ (t.spanAt b).start

/-- A tree whose spans are nested: the children of every node lie in its span. -/
def Tree.Nested (t : Tree) : Prop := ∀ ref ∈ t.nodes, t.Encloses (t.spanAt ref) (t.childrenOf ref)

/-- A program whose spans are nested: the roots of every item lie in its span, too. -/
structure Program.Nested (p : Program) : Prop where
  tree : p.tree.Nested
  items : ∀ item ∈ p.items, p.tree.Encloses (p.itemSpan item) (item.roots.map .term)

namespace Tree

variable {t : Tree}

theorem Placed.encloses {span : Span} {k : List Held} (h : t.Placed span.start k span.stop) :
    t.Encloses span (k.map (·.ref)) where
  contains := by
    intro ref href
    obtain ⟨held, hheld, rfl⟩ := List.mem_map.mp href
    have hfits := h.mem hheld
    simp [Span.contains, hfits.lower, hfits.upper]
  ordered := List.pairwise_map.mpr h.pairwise

/-- The children of a node of a sound tree are placed within its span. -/
theorem Sound.nested (h : t.Sound) : t.Nested := by
  intro ref href
  cases ref with
  | term id =>
      have hid := mem_nodes_term.mp href
      have hplaced := (h.terms id.index _ (Array.getElem?_eq_getElem hid)).placed
      have hspan : t.spanAt (.term id) = t.terms[id.index].span := by simp [spanAt, span, hid]
      have hchildren : t.childrenOf (.term id) = t.terms[id.index].term.demands.map (·.ref) := by
        simp [childrenOf, term?, hid, Term.ref_demands]
      rw [hchildren, hspan]
      exact hplaced.encloses
  | pattern id =>
      have hid := mem_nodes_pattern.mp href
      have hplaced := h.patterns id.index _ (Array.getElem?_eq_getElem hid)
      have hspan : t.spanAt (.pattern id) = t.patterns[id.index].span := by simp [spanAt, hid]
      have hchildren : t.childrenOf (.pattern id) =
          (t.patterns[id.index].pattern.children.map (Held.loose <| .pattern ·)).map (·.ref) := by
        simp [childrenOf, hid, Function.comp_def]
      rw [hchildren, hspan]
      exact hplaced.encloses

end Tree

theorem Item.Covers.encloses {item : Item TermId} {p : Program} (h : item.Covers p.tree) :
    p.tree.Encloses (p.itemSpan item) (item.roots.map .term) := by
  have hspan : (⟨p.tree, []⟩ : Program).itemSpan item = p.itemSpan item := by cases item <;> rfl
  have hroots : (loose item).map (·.ref) = item.roots.map .term := by
    simp [Function.comp_def]
  rw [← hroots, ← hspan]
  exact h.placed.encloses

/-- In every accepted text, the spans of children and of the roots of items are nested in order. -/
theorem spans_nested (source : String) (config : Config) :
    (∀ e, Expression.ofText source config = .ok e → e.tree.Nested) ∧
      ∀ p, Program.ofTextStrict source config = .ok p → p.Nested := by
  refine ⟨fun e h => (Expression.sound_of_ofText h).nested, fun p h => ?_⟩
  obtain ⟨htree, hitems⟩ := Program.sound_of_ofTextStrict h
  exact ⟨htree.nested, fun item hitem => (hitems item hitem).encloses⟩

set_option maxRecDepth 100000 in
theorem spans_nested_parentheses :
    (∃ e, Expression.ofText "(λ(p, q). f<g<a>>((p) + 2 * q))" .standard = .ok e ∧ e.tree.Nested) ∧
      ∃ p, Program.ofTextStrict "def f(x: A) -> B : (x) assert 1n : Nat" .standard = .ok p ∧
        p.Nested := by
  constructor
  · have hok : (Expression.ofText "(λ(p, q). f<g<a>>((p) + 2 * q))" .standard).isOk = true := by
      decide +kernel
    cases h : Expression.ofText "(λ(p, q). f<g<a>>((p) + 2 * q))" .standard with
    | ok e => exact ⟨e, rfl, (spans_nested _ _).1 e h⟩
    | error ds =>
        rw [h] at hok
        cases hok
  · have hok : (Program.ofTextStrict "def f(x: A) -> B : (x) assert 1n : Nat" .standard).isOk =
        true := by
      decide +kernel
    cases h : Program.ofTextStrict "def f(x: A) -> B : (x) assert 1n : Nat" .standard with
    | ok p => exact ⟨p, rfl, (spans_nested _ _).2 p h⟩
    | error ds =>
        rw [h] at hok
        cases hok

end BendSyntax
