import BendSyntax.Syntax.Dump

/-!
# Syntax trees

The nodes of a tree stand in two tables, one for terms and one for patterns, in the
order in which they were completed; a node is named by its index. Children are
completed before their parents, so one pass over a table is a fold of the tree.
-/

namespace BendSyntax

structure TermId where
  index : Nat
  deriving Repr, DecidableEq, Inhabited

structure PatternId where
  index : Nat
  deriving Repr, DecidableEq, Inhabited

structure TermNode where
  term : Term TermId PatternId
  span : Span
  usage : Usage
  deriving Repr, DecidableEq, Inhabited

structure PatternNode where
  pattern : Pattern PatternId
  span : Span
  deriving Repr, DecidableEq, Inhabited

structure Tree where
  terms : Array TermNode
  patterns : Array PatternNode
  deriving Repr, DecidableEq, Inhabited

namespace Tree

def empty : Tree := ⟨#[], #[]⟩

def addTerm (t : Tree) (node : TermNode) : TermId × Tree :=
  (⟨t.terms.size⟩, { t with terms := t.terms.push node })

def addPattern (t : Tree) (node : PatternNode) : PatternId × Tree :=
  (⟨t.patterns.size⟩, { t with patterns := t.patterns.push node })

def term? (t : Tree) (id : TermId) : Option (Term TermId PatternId) :=
  t.terms[id.index]?.map (·.term)

/-- The span of a term, the zero span if there is no such term. -/
def span (t : Tree) (id : TermId) : Span :=
  match t.terms[id.index]? with
  | some node => node.span
  | none => .zero

/-- Whether a term is a name that does not stand in parentheses. -/
def isBareName (t : Tree) (id : TermId) : Bool :=
  match t.term? id with
  | some term => term.nameLength? == some (t.span id).length
  | none => false

/-- Extends the span of a finished term, for instance over parentheses around it. -/
def widen (t : Tree) (id : TermId) (span : Span) : Tree :=
  { t with terms := t.terms.modify id.index fun node => { node with span := node.span.hull span } }

/-- How many nodes a tree has. -/
structure Mark where
  terms : Nat
  patterns : Nat
  deriving Repr, DecidableEq

def mark (t : Tree) : Mark := ⟨t.terms.size, t.patterns.size⟩

/-- Discards the nodes that were added since a mark. -/
def rewind (t : Tree) (m : Mark) : Tree := ⟨t.terms.take m.terms, t.patterns.take m.patterns⟩

/-- The terms of a tree with their usages, without their spans. -/
def contents (t : Tree) : List (Term TermId PatternId × Usage) :=
  t.terms.toList.map fun node => (node.term, node.usage)

@[simp] theorem contents_length (t : Tree) : t.contents.length = t.terms.size := by
  simp [contents]

/-- Whether a tree has all nodes of another one in the same places. The spans of terms may
have been extended. -/
structure Extends (t u : Tree) : Prop where
  contents : t.contents <+: u.contents
  patterns : t.patterns.toList <+: u.patterns.toList
  spans : ∀ id : TermId, id.index < t.terms.size → (u.span id).contains (t.span id) = true

namespace Extends

theorem refl (t : Tree) : t.Extends t :=
  ⟨List.prefix_refl _, List.prefix_refl _, fun _ _ => Span.contains_refl _⟩

theorem size_terms {t u : Tree} (h : t.Extends u) : t.terms.size ≤ u.terms.size := by
  simpa using h.contents.length_le

theorem trans {t u v : Tree} (h : t.Extends u) (k : u.Extends v) : t.Extends v where
  contents := h.contents.trans k.contents
  patterns := h.patterns.trans k.patterns
  spans id hid :=
    Span.contains_trans (k.spans id (Nat.lt_of_lt_of_le hid h.size_terms)) (h.spans id hid)

theorem addTerm (t : Tree) (node : TermNode) : t.Extends (t.addTerm node).2 where
  contents := by simp [Tree.addTerm, Tree.contents]
  patterns := List.prefix_refl _
  spans id hid := by
    simp [Tree.addTerm, span, Array.getElem?_push_lt hid, Span.contains_refl, hid]

theorem addPattern (t : Tree) (node : PatternNode) : t.Extends (t.addPattern node).2 where
  contents := List.prefix_refl _
  patterns := by simp [Tree.addPattern]
  spans _ _ := Span.contains_refl _

end Extends

@[simp] theorem contents_widen (t : Tree) (id : TermId) (span : Span) :
    (t.widen id span).contents = t.contents := by
  apply List.ext_getElem?
  intro i
  simp only [contents, widen, List.getElem?_map, Array.getElem?_toList, Array.getElem?_modify]
  split <;> simp_all [Function.comp_def]

theorem contents_rewind (t : Tree) (m : Mark) : (t.rewind m).contents = t.contents.take m.terms := by
  simp [contents, rewind]

theorem patterns_rewind (t : Tree) (m : Mark) :
    (t.rewind m).patterns.toList = t.patterns.toList.take m.patterns := by
  simp [rewind]

theorem Extends.widen (t : Tree) (id : TermId) (span : Span) : t.Extends (t.widen id span) where
  contents := by simp
  patterns := List.prefix_refl _
  spans other hother := by
    by_cases hid : id.index = other.index <;>
      simp [Tree.widen, Tree.span, hid, hother, Array.getElem_modify, Span.contains_hull_left,
        Span.contains_refl]

/-- Back at a mark all nodes are there that were there when it was set. -/
theorem Extends.contents_rewind {t u : Tree} (h : t.Extends u) :
    (u.rewind t.mark).contents = t.contents := by
  rw [Tree.contents_rewind, List.prefix_iff_eq_take.mp h.contents, mark, contents_length]

theorem Extends.size_rewind {t u : Tree} (h : t.Extends u) :
    (u.rewind t.mark).terms.size = t.terms.size := by
  rw [← contents_length, h.contents_rewind, contents_length]

theorem Extends.patterns_rewind {t u : Tree} (h : t.Extends u) :
    (u.rewind t.mark).patterns.toList = t.patterns.toList := by
  rw [Tree.patterns_rewind, List.prefix_iff_eq_take.mp h.patterns, mark, Array.length_toList]

theorem Extends.rewind {t u : Tree} (h : t.Extends u) : t.Extends (u.rewind t.mark) where
  contents := by simp [h.contents_rewind]
  patterns := by simp [h.patterns_rewind]
  spans id hid := by
    have hspan : (u.rewind t.mark).span id = u.span id := by
      have hu : id.index < u.terms.size := Nat.lt_of_lt_of_le hid h.size_terms
      simp [Tree.rewind, Tree.span, mark, Nat.lt_min.mpr ⟨hid, hu⟩, hu]
    rw [hspan]
    exact h.spans id hid

/-- The value of every pattern, given the value of one layer. -/
def foldPatterns {β : Type} (layer : Pattern β → β) (none : β) (t : Tree) : Array β :=
  t.patterns.foldl
    (fun done node => done.push (layer (node.pattern.map fun id => done.getD id.index none))) #[]

/-- The value of every term, given the value of one layer and the values of patterns. -/
def foldTerms {α β : Type} (layer : Term α β → α) (none : α) (pattern : PatternId → β)
    (t : Tree) : Array α :=
  t.terms.foldl
    (fun done node =>
      done.push (layer (node.term.map (fun id => done.getD id.index none) pattern))) #[]

def patternDumps (t : Tree) : Array String := t.foldPatterns Pattern.dump ""

def termDumps (t : Tree) : Array String :=
  let patterns := t.patternDumps
  t.foldTerms Term.dump "" fun id => patterns.getD id.index ""

/-- The structural dump of a term. -/
def dump (t : Tree) (id : TermId) : String := t.termDumps.getD id.index ""

end Tree

/-- An expression on its own. -/
structure Expression where
  tree : Tree
  root : TermId
  deriving Repr, DecidableEq, Inhabited

def Expression.dump (e : Expression) : String := e.tree.dump e.root

/-- A source file. -/
structure Program where
  tree : Tree
  items : List (Item TermId)
  deriving Repr, DecidableEq, Inhabited

namespace Program

def itemDumps (p : Program) : List String :=
  let terms := p.tree.termDumps
  p.items.map fun item => (item.map fun id => terms.getD id.index "").dump

def itemSpan (p : Program) : Item TermId → Span
  | .definition d => d.span
  | .typeDef d => d.span
  | .assertion _ _ span => span
  | .proof _ _ _ span => span
  | .expr id => p.tree.span id
  | .error span => span

end Program

end BendSyntax
