import BendSyntax.Proofs.Forest
import BendSyntax.Proofs.Lexing.Names
import BendSyntax.Proofs.Triple

/-! The shapes of terms and patterns. A case block has the cases of its kind in their order, lists
that need an item have one, paths have at least two parts, and only names are applied to types.
Trees keep to this while they are read. -/

namespace BendSyntax

open Reading Grammar

section Shapes

variable {τ π : Type}

/-! ## Case blocks -/

/-- A head that a case of an enum block has. -/
def CaseTag.OfEnum : CaseTag τ → Prop
  | ctor _ | sym _ => True
  | _ => False

/-- The tags of the cases that a block of some kind has, in order, and its case without a head. -/
inductive BlockKind.Admits : BlockKind → List (CaseTag τ) → Option τ → Prop
  | empty : Admits .empty [] none
  | unit : Admits .unit [.unit] none
  | bool : Admits .bool [.false, .true] none
  | nat : Admits .nat [.zero, .succ] none
  | list : Admits .list [.nil, .cons] none
  | pair : Admits .pair [.pair] none
  | sup (label : τ) : Admits .sup [.sup label] none
  | eql : Admits .eql [.refl] none
  | enum {tags : List (CaseTag τ)} {fallback : Option τ} (htags : ∀ tag ∈ tags, tag.OfEnum)
      (hsome : tags ≠ [] ∨ fallback ≠ none) : Admits .enum tags fallback

def CaseBlock.Shaped (b : CaseBlock τ) : Prop := b.kind.Admits (b.cases.map (·.tag)) b.fallback

/-! ## Terms and patterns -/

def Term.IsName : Term τ π → Prop
  | var _ | qualified _ => True
  | _ => False

/-- What a layer of a term is made of, given which terms are names. -/
def Term.Shaped (isName : τ → Prop) : Term τ π → Prop
  | qualified path => 2 ≤ path.length ∧ "" ∉ path
  | all binders _ => binders ≠ []
  | lam params _ => params ≠ [] ∧ ∀ items, .patterns items ∈ params → items ≠ []
  | lamMatch block => block.Shaped
  | tildeMatch _ block => block.Shaped
  | tyApp head args => isName head ∧ args ≠ []
  | genericCall head typeArgs _ => isName head ∧ typeArgs ≠ []
  | call head _ tight => tight = false → isName head
  | matchOn scrutinees _ cases => scrutinees ≠ [] ∧ cases ≠ [] ∧ ∀ c ∈ cases, c.patterns ≠ []
  | tuple items => items ≠ []
  | list items => items ≠ []
  | _ => True

theorem Term.Shaped.mono {isName isName' : τ → Prop} {term : Term τ π} (h : term.Shaped isName)
    (hsub : ∀ a, isName a → isName' a) : term.Shaped isName' := by
  cases term with
  | tyApp head args => exact ⟨hsub _ h.1, h.2⟩
  | genericCall head typeArgs args => exact ⟨hsub _ h.1, h.2⟩
  | call head args tight => exact fun htight => hsub _ (h htight)
  | _ => exact h

/-- A pattern without `<>` in front of anything. -/
def Pattern.IsAtom : Pattern π → Prop
  | cons _ _ => False
  | _ => True

/-- What a layer of a pattern is made of, given which patterns are atoms. -/
def Pattern.Shaped (isAtom : π → Prop) : Pattern π → Prop
  | tuple items => items ≠ []
  | list items => items ≠ []
  | succ _ rest => isAtom rest
  | cons head _ => isAtom head
  | _ => True

theorem Pattern.Shaped.mono {isAtom isAtom' : π → Prop} {pattern : Pattern π}
    (h : pattern.Shaped isAtom) (hsub : ∀ a, isAtom a → isAtom' a) : pattern.Shaped isAtom' := by
  cases pattern with
  | succ n rest => exact hsub _ h
  | cons head tail => exact hsub _ h
  | _ => exact h

/-- A type definition has a case. -/
def Item.Shaped : Item τ → Prop
  | typeDef d => d.cases ≠ []
  | _ => True

end Shapes

/-! ## Trees -/

namespace Tree

variable {t u : Tree}

def IsName (t : Tree) (id : TermId) : Prop := ∃ term, t.term? id = some term ∧ term.IsName

def IsAtom (t : Tree) (id : PatternId) : Prop :=
  ∃ node, t.patterns[id.index]? = some node ∧ node.pattern.IsAtom

structure Shaped (t : Tree) : Prop where
  terms : ∀ node ∈ t.terms, node.term.Shaped t.IsName
  patterns : ∀ node ∈ t.patterns, node.pattern.Shaped t.IsAtom

theorem Extends.isName {id : TermId} (h : t.Extends u) : t.IsName id → u.IsName id :=
  fun ⟨term, hterm, hname⟩ => ⟨term, h.term? hterm, hname⟩

theorem Extends.isAtom {id : PatternId} (h : t.Extends u) : t.IsAtom id → u.IsAtom id := by
  rintro ⟨node, hnode, hatom⟩
  refine ⟨node, ?_, hatom⟩
  obtain ⟨added, hadded⟩ := h.patterns
  rw [← Array.getElem?_toList] at hnode ⊢
  rw [← hadded, List.getElem?_append_left (List.getElem?_eq_some_iff.mp hnode).1, hnode]

/-- A term that is as long as a name is one. -/
theorem isName_of_isBareName {id : TermId} (h : t.isBareName id = true) : t.IsName id := by
  unfold isBareName at h
  split at h
  · rename_i term hterm
    refine ⟨term, hterm, ?_⟩
    cases term <;> trivial
  · cases h

namespace Shaped

theorem empty : Tree.empty.Shaped := ⟨by simp [Tree.empty], by simp [Tree.empty]⟩

theorem forall_terms {p : Term TermId PatternId → Prop} :
    (∀ node ∈ t.terms, p node.term) ↔ ∀ c ∈ t.contents, p c.1 := by
  simp [contents]

/-- The spans of terms do not count. -/
theorem congr (h : t.Shaped) (hterms : t.contents = u.contents)
    (hpatterns : t.patterns.toList = u.patterns.toList) : u.Shaped := by
  have hname : t.IsName = u.IsName := by
    funext id
    simp only [IsName, term?_eq_contents, hterms]
  have hpatterns : t.patterns = u.patterns := Array.toList_inj.mp hpatterns
  have hatom : t.IsAtom = u.IsAtom := by
    funext id
    simp only [IsAtom, hpatterns]
  constructor
  · rw [forall_terms, ← hterms, ← forall_terms, ← hname]
    exact h.terms
  · rw [← hpatterns, ← hatom]
    exact h.patterns

theorem rewind (h : t.Shaped) (hu : t.Extends u) : (u.rewind t.mark).Shaped :=
  h.congr hu.contents_rewind.symm hu.patterns_rewind.symm

theorem addTerm (h : t.Shaped) {node : TermNode} (hterm : node.term.Shaped t.IsName) :
    (t.addTerm node).2.Shaped := by
  have hextends := Extends.addTerm t node
  constructor
  · intro n hn
    rcases Array.mem_push.mp hn with hn | rfl
    · exact (h.terms n hn).mono fun _ => hextends.isName
    · exact hterm.mono fun _ => hextends.isName
  · exact fun n hn => (h.patterns n hn).mono fun _ => hextends.isAtom

theorem addPattern (h : t.Shaped) {node : PatternNode} (hpattern : node.pattern.Shaped t.IsAtom) :
    (t.addPattern node).2.Shaped := by
  have hextends := Extends.addPattern t node
  constructor
  · exact fun n hn => (h.terms n hn).mono fun _ => hextends.isName
  · intro n hn
    rcases Array.mem_push.mp hn with hn | rfl
    · exact (h.patterns n hn).mono fun _ => hextends.isAtom
    · exact hpattern.mono fun _ => hextends.isAtom

end Shaped

end Tree

/-! ## Readings -/

/-- A session with a tree in shape, in front of tokens whose names have no empty part. -/
structure Session.Shaped (s : Session) : Prop where
  tree : s.tree.Shaped
  segmented : ∀ t ∈ s.cursor.rest ++ [s.cursor.eof], t.Segmented

theorem Session.Shaped.setCursor {s : Session} {c : Cursor} (hs : s.Shaped)
    (hreaches : s.cursor.Reaches c) : { s with cursor := c }.Shaped := by
  obtain ⟨n, -, hrest, -, heof⟩ := hreaches
  refine ⟨hs.tree, fun t ht => hs.segmented t ?_⟩
  simp only [hrest, heof, List.mem_append] at ht ⊢
  exact ht.imp_left List.mem_of_mem_drop

instance : Invariant Session.Shaped where
  advance hs := hs.setCursor (.advance _)
  halve hs _ := hs.setCursor (.halve _)
  whole hs := hs.setCursor (.whole _)
  complain hs _ := ⟨hs.tree, hs.segmented⟩
  restate hs _ := ⟨hs.tree, hs.segmented⟩
  remember _ hs := ⟨hs.tree, hs.segmented⟩
  rewind hs _ honward := ⟨hs.tree.rewind honward.tree, hs.segmented⟩
  discard hs ht honward := ⟨hs.tree.rewind honward.tree, ht.segmented⟩

/-- A reading keeps trees in shape. -/
abbrev Reading.Shapes {α : Type} (r : Reading α) : Prop := Maintains Session.Shaped r

theorem lasting_isName (id : TermId) : Lasting fun s => s.tree.IsName id :=
  fun _ _ honward => honward.tree.isName

theorem lasting_isAtom (id : PatternId) : Lasting fun s => s.tree.IsAtom id :=
  fun _ _ honward => honward.tree.isAtom

namespace Triple

variable {P : Session → Prop} {term : Term TermId PatternId} {pattern : Pattern PatternId}
  {start span : Span}

/-- A failure is no matter of shape. -/
theorem fails {α : Type} {Q : α → Session → Prop} (e : SyntaxError) :
    Triple Session.Shaped P (Reading.fail e) Q :=
  fail fun _ hs _ => ⟨hs.tree, hs.segmented⟩

theorem widen (id : TermId) (span : Span) :
    Triple Session.Shaped P (widen id span) fun _ _ => True := by
  intro setting s hs _
  have hwiden : (s.tree.widen id span).Shaped := hs.tree.congr (by simp) rfl
  exact ⟨⟨hwiden, hs.segmented⟩, fun _ _ _ => trivial⟩

theorem addTerm (h : ∀ s, P s → term.Shaped s.tree.IsName) :
    Triple Session.Shaped P (addTerm term span) fun _ _ => True :=
  fun _ s hs hP => ⟨⟨hs.tree.addTerm (h s hP), hs.segmented⟩, fun _ _ _ => trivial⟩

theorem close (h : ∀ s, P s → term.Shaped s.tree.IsName) :
    Triple Session.Shaped P (close start term) fun _ _ => True :=
  (since start).bind fun _ => addTerm h

theorem closePattern (h : ∀ s, P s → pattern.Shaped s.tree.IsAtom) :
    Triple Session.Shaped P (closePattern start pattern)
      fun id s => pattern.IsAtom → s.tree.IsAtom id := by
  refine (since start).bind fun span setting s hs hP => ?_
  refine ⟨⟨hs.tree.addPattern (h s hP), hs.segmented⟩, ?_⟩
  rintro id t ⟨⟩ hatom
  exact ⟨⟨pattern, span⟩, by simp, hatom⟩

theorem closeAtom (hatom : pattern.IsAtom) (h : ∀ s, P s → pattern.Shaped s.tree.IsAtom) :
    Triple Session.Shaped P (Reading.closePattern start pattern) fun id s => s.tree.IsAtom id :=
  (closePattern h).weaken (fun _ hP => hP) fun _ _ hid => hid hatom

theorem bareName (id : TermId) :
    Triple Session.Shaped P (bareName id) fun bare s => bare = true → s.tree.IsName id := by
  intro setting s hs _
  refine ⟨hs, ?_⟩
  rintro bare t ⟨⟩ hbare
  exact Tree.isName_of_isBareName hbare

theorem spanOf (id : TermId) : Triple Session.Shaped P (spanOf id) fun _ _ => True :=
  fun _ _ hs _ => ⟨hs, fun _ _ _ => trivial⟩

end Triple

end BendSyntax
