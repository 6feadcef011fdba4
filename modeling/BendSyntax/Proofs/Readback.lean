import BendSyntax.Proofs.Integrity
import BendSyntax.Proofs.Readback.Legible
import BendSyntax.Proofs.Spelling.Expressions

/-! Dumps identify trees. The dumps of accepted expressions are the same exactly if the shapes of their trees are,
as long as no variable has a slash in its name and no parameter with a type is called `pat`. -/

namespace BendSyntax

open Dump

/-! ## Reading shapes back -/

/-- The shape of a pattern with a dump, down to some depth. -/
noncomputable def PatternShape.ofDump : Nat → String → PatternShape
  | 0, _ => .node .emptyList
  | n + 1, s => .node ((Pattern.ofDump s).map (ofDump n))

/-- The shape of a term with a dump, down to some depth. -/
noncomputable def TermShape.ofDump (depth : Nat) : Nat → String → TermShape
  | 0, _ => .node .error
  | n + 1, s => .node ((Term.ofDump s).map (ofDump depth n) (PatternShape.ofDump depth))

/-- The dump of a pattern with a shape, down to some depth. -/
def PatternShape.dump : Nat → PatternShape → String
  | 0, _ => ""
  | n + 1, node layer => (layer.map (dump n)).dump

/-- The dump of a term with a shape, down to some depth. -/
def TermShape.dump (depth : Nat) : Nat → TermShape → String
  | 0, _ => ""
  | n + 1, node layer => (layer.map (dump depth n) (PatternShape.dump depth)).dump

/-- Spans and blanks in front of brackets do not show. -/
theorem Term.dump_bare (t : Term String String) : t.bare.dump = t.dump := by
  cases t with
  | lam params body => 
      have hparam (p : Param String String) : p.bare.dump = p.dump := by cases p <;> rfl
      simp [bare, dump, Function.comp_def, hparam]
  | _ =>
      simp [bare, dump, CaseBlock.bare, CaseBlock.dump, BlockCase.bare, MatchCase.bare, MatchCase.dump, WithClause.bare,
        WithClause.dump, Binder.bare, Binder.dump, Function.comp_def]

section Unambiguous

variable {τ υ π ρ : Type} (f : τ → υ) (g : π → ρ)

@[simp] theorem Param.isUnambiguous_map (p : Param τ π) : (p.map f g).isUnambiguous = p.isUnambiguous := by
  cases p <;> rfl

@[simp] theorem Term.isUnambiguous_map (t : Term τ π) : (t.map f g).isUnambiguous = t.isUnambiguous := by
  cases t <;> simp [map, isUnambiguous, Function.comp_def]

end Unambiguous

namespace Tree

variable {t : Tree} {roots : Multiset Ref}

/-- No variable has a slash in its name, and no parameter with a type is called `pat`. -/
def isUnambiguous (t : Tree) : Bool := t.terms.all (·.term.isUnambiguous)

namespace Forest

variable (h : t.Forest roots)

include h

theorem pattern_before {i : Nat} (hi : i < t.patterns.size) : ∀ a ∈ t.patterns[i].pattern.children, a.index < i :=
  fun a ha => h.precedes (.pattern ⟨i⟩) (mem_nodes_pattern.mpr hi) (.pattern a) (by simpa [childrenOf, hi] using ha)

theorem term_before {i : Nat} (hi : i < t.terms.size) : ∀ a, .term a ∈ t.terms[i].term.children → a.index < i :=
  fun a ha => h.precedes (.term ⟨i⟩) (mem_nodes_term.mpr hi) (.term a) (by simpa [childrenOf, term?, hi] using ha)

theorem pattern_lt_of_child {i : Nat} (hi : i < t.terms.size) :
    ∀ q, .pattern q ∈ t.terms[i].term.children → q.index < t.patterns.size :=
  h.pattern_lt _ (Array.getElem_mem_toList hi)

/-- Every fold over the patterns has the values of its layers. -/
theorem foldPatterns_eq {β : Type} (layer : Pattern β → β) (none : β) {i : Nat} (hi : i < t.patterns.size) :
    (t.foldPatterns layer none).getD i none =
      layer (t.patterns[i].pattern.map fun a => (t.foldPatterns layer none).getD a.index none) :=
  foldPatterns_getD layer none (Array.getElem?_eq_getElem hi) (h.pattern_before hi)

/-- So has every fold over the terms. -/
theorem foldTerms_eq {α β : Type} (layer : Term α β → α) (none : α) (pattern : PatternId → β) {i : Nat}
    (hi : i < t.terms.size) :
    (t.foldTerms layer none pattern).getD i none =
      layer (t.terms[i].term.map (fun a => (t.foldTerms layer none pattern).getD a.index none) pattern) :=
  foldTerms_getD layer none pattern (Array.getElem?_eq_getElem hi) (h.term_before hi)

theorem patternDump_eq {i : Nat} (hi : i < t.patterns.size) :
    t.patternDump ⟨i⟩ = (t.patterns[i].pattern.map t.patternDump).dump := h.foldPatterns_eq Pattern.dump "" hi

theorem patternShape_eq {i : Nat} (hi : i < t.patterns.size) :
    t.patternShape ⟨i⟩ = .node (t.patterns[i].pattern.map t.patternShape) :=
  h.foldPatterns_eq PatternShape.node (.node .emptyList) hi

theorem dump_eq {i : Nat} (hi : i < t.terms.size) : t.dump ⟨i⟩ = (t.terms[i].term.map t.dump t.patternDump).dump :=
  h.foldTerms_eq Term.dump "" t.patternDump hi

theorem shape_eq {i : Nat} (hi : i < t.terms.size) :
    t.shape ⟨i⟩ = .node (t.terms[i].term.map t.shape t.patternShape).bare :=
  h.foldTerms_eq (fun layer => TermShape.node layer.bare) (.node .error) t.patternShape hi

/-! ## Shapes from dumps -/

theorem patternShape_of_dump (hspelled : t.Spelled) {n : Nat} {id : PatternId} (hid : id.index < t.patterns.size)
    (hn : id.index < n) : Stands (t.patternDump id) ∧ PatternShape.ofDump n (t.patternDump id) = t.patternShape id := by
  induction n generalizing id with
  | zero => omega
  | succ n ih =>
      have hchild : ∀ a ∈ t.patterns[id.index].pattern.children,
          Stands (t.patternDump a) ∧ PatternShape.ofDump n (t.patternDump a) = t.patternShape a := fun a ha => by
        have hlt := h.pattern_before hid a ha
        exact ih (by omega) (by omega)
      have hstand : ∀ s ∈ (t.patterns[id.index].pattern.map t.patternDump).children, Stands s := by
        rw [Pattern.children_map]
        exact List.forall_mem_map.mpr fun a ha => (hchild a ha).1
      have hspelled' : (t.patterns[id.index].pattern.map t.patternDump).Spelled :=
        (Pattern.spelled_map _ _).mpr (hspelled.patterns _ (Array.getElem_mem hid))
      obtain ⟨hstands, hread⟩ := Pattern.legible hspelled' hstand
      rw [h.patternDump_eq hid, h.patternShape_eq hid]
      refine ⟨hstands, ?_⟩
      rw [PatternShape.ofDump, hread, Pattern.map_map]
      exact congrArg _ (Pattern.map_congr _ fun a ha => (hchild a ha).2)

theorem shape_of_dump (hspelled : t.Spelled) (hclear : t.isUnambiguous = true) {m n : Nat}
    (hm : t.patterns.size ≤ m) {id : TermId} (hid : id.index < t.terms.size) (hn : id.index < n) :
    Stands (t.dump id) ∧ TermShape.ofDump m n (t.dump id) = t.shape id := by
  induction n generalizing id with
  | zero => omega
  | succ n ih =>
      have hchild : ∀ a, .term a ∈ t.terms[id.index].term.children →
          Stands (t.dump a) ∧ TermShape.ofDump m n (t.dump a) = t.shape a := fun a ha => by
        have hlt := h.term_before hid a ha
        exact ih (by omega) (by omega)
      have hpattern : ∀ q, .pattern q ∈ t.terms[id.index].term.children →
          Stands (t.patternDump q) ∧ PatternShape.ofDump m (t.patternDump q) = t.patternShape q := fun q hq => by
        have hlt := h.pattern_lt_of_child hid q hq
        exact h.patternShape_of_dump hspelled hlt (by omega)
      have hstand : ∀ c ∈ (t.terms[id.index].term.map t.dump t.patternDump).children, c.Stand := by
        rw [Term.children_map]
        refine List.forall_mem_map.mpr fun c hc => ?_
        cases c with
        | term a => exact (hchild a hc).1
        | pattern q => exact (hpattern q hc).1
      have hspelled' : (t.terms[id.index].term.map t.dump t.patternDump).Spelled :=
        (Term.spelled_map _ _ _).mpr (hspelled.terms _ (Array.getElem_mem hid))
      have hclear' : (t.terms[id.index].term.map t.dump t.patternDump).isUnambiguous = true :=
        (Term.isUnambiguous_map _ _ _).trans (Array.all_eq_true'.mp hclear _ (Array.getElem_mem hid))
      obtain ⟨hstands, hread⟩ := Term.legible hspelled' hclear' hstand
      rw [h.dump_eq hid, h.shape_eq hid]
      refine ⟨hstands, ?_⟩
      rw [TermShape.ofDump, hread, ← Term.bare_map, Term.map_map]
      exact congrArg (fun layer => TermShape.node (Term.bare layer))
        (Term.map_congr _ (fun a ha => (hchild a ha).2) fun q hq => (hpattern q hq).2)

/-! ## Dumps from shapes -/

theorem patternDump_of_shape {n : Nat} {id : PatternId} (hid : id.index < t.patterns.size) (hn : id.index < n) :
    PatternShape.dump n (t.patternShape id) = t.patternDump id := by
  induction n generalizing id with
  | zero => omega
  | succ n ih =>
      rw [h.patternShape_eq hid, h.patternDump_eq hid, PatternShape.dump, Pattern.map_map]
      refine congrArg Pattern.dump (Pattern.map_congr _ fun a ha => ?_)
      have hlt := h.pattern_before hid a ha
      exact ih (by omega) (by omega)

theorem dump_of_shape {m n : Nat} (hm : t.patterns.size ≤ m) {id : TermId} (hid : id.index < t.terms.size)
    (hn : id.index < n) : TermShape.dump m n (t.shape id) = t.dump id := by
  induction n generalizing id with
  | zero => omega
  | succ n ih =>
      rw [h.shape_eq hid, h.dump_eq hid, TermShape.dump, ← Term.bare_map, Term.dump_bare, Term.map_map]
      refine congrArg Term.dump (Term.map_congr _ (fun a ha => ?_) fun q hq => ?_)
      · have hlt := h.term_before hid a ha
        exact ih (by omega) (by omega)
      · have hlt := h.pattern_lt_of_child hid q hq
        exact h.patternDump_of_shape hlt (by omega)

end Forest

end Tree

/-! ## Accepted texts -/

namespace Expression

def shape (e : Expression) : TermShape := e.tree.shape e.root

/-- The dumps of two accepted texts tell whether their trees have the same shape. -/
theorem dump_eq_iff_shape_eq {source source' : String} {config config' : Config} {e e' : Expression}
    (h : ofText source config = .ok e) (h' : ofText source' config' = .ok e') (hclear : e.tree.isUnambiguous = true)
    (hclear' : e'.tree.isUnambiguous = true) : e.dump = e'.dump ↔ e.shape = e'.shape := by
  have hroot {source : String} {config : Config} {e : Expression} (h : ofText source config = .ok e) :
      e.root.index < e.tree.terms.size := (read_intact h).rootsInBounds e.root List.mem_cons_self
  have hread {source : String} {config : Config} {e : Expression} (h : ofText source config = .ok e)
      (hclear : e.tree.isUnambiguous = true) {m n : Nat} (hm : e.tree.patterns.size ≤ m) (hn : e.tree.terms.size ≤ n) :
      TermShape.ofDump m n e.dump = e.shape ∧ TermShape.dump m n e.shape = e.dump :=
    ⟨((read_forest h).shape_of_dump (spelled h) hclear hm (hroot h) (Nat.lt_of_lt_of_le (hroot h) hn)).2,
      (read_forest h).dump_of_shape hm (hroot h) (Nat.lt_of_lt_of_le (hroot h) hn)⟩
  obtain ⟨hshape, hdump⟩ := hread h hclear (Nat.le_max_left _ e'.tree.patterns.size)
    (Nat.le_max_left _ e'.tree.terms.size)
  obtain ⟨hshape', hdump'⟩ := hread h' hclear' (Nat.le_max_right e.tree.patterns.size _)
    (Nat.le_max_right e.tree.terms.size _)
  constructor
  · intro heq
    rw [← hshape, ← hshape', heq]
  · intro heq
    rw [← hdump, ← hdump', heq]

set_option maxRecDepth 100000 in
theorem dump_eq_iff_shape_eq_spaced : ∃ e e', ofText "λ(p: A) (q, r). f(q, 0.5)" .standard = .ok e ∧
    ofText "λ (p : A)(q,r,) . f (q,00.50)" .standard = .ok e' ∧ e.tree.isUnambiguous = true ∧
      e'.tree.isUnambiguous = true ∧ e.dump = e'.dump ∧ e.shape = e'.shape := by
  have hok : (ofText "λ(p: A) (q, r). f(q, 0.5)" .standard).toOption.any (·.tree.isUnambiguous) = true ∧
      (ofText "λ (p : A)(q,r,) . f (q,00.50)" .standard).toOption.any (·.tree.isUnambiguous) = true ∧
      (ofText "λ(p: A) (q, r). f(q, 0.5)" .standard).toOption.map (·.dump) =
        (ofText "λ (p : A)(q,r,) . f (q,00.50)" .standard).toOption.map (·.dump) := by decide +kernel
  obtain ⟨hclear, hclear', hdump⟩ := hok
  cases h : ofText "λ(p: A) (q, r). f(q, 0.5)" .standard with
  | error ds => simp [h, Except.toOption] at hclear
  | ok e =>
      cases h' : ofText "λ (p : A)(q,r,) . f (q,00.50)" .standard with
      | error ds => simp [h', Except.toOption] at hclear'
      | ok e' =>
          rw [h] at hclear hdump
          rw [h'] at hclear' hdump
          have hc : e.tree.isUnambiguous = true := by simpa [Except.toOption] using hclear
          have hc' : e'.tree.isUnambiguous = true := by simpa [Except.toOption] using hclear'
          have heq : e.dump = e'.dump := by simpa [Except.toOption] using hdump
          exact ⟨e, e', rfl, rfl, hc, hc', heq, (dump_eq_iff_shape_eq h h' hc hc').mp heq⟩

end Expression

/-! ## What dumps do not tell -/

/-- The first two layers of a shape. -/
def TermShape.upper : TermShape → Term (Term Unit Unit) Unit
  | node layer => layer.map (fun | node child => child.map (fun _ => ()) fun _ => ()) fun _ => ()

namespace Expression

/-- Two expressions with one dump whose upper layers differ are of different shapes. -/
theorem shape_ne {x y : Except (List Diagnostic) Expression}
    (h : x.toOption.map (·.dump) = y.toOption.map (·.dump) ∧
      x.toOption.map (·.shape.upper) ≠ y.toOption.map (·.shape.upper)) :
    ∃ e e', x = .ok e ∧ y = .ok e' ∧ e.dump = e'.dump ∧ e.shape ≠ e'.shape := by
  obtain ⟨hdump, hupper⟩ := h
  cases x with
  | error ds => cases y <;> simp_all [Except.toOption]
  | ok e =>
      cases y with
      | error ds => simp [Except.toOption] at hdump
      | ok e' =>
          refine ⟨e, e', rfl, rfl, by simpa [Except.toOption] using hdump, fun hshape => hupper ?_⟩
          simp [Except.toOption, hshape]

set_option maxRecDepth 100000 in
/-- A parameter `pat` with a type has the dump of a pattern, and the target of an assignment that of a name that
is cut at the slashes. -/
theorem dump_eq_shape_ne :
    (∃ e e', ofText "λ(pat: a). x" .standard = .ok e ∧ ofText "λ(a). x" .standard = .ok e' ∧
      e.dump = e'.dump ∧ e.shape ≠ e'.shape) ∧
    ∃ e e', ofText "a/b = c" .standard = .ok e ∧ ofText "(a/b) = c" .standard = .ok e' ∧
      e.dump = e'.dump ∧ e.shape ≠ e'.shape :=
  ⟨shape_ne (by decide +kernel), shape_ne (by decide +kernel)⟩

end Expression

end BendSyntax
