import BendSyntax.Proofs.Dumps

/-! The shapes of trees. The shape of a node is the node without its id, its span and its usage, with the
shapes of its children in the place of their ids; of calls and implicit arguments it leaves out whether a
blank stands in front of the bracket. -/

namespace BendSyntax

section Layers

variable {τ υ φ π ρ σ : Type}

/-! ## Layers -/

def Binder.bare (b : Binder τ) : Binder τ := { b with span := .zero }

def Param.bare : Param τ π → Param τ π
  | name n _ => name n .zero
  | typed b => typed b.bare
  | patterns items => patterns items

def WithClause.bare (w : WithClause τ) : WithClause τ := { w with span := .zero }

def MatchCase.bare (c : MatchCase τ π) : MatchCase τ π := { c with span := .zero }

def BlockCase.bare (c : BlockCase τ) : BlockCase τ := { c with span := .zero }

def CaseBlock.bare (b : CaseBlock τ) : CaseBlock τ := { b with cases := b.cases.map (·.bare) }

/-- A layer of a term without its spans, and with no blanks in front of brackets. -/
def Term.bare : Term τ π → Term τ π
  | all binders body => all (binders.map (·.bare)) body
  | any binder body => any binder.bare body
  | lam params body => lam (params.map (·.bare)) body
  | lamMatch block => lamMatch block.bare
  | call head args _ => call head args true
  | implicit head args _ => implicit head args true
  | matchOn scrutinees withs cases => matchOn scrutinees (withs.map (·.bare)) (cases.map (·.bare))
  | tildeMatch scrutinee block => tildeMatch scrutinee block.bare
  | term => term

variable (f : τ → υ) (f' : υ → φ) (g : π → ρ) (g' : ρ → σ)

theorem Param.bare_map (p : Param τ π) : (p.map f g).bare = p.bare.map f g := by cases p <;> rfl

theorem CaseBlock.bare_map (b : CaseBlock τ) : (b.map f).bare = b.bare.map f := by
  simp [CaseBlock.map, bare, BlockCase.map, BlockCase.bare]

theorem Term.bare_map (t : Term τ π) : (t.map f g).bare = t.bare.map f g := by
  cases t with
  | lam params body => simp [map, bare, Param.bare_map]
  | lamMatch block => simp [map, bare, CaseBlock.bare_map]
  | tildeMatch scrutinee block => simp [map, bare, CaseBlock.bare_map]
  | all binders body => simp [map, bare, Binder.map, Binder.bare]
  | matchOn scrutinees withs cases =>
      simp [map, bare, WithClause.map, WithClause.bare, MatchCase.map, MatchCase.bare]
  | _ => rfl

theorem Param.map_map (p : Param τ π) : (p.map f g).map f' g' = p.map (f' ∘ f) (g' ∘ g) := by
  cases p <;> simp [map, Binder.map]

theorem CaseBlock.map_map (b : CaseBlock τ) : (b.map f).map f' = b.map (f' ∘ f) := by
  have hcase (c : BlockCase τ) : (c.map f).map f' = c.map (f' ∘ f) := by
    obtain ⟨tag, span, body⟩ := c
    cases tag <;> rfl
  simp [map, hcase]

theorem Term.map_map (t : Term τ π) : (t.map f g).map f' g' = t.map (f' ∘ f) (g' ∘ g) := by
  cases t <;> simp [map, Param.map_map, CaseBlock.map_map, Binder.map, WithClause.map, MatchCase.map]

theorem Pattern.map_map (p : Pattern π) : (p.map g).map g' = p.map (g' ∘ g) := by
  cases p <;> simp [map]

/-! ## Children -/

def Child.map : Child τ π → Child υ ρ
  | term a => term (f a)
  | pattern p => pattern (g p)

theorem Param.children_map (p : Param τ π) : (p.map f g).children = p.children.map (·.map f g) := by
  cases p <;> simp [map, children, Binder.map, Child.map]

theorem CaseBlock.terms_map (b : CaseBlock τ) : (b.map f).terms = b.terms.map f := by
  have hcase (c : BlockCase τ) : (c.map f).terms = c.terms.map f := by
    obtain ⟨tag, span, body⟩ := c
    cases tag <;> rfl
  obtain ⟨kind, cases, fallback⟩ := b
  cases fallback <;> simp [map, terms, List.flatMap_map, List.map_flatMap, hcase]

theorem Term.children_map (t : Term τ π) : (t.map f g).children = t.children.map (·.map f g) := by
  cases t with
  | lam params body => simp [map, children, List.flatMap_map, List.map_flatMap, Param.children_map, Child.map]
  | lamMatch block => simp [map, children, CaseBlock.terms_map, Child.map]
  | tildeMatch scrutinee block => simp [map, children, CaseBlock.terms_map, Child.map]
  | letIn name type value body => cases type <;> rfl
  | matchOn scrutinees withs cases =>
      simp [map, children, WithClause.map, MatchCase.map, MatchCase.children, Child.map, List.flatMap_map,
        List.map_flatMap, List.filterMap_map, List.map_filterMap, Function.comp_def]
  | _ => simp [map, children, Binder.map, Child.map, Function.comp_def]

theorem Pattern.children_map (p : Pattern π) : (p.map g).children = p.children.map g := by cases p <;> rfl

end Layers

/-! ## Trees -/

inductive PatternShape where
  | node (layer : Pattern PatternShape)

inductive TermShape where
  | node (layer : Term TermShape PatternShape)

namespace Tree

/-- The shape of a pattern. -/
def patternShape (t : Tree) (id : PatternId) : PatternShape :=
  (t.foldPatterns .node (.node .emptyList)).getD id.index (.node .emptyList)

/-- The shape of a term. -/
def shape (t : Tree) (id : TermId) : TermShape :=
  (t.foldTerms (fun layer => .node layer.bare) (.node .error) t.patternShape).getD id.index (.node .error)

/-- The dump of a pattern. -/
def patternDump (t : Tree) (id : PatternId) : String := t.patternDumps.getD id.index ""

/-- A fold has a value for every pattern, made of the values of its subpatterns. -/
theorem foldPatterns_getD {β : Type} (layer : Pattern β → β) (none : β) {t : Tree} {i : Nat}
    {node : PatternNode} (hid : t.patterns[i]? = some node) (hbefore : ∀ a ∈ node.pattern.children, a.index < i) :
    (t.foldPatterns layer none).getD i none =
      layer (node.pattern.map fun a => (t.foldPatterns layer none).getD a.index none) := by
  rw [← Array.getElem?_toList] at hid
  obtain ⟨before, hvalue, hstay⟩ := getD_foldl_pushing
    (fun done (node : PatternNode) => layer (node.pattern.map fun id => done.getD id.index none)) hid none
  have hfold : t.foldPatterns layer none = t.patterns.toList.foldl
      (pushing fun done node => layer (node.pattern.map fun id => done.getD id.index none)) #[] := by
    rw [foldPatterns, ← Array.foldl_toList]
    rfl
  rw [hfold, hvalue]
  exact congrArg layer (node.pattern.map_congr fun a ha => hstay a.index (hbefore a ha))

/-- A fold has a value for every term, made of the values of its subterms and patterns. -/
theorem foldTerms_getD {α β : Type} (layer : Term α β → α) (none : α) (pattern : PatternId → β) {t : Tree}
    {i : Nat} {node : TermNode} (hid : t.terms[i]? = some node)
    (hbefore : ∀ a, .term a ∈ node.term.children → a.index < i) :
    (t.foldTerms layer none pattern).getD i none =
      layer (node.term.map (fun a => (t.foldTerms layer none pattern).getD a.index none) pattern) := by
  rw [← Array.getElem?_toList] at hid
  obtain ⟨before, hvalue, hstay⟩ := getD_foldl_pushing
    (fun done (node : TermNode) => layer (node.term.map (fun id => done.getD id.index none) pattern)) hid none
  have hfold : t.foldTerms layer none pattern = t.terms.toList.foldl
      (pushing fun done node => layer (node.term.map (fun id => done.getD id.index none) pattern)) #[] := by
    rw [foldTerms, ← Array.foldl_toList]
    rfl
  rw [hfold, hvalue]
  exact congrArg layer (node.term.map_congr (fun a ha => hstay a.index (hbefore a ha)) fun _ _ => rfl)

end Tree

end BendSyntax
