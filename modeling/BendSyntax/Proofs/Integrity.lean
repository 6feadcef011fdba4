import BendSyntax.Proofs.Children
import BendSyntax.Proofs.Ownership.Items
import BendSyntax.Proofs.Results

/-! The tree of a program and of an accepted expression is whole: the tables fit together, all
names of nodes are in bounds, children come before their parents, and a walk down from the
roots visits every node exactly once. -/

namespace BendSyntax

open Reading Grammar Owner

/-- A tree in which every node belongs to exactly one of the roots. -/
structure Tree.Intact (t : Tree) (roots : List TermId) : Prop where
  spans : (t.terms.map (·.span)).size = (t.terms.map (·.term)).size
  usages : (t.terms.map (·.usage)).size = (t.terms.map (·.term)).size
  rootsInBounds : ∀ id ∈ roots, id.index < t.terms.size
  terms : ∀ i (h : i < t.terms.size), ∀ id, .term id ∈ t.terms[i].term.children → id.index < i
  patterns : ∀ i (h : i < t.patterns.size), ∀ id ∈ t.patterns[i].pattern.children, id.index < i
  /-- No name of a node that is stored in a term is out of bounds. -/
  stored : ∀ i (h : i < t.terms.size),
    t.terms[i].term.StoresOnly (·.index < t.terms.size) (·.index < t.patterns.size)
  storedPatterns : ∀ i (h : i < t.patterns.size),
    t.patterns[i].pattern.StoresOnly (·.index < t.patterns.size)
  walk : ∃ visited, t.Walk (roots.map .term) visited ∧ visited.Perm t.nodes

structure Program.Intact (p : Program) : Prop where
  tree : p.tree.Intact (p.items.flatMap (·.roots))
  items : ∀ item ∈ p.items, item.StoresOnly (·.index < p.tree.terms.size)

theorem Tree.Forest.intact {t : Tree} {roots : List TermId}
    (h : t.Forest (roots.map .term : List Ref)) : t.Intact roots where
  spans := by simp
  usages := by simp
  rootsInBounds id hid :=
    mem_nodes_term.mp (h.mem_nodes_of_root (Multiset.mem_coe.mpr (List.mem_map_of_mem hid)))
  terms i hi id hid := by
    have hmem : Child.term ⟨i⟩ ∈ t.nodes := mem_nodes_term.mpr hi
    exact h.precedes (.term ⟨i⟩) hmem (.term id) (by simpa [childrenOf, term?, hi] using hid)
  patterns i hi id hid := by
    have hmem : Child.pattern ⟨i⟩ ∈ t.nodes := mem_nodes_pattern.mpr hi
    exact h.precedes (.pattern ⟨i⟩) hmem (.pattern id) (by simpa [childrenOf, hi] using hid)
  stored i hi := by
    have hmem : Child.term ⟨i⟩ ∈ t.nodes := mem_nodes_term.mpr hi
    have hchildren : t.childrenOf (.term ⟨i⟩) = t.terms[i].term.children := by
      simp [childrenOf, term?, hi]
    refine Term.storesOnly_of_children (fun id hid => ?_) fun id hid => ?_
    · exact mem_nodes_term.mp (h.mem_nodes_of_child hmem (hchildren ▸ hid))
    · exact mem_nodes_pattern.mp (h.mem_nodes_of_child hmem (hchildren ▸ hid))
  storedPatterns i hi := by
    have hmem : Child.pattern ⟨i⟩ ∈ t.nodes := mem_nodes_pattern.mpr hi
    refine Pattern.storesOnly_of_children fun id hid => ?_
    exact mem_nodes_pattern.mp
      (h.mem_nodes_of_child hmem (by simpa [childrenOf, hi] using hid))
  walk := h.walk

/-- With recovery reading a program never stops, and its items own all nodes. -/
theorem Program.read_forest {config : Config} (hrecover : config.recover = true)
    (remembers : Bool) (source : String) :
    let p := (Program.read config remembers source).program
    p.tree.Forest ((p.items.flatMap (·.roots)).map .term : List Ref) := by
  have hsure : Sure config (sourceFile (nested config.maxDepth)) := Sure.sourceFile _
  obtain ⟨items, s, hs⟩ := hsure remembers (.free .term) (initial (Lexing.ofText source))
  have hforest := yields_sourceFile (yields_nested config.maxDepth) hrecover remembers
    (.free .term) (initial (Lexing.ofText source)) 0 Tree.Forest.empty items s hs
  have hread : Program.read config remembers source = ⟨⟨s.tree, items⟩, s.diagnostics.toList⟩ := by
    unfold Program.read onText
    rw [setting, hs]
  have hroots : held items = ((items.flatMap (·.roots)).map .term : List Ref) := by
    rw [held, List.map_flatMap]
    exact congrArg _ (congrArg (List.flatMap · items) (funext refs_item))
  rw [hread]
  rwa [add_zero, hroots] at hforest

theorem Program.intact_of_forest {p : Program}
    (h : p.tree.Forest ((p.items.flatMap (·.roots)).map .term : List Ref)) : p.Intact := by
  have htree := Tree.Forest.intact h
  exact ⟨htree, fun item hitem => Item.storesOnly_of_roots fun id hid =>
    htree.rootsInBounds id (List.mem_flatMap.mpr ⟨item, hitem, hid⟩)⟩

theorem Program.read_intact {config : Config} (hrecover : config.recover = true)
    (remembers : Bool) (source : String) : (Program.read config remembers source).program.Intact :=
  Program.intact_of_forest (Program.read_forest hrecover remembers source)

theorem yields_wholeStatement {config : Config} {deep : Deeper} (h : deep.Yields config) :
    Yields config (wholeStatement deep) :=
  h.statement.bind fun _ => (idle_sees _).skip fun _ =>
    .ite (fun _ => .pure (zero_add _)) fun _ => owns_unexpected _

theorem Expression.read_forest {config : Config} {remembers : Bool} {source : String}
    {e : Expression} (h : Expression.read config remembers source = .ok e) :
    e.tree.Forest ([e.root].map .term : List Ref) := by
  have hwhole : Yields config (wholeStatement (nested config.maxDepth)) :=
    yields_wholeStatement (yields_nested config.maxDepth)
  have hyields := hwhole remembers (.free .term) (initial (Lexing.ofText source)) 0
    Tree.Forest.empty
  rw [Expression.read_eq] at h
  obtain ⟨s, hrun, htree, -⟩ := Outcome.ok_of_expression h
  have hforest := hyields e.root s hrun
  rwa [add_zero, htree] at hforest

theorem Expression.read_intact {config : Config} {remembers : Bool} {source : String}
    {e : Expression} (h : Expression.read config remembers source = .ok e) :
    e.tree.Intact [e.root] :=
  (Expression.read_forest h).intact

/-- The trees of all programs and of all accepted expressions are whole. -/
theorem trees_intact (source : String) (config : Config) :
    (config.recover = true → (Program.ofText source config).program.Intact) ∧
      ∀ e, Expression.ofText source config = .ok e → e.tree.Intact [e.root] :=
  ⟨fun hrecover => Program.read_intact hrecover true source, fun _ h => Expression.read_intact h⟩

set_option maxRecDepth 100000 in
theorem trees_intact_broken :
    (Program.ofText "def f : (g<a, b def h : x" .standard).program.Intact ∧
      ∃ e, Expression.ofText "f(x, λ(p, q). g<a>)" .standard = .ok e ∧ e.tree.Intact [e.root] := by
  refine ⟨(trees_intact _ _).1 rfl, ?_⟩
  have hok : (Expression.ofText "f(x, λ(p, q). g<a>)" .standard).isOk = true := by decide +kernel
  cases h : Expression.ofText "f(x, λ(p, q). g<a>)" .standard with
  | ok e => exact ⟨e, rfl, (trees_intact _ _).2 e h⟩
  | error ds =>
      rw [h] at hok
      cases hok

end BendSyntax
