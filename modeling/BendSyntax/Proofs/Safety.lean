import BendSyntax.Proofs.Dumps
import BendSyntax.Proofs.Lexing.Bounds
import BendSyntax.Proofs.Lexing.Names
import BendSyntax.Proofs.Steps.Items

/-! Whatever is looked up while a text is read, and afterwards in what was read, is there: tokens,
nodes, and the bytes that spans cut out. Lengths are never taken the wrong way round, and no
number is negated that is negative already. -/

namespace BendSyntax

open Reading Grammar Owner

/-! ## Tokens -/

namespace Lexing

/-- Tokens and diagnostics that are found inside the source. -/
structure InRange (source : String) (l : Lexing) : Prop where
  eof : l.tokens.eof.kind = .eof
  tokens : ∀ t ∈ l.tokens.toList, t.span.Within source.toList
  diagnostics : ∀ d ∈ l.diagnostics, d.span.Within source.toList
  /-- What stands behind the sign of a number is not negative. -/
  signs : ∀ t ∈ l.tokens.toList, ∀ body i, t.lexeme.toList = '-' :: body →
    Literal.magnitude? body = some i → 0 ≤ i

end Lexing

/-! ## Steps -/

/-- A step that looks up what is there. A look at a token further on ends at the last one. -/
def Step.InRange (tokens : Tokens) : Step → Prop
  | .tokens c => c.index < tokens.toList.length ∧ ∀ n,
      tokens.toList[min (c.index + n) (tokens.toList.length - 1)]? = some (c.tokenAt n)
  | .term id tree => id.index < tree.terms.size ∧ (tree.span id).start ≤ (tree.span id).stop ∧
      tree.term? id ≠ some (.qualified [])
  | .part _ _ => True
  | .round _ _ => True

theorem Cursor.Reaches.tokenAt {tokens : Tokens} {c : Cursor}
    (h : (Cursor.start tokens).Reaches c) (n : Nat) :
    tokens.toList[min (c.index + n) (tokens.toList.length - 1)]? = some (c.tokenAt n) := by
  obtain ⟨m, hm, hrest, hindex, heof⟩ := h
  simp only [start, Nat.zero_add] at hm hrest hindex heof
  rw [Cursor.tokenAt, hrest, List.getElem?_drop, hindex, Tokens.toList, List.length_append,
    List.length_singleton, Nat.add_sub_cancel]
  by_cases hlt : m + n < tokens.body.length
  · rw [Nat.min_eq_left (Nat.le_of_lt hlt), List.getElem?_append_left hlt,
      List.getElem?_eq_getElem hlt]
  · rw [Nat.min_eq_right (Nat.le_of_not_lt hlt), List.getElem?_eq_none (Nat.le_of_not_lt hlt), heof]
    exact List.getElem?_concat_length

theorem Step.Fine.inRange {tokens : Tokens} {x : Step} (h : x.Fine tokens) : x.InRange tokens := by
  cases x with
  | tokens c =>
      refine ⟨?_, Cursor.Reaches.tokenAt h⟩
      obtain ⟨n, hn, -, hindex, -⟩ := h
      simp only [Cursor.start, Nat.zero_add] at hn hindex
      simp [Tokens.toList, hindex]
      omega
  | term id tree =>
      obtain ⟨hid, hspan, hnamed⟩ := h
      exact ⟨hid, hspan, fun hterm => hnamed _ hterm rfl⟩
  | part c d => trivial
  | round c d => trivial

/-! ## Trees -/

/-- A tree in which every node refers to nodes before it. -/
structure Tree.InRange (t : Tree) : Prop where
  terms : ∀ i (h : i < t.terms.size), ∀ id, .term id ∈ t.terms[i].term.children → id.index < i
  patternsOfTerms : ∀ i (h : i < t.terms.size), ∀ id,
    .pattern id ∈ t.terms[i].term.children → id.index < t.patterns.size
  patterns : ∀ i (h : i < t.patterns.size), ∀ id ∈ t.patterns[i].pattern.children, id.index < i
  /-- Nothing else is stored in a node. -/
  stored : ∀ i (h : i < t.terms.size),
    t.terms[i].term.StoresOnly (·.index < i) (·.index < t.patterns.size)
  storedPatterns : ∀ i (h : i < t.patterns.size), t.patterns[i].pattern.StoresOnly (·.index < i)
  spans : ∀ node ∈ t.terms, node.span.start ≤ node.span.stop
  /-- What would stand for a node that is missing does not show. -/
  dumps : ∀ missing, t.foldPatterns Pattern.dump missing = t.patternDumps ∧
    t.foldTerms Term.dump missing (fun id => t.patternDumps.getD id.index missing) = t.termDumps

/-- A program whose tree is in range and whose items refer to nodes of it. -/
structure Program.InRange (p : Program) : Prop where
  tree : p.tree.InRange
  roots : ∀ item ∈ p.items, ∀ id ∈ item.roots, id.index < p.tree.terms.size
  stored : ∀ item ∈ p.items, item.StoresOnly (·.index < p.tree.terms.size)
  spans : ∀ item ∈ p.items, (p.itemSpan item).start ≤ (p.itemSpan item).stop
  dumps : ∀ missing, (p.items.map fun item =>
    (item.map fun id => p.tree.termDumps.getD id.index missing).dump) = p.itemDumps

/-- Where there is a value no other one is needed in its place. -/
theorem getD_congr {α : Type} {as : Array α} {n : Nat} (hn : n < as.size) (a b : α) :
    as.getD n a = as.getD n b := by
  simp [Array.getD_eq_getD_getElem?, hn]

namespace Tree

variable {t : Tree}

theorem foldPatterns_congr
    (h : ∀ i (h : i < t.patterns.size), ∀ id ∈ t.patterns[i].pattern.children, id.index < i)
    (missing : String) : t.foldPatterns Pattern.dump missing = t.patternDumps := by
  have hfold : t.foldPatterns Pattern.dump missing = t.patterns.toList.foldl
      (pushing fun done node => (node.pattern.map fun id => done.getD id.index missing).dump)
        #[] := by
    rw [foldPatterns, ← Array.foldl_toList]
    rfl
  rw [hfold, patternDumps_eq]
  refine foldl_pushing_congr fun i node before hnode hsize => congrArg Pattern.dump ?_
  obtain ⟨hi, rfl⟩ := List.getElem?_eq_some_iff.mp hnode
  refine Pattern.map_congr _ fun id hid => getD_congr ?_ _ _
  have := h i hi id hid
  simp at hsize
  omega

theorem foldTerms_congr
    (hterms : ∀ i (h : i < t.terms.size), ∀ id, .term id ∈ t.terms[i].term.children → id.index < i)
    (hpatterns : ∀ i (h : i < t.terms.size), ∀ id, .pattern id ∈ t.terms[i].term.children →
      id.index < t.patterns.size) (missing : String) :
    t.foldTerms Term.dump missing (fun id => t.patternDumps.getD id.index missing) =
      t.termDumps := by
  have hfold : t.foldTerms Term.dump missing (fun id => t.patternDumps.getD id.index missing) =
      t.terms.toList.foldl (pushing fun done node =>
        (node.term.map (fun id => done.getD id.index missing)
          fun id => t.patternDumps.getD id.index missing).dump) #[] := by
    rw [foldTerms, ← Array.foldl_toList]
    rfl
  rw [hfold, termDumps_eq]
  refine foldl_pushing_congr fun i node before hnode hsize => congrArg Term.dump ?_
  obtain ⟨hi, rfl⟩ := List.getElem?_eq_some_iff.mp hnode
  refine Term.map_congr _ (fun id hid => getD_congr ?_ _ _) fun id hid => getD_congr ?_ _ _
  · have := hterms i hi id hid
    simp at hsize
    omega
  · rw [size_patternDumps]
    exact hpatterns i hi id hid

end Tree

theorem Tree.Closed.inRange {t : Tree} (h : t.Closed) : t.InRange := by
  have hterm {i : Nat} (hi : i < t.terms.size) :
      t.childrenOf (.term ⟨i⟩) = t.terms[i].term.children := by
    simp [childrenOf, term?, hi]
  have hpattern {i : Nat} (hi : i < t.patterns.size) :
      t.childrenOf (.pattern ⟨i⟩) = t.patterns[i].pattern.children.map .pattern := by
    simp [childrenOf, hi]
  have hterms (i : Nat) (hi : i < t.terms.size) (id : TermId)
      (hid : .term id ∈ t.terms[i].term.children) : id.index < i :=
    h.precedes (.term ⟨i⟩) (mem_nodes_term.mpr hi) (.term id) ((hterm hi).symm ▸ hid)
  have hpatternsOfTerms (i : Nat) (hi : i < t.terms.size) (id : PatternId)
      (hid : .pattern id ∈ t.terms[i].term.children) : id.index < t.patterns.size :=
    mem_nodes_pattern.mp
      (h.inside (.term ⟨i⟩) (mem_nodes_term.mpr hi) (.pattern id) ((hterm hi).symm ▸ hid))
  have hpatterns (i : Nat) (hi : i < t.patterns.size) (id : PatternId)
      (hid : id ∈ t.patterns[i].pattern.children) : id.index < i :=
    h.precedes (.pattern ⟨i⟩) (mem_nodes_pattern.mpr hi) (.pattern id)
      ((hpattern hi).symm ▸ List.mem_map_of_mem hid)
  exact {
    terms := hterms
    patternsOfTerms := hpatternsOfTerms
    patterns := hpatterns
    stored := fun i hi => Term.storesOnly_of_children (hterms i hi) (hpatternsOfTerms i hi)
    storedPatterns := fun i hi => Pattern.storesOnly_of_children (hpatterns i hi)
    spans := fun node hnode => h.spans node (Array.mem_toList_iff.mpr hnode)
    dumps := fun missing => ⟨foldPatterns_congr hpatterns missing,
      foldTerms_congr hterms hpatternsOfTerms missing⟩ }

/-! ## Texts -/

/-- A program whose items are made of nodes that are there. -/
theorem Program.inRange_of_closed {p : Program} (htree : p.tree.Closed)
    (hroots : refs p.items ⊆ p.tree.nodes) (hspans : ∀ item ∈ p.items, item.Ordered) :
    p.InRange := by
  have hindex (item : Item TermId) (hitem : item ∈ p.items) (id : TermId)
      (hid : id ∈ item.roots) : id.index < p.tree.terms.size := by
    refine Tree.mem_nodes_term.mp (hroots (List.mem_flatMap.mpr ⟨item, hitem, ?_⟩))
    rw [refs_item]
    exact List.mem_map_of_mem hid
  exact {
    tree := htree.inRange
    roots := hindex
    stored := fun item hitem => Item.storesOnly_of_roots (hindex item hitem)
    spans := fun item hitem => by
      have hordered := hspans item hitem
      cases item with
      | expr id => exact htree.span_le (hindex _ hitem id (List.mem_singleton_self id))
      | _ => exact hordered
    dumps := fun missing => List.map_congr_left fun item hitem => congrArg Item.dump
      (item.map_congr fun id hid => getD_congr (by
        rw [Tree.size_termDumps]
        exact hindex item hitem id hid) _ _) }

theorem Program.inRange_read (config : Config) (remembers : Bool) (source : String) :
    (Program.read config remembers source).program.InRange := by
  have hkeeps := keeps_sourceFile (Lexing.ofText source).tokens config.maxDepth
  have hends := (run_onText hkeeps config remembers).ends
  have hspans := answers_sourceFile (Lexing.ofText source).tokens config.maxDepth
    (setting config remembers) (initial (Lexing.ofText source))
  rw [Program.read_eq]
  change ((sourceFile (nested config.maxDepth)).onText config remembers source).EndsWell _ _
    at hends
  cases hrun : (sourceFile (nested config.maxDepth)).onText config remembers source with
  | ok items s =>
      have hfits := hends.fits
      rw [hrun] at hfits
      exact inRange_of_closed hfits.tree (hends.answer _ _ hrun)
        (hspans items s (Session.fits_initial source) (List.nil_subset _) hrun)
  | error e s =>
      have hfits := hends.fits
      rw [hrun] at hfits
      exact inRange_of_closed hfits.tree (List.nil_subset _) nofun

theorem Expression.inRange_read {config : Config} {remembers : Bool} {source : String}
    {e : Expression} (h : Expression.read config remembers source = .ok e) :
    e.tree.InRange ∧ e.root.index < e.tree.terms.size := by
  have hkeeps := keeps_wholeStatement (Lexing.ofText source).tokens config.maxDepth
  have hends := (run_onText hkeeps config remembers).ends
  rw [Expression.read_eq] at h
  obtain ⟨s, hrun, htree, -⟩ := Outcome.ok_of_expression h
  change ((wholeStatement (nested config.maxDepth)).onText config remembers source).EndsWell _ _
    at hends
  have hanswer := hends.answer _ _ hrun
  have hfits := hends.fits
  rw [hrun] at hfits
  rw [← htree]
  exact ⟨hfits.tree.inRange, Tree.mem_nodes_term.mp (hanswer (List.mem_singleton_self _))⟩

end BendSyntax
