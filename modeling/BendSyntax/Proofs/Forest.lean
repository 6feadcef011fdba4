import BendSyntax.Syntax.Tree
import Mathlib.Data.Multiset.Bind

/-! A tree is a forest over its roots when every node is the child of exactly one other node or
is a root, and children come before their parents. A walk down from the roots then ends, and
it visits every node exactly once. -/

namespace BendSyntax

/-- A node of a tree. -/
abbrev Ref := Child TermId PatternId

namespace Tree

/-- The children of a node in source order. -/
def childrenOf (t : Tree) : Ref → List Ref
  | .term id =>
      match t.term? id with
      | some term => term.children
      | none => []
  | .pattern id =>
      match t.patterns[id.index]? with
      | some node => node.pattern.children.map .pattern
      | none => []

/-- All nodes of a tree. -/
def nodes (t : Tree) : List Ref :=
  (List.range t.terms.size).map (fun i => .term ⟨i⟩) ++
    (List.range t.patterns.size).map (fun i => .pattern ⟨i⟩)

/-- A walk down from some nodes visits each of them and then walks down from its children. -/
inductive Walk (t : Tree) : List Ref → List Ref → Prop
  | done : Walk t [] []
  | visit {c cs below rest} : Walk t (t.childrenOf c) below → Walk t cs rest →
      Walk t (c :: cs) (c :: below ++ rest)

/-- A child comes before its parent. -/
def Precedes : Ref → Ref → Prop
  | .term a, .term b => a.index < b.index
  | .pattern p, .pattern q => p.index < q.index
  | .pattern _, .term _ => True
  | .term _, .pattern _ => False

/-- All nodes but the roots have exactly one parent. -/
structure Forest (t : Tree) (roots : Multiset Ref) : Prop where
  balance : (t.nodes.flatMap t.childrenOf : Multiset Ref) + roots = t.nodes
  precedes : ∀ c ∈ t.nodes, ∀ d ∈ t.childrenOf c, Precedes d c

variable {t u : Tree} {roots : Multiset Ref}

/-! ## Nodes -/

@[simp] theorem mem_nodes_term {id : TermId} : .term id ∈ t.nodes ↔ id.index < t.terms.size := by
  cases id
  simp [nodes]

@[simp] theorem mem_nodes_pattern {id : PatternId} :
    .pattern id ∈ t.nodes ↔ id.index < t.patterns.size := by
  cases id
  simp [nodes]

theorem term?_eq_contents (t : Tree) (id : TermId) :
    t.term? id = t.contents[id.index]?.map Prod.fst := by
  simp [term?, contents, Function.comp_def]

theorem Extends.term? {id : TermId} {term : Term TermId PatternId} (h : t.Extends u)
    (hid : t.term? id = some term) : u.term? id = some term := by
  rw [term?_eq_contents] at hid ⊢
  obtain ⟨node, hnode, rfl⟩ := Option.map_eq_some_iff.mp hid
  obtain ⟨added, hadded⟩ := h.contents
  rw [← hadded, List.getElem?_append_left (List.getElem?_eq_some_iff.mp hnode).1, hnode]
  rfl

theorem term?_addTerm (t : Tree) (node : TermNode) :
    (t.addTerm node).2.term? (t.addTerm node).1 = some node.term := by
  simp [addTerm, term?]

theorem nodes_congr (hterms : t.contents = u.contents)
    (hpatterns : t.patterns.toList = u.patterns.toList) : t.nodes = u.nodes := by
  have hterms := congrArg List.length hterms
  have hpatterns := congrArg List.length hpatterns
  simp only [contents_length, Array.length_toList] at hterms hpatterns
  simp [nodes, hterms, hpatterns]

theorem childrenOf_congr (hterms : t.contents = u.contents)
    (hpatterns : t.patterns.toList = u.patterns.toList) : t.childrenOf = u.childrenOf := by
  funext c
  cases c with
  | term id => simp [childrenOf, term?_eq_contents, hterms]
  | pattern id => simp [childrenOf, ← Array.getElem?_toList, hpatterns]

namespace Forest

theorem congr (h : t.Forest roots) (hterms : t.contents = u.contents)
    (hpatterns : t.patterns.toList = u.patterns.toList) : u.Forest roots := by
  have hnodes := nodes_congr hterms hpatterns
  have hchildren := childrenOf_congr hterms hpatterns
  exact ⟨hnodes ▸ hchildren ▸ h.balance, hnodes ▸ hchildren ▸ h.precedes⟩

theorem empty : Tree.empty.Forest 0 := ⟨rfl, nofun⟩

theorem widen (h : t.Forest roots) (id : TermId) (span : Span) : (t.widen id span).Forest roots :=
  h.congr (by simp) rfl

theorem mem_nodes_of_root (h : t.Forest roots) {c : Ref} (hc : c ∈ roots) : c ∈ t.nodes := by
  have hmem : c ∈ (t.nodes : Multiset Ref) := h.balance ▸ Multiset.mem_add.mpr (.inr hc)
  exact Multiset.mem_coe.mp hmem

theorem mem_nodes_of_child (h : t.Forest roots) {c d : Ref} (hc : c ∈ t.nodes)
    (hd : d ∈ t.childrenOf c) : d ∈ t.nodes := by
  have hchild : d ∈ (t.nodes.flatMap t.childrenOf : Multiset Ref) :=
    Multiset.mem_coe.mpr (List.mem_flatMap.mpr ⟨c, hc, hd⟩)
  have hmem : d ∈ (t.nodes : Multiset Ref) := h.balance ▸ Multiset.mem_add.mpr (.inl hchild)
  exact Multiset.mem_coe.mp hmem

theorem nodup_nodes (t : Tree) : t.nodes.Nodup := by
  refine List.Nodup.append (List.nodup_range.map fun i j h => ?_) (List.nodup_range.map fun i j h => ?_) ?_
  · simpa using h
  · simpa using h
  · simp [List.disjoint_left]

/-- A root has no parent. -/
theorem notMem_childrenOf (h : t.Forest roots) {c d : Ref} (hc : c ∈ roots) (hd : d ∈ t.nodes) :
    c ∉ t.childrenOf d := by
  intro hchild
  have hnodup : ((t.nodes.flatMap t.childrenOf : Multiset Ref) + roots).Nodup :=
    h.balance ▸ Multiset.coe_nodup.mpr (nodup_nodes t)
  have hmem : c ∈ (t.nodes.flatMap t.childrenOf : Multiset Ref) :=
    Multiset.mem_coe.mpr (List.mem_flatMap.mpr ⟨d, hd, hchild⟩)
  exact Multiset.disjoint_left.mp (Multiset.nodup_add.mp hnodup).2.2 hmem hc

/-! ## Adding nodes -/

theorem childrenOf_addTerm (t : Tree) (node : TermNode) {c : Ref} (hc : c ∈ t.nodes) :
    (t.addTerm node).2.childrenOf c = t.childrenOf c := by
  cases c with
  | term id =>
      have hlt := mem_nodes_term.mp hc
      simp [childrenOf, term?, addTerm, Array.getElem?_push, Nat.ne_of_lt hlt]
  | pattern id => rfl

theorem childrenOf_addPattern (t : Tree) (node : PatternNode) {c : Ref} (hc : c ∈ t.nodes) :
    (t.addPattern node).2.childrenOf c = t.childrenOf c := by
  cases c with
  | term id => rfl
  | pattern id =>
      have hlt := mem_nodes_pattern.mp hc
      simp [childrenOf, addPattern, Array.getElem?_push, Nat.ne_of_lt hlt]

theorem nodes_addTerm (t : Tree) (node : TermNode) :
    ((t.addTerm node).2.nodes : Multiset Ref) = Child.term (t.addTerm node).1 ::ₘ t.nodes := by
  simp only [nodes, addTerm, Array.size_push, List.range_succ, List.map_append, List.map_cons,
    List.map_nil]
  rw [Multiset.cons_coe, Multiset.coe_eq_coe]
  simp

theorem nodes_addPattern (t : Tree) (node : PatternNode) :
    ((t.addPattern node).2.nodes : Multiset Ref) =
      Child.pattern (t.addPattern node).1 ::ₘ t.nodes := by
  simp only [nodes, addPattern, Array.size_push, List.range_succ, List.map_append, List.map_cons,
    List.map_nil]
  rw [Multiset.cons_coe, Multiset.coe_eq_coe, ← List.append_assoc]
  exact List.perm_append_singleton _ _

theorem coe_flatMap {α β : Type} (l : List α) (f : α → List β) :
    (l.flatMap f : Multiset β) = (l : Multiset α).bind fun a => (f a : Multiset β) :=
  (Multiset.coe_bind l f).symm

theorem addTerm (node : TermNode) (h : t.Forest (node.term.children + roots)) :
    (t.addTerm node).2.Forest (.term (t.addTerm node).1 ::ₘ roots) := by
  have hnew : (t.addTerm node).2.childrenOf (.term (t.addTerm node).1) = node.term.children := by
    simp [childrenOf, term?, Tree.addTerm]
  have hold := Multiset.bind_congr (m := (t.nodes : Multiset Ref)) fun c hc =>
    congrArg (Multiset.ofList) (childrenOf_addTerm t node (Multiset.mem_coe.mp hc))
  have hbalance := h.balance
  rw [coe_flatMap] at hbalance
  constructor
  · rw [coe_flatMap, nodes_addTerm, Multiset.cons_bind, hnew, hold, Multiset.add_cons]
    conv_rhs => rw [← hbalance]
    ac_rfl
  · intro c hc d hd
    have hc : c ∈ Child.term (t.addTerm node).1 ::ₘ (t.nodes : Multiset Ref) :=
      nodes_addTerm t node ▸ Multiset.mem_coe.mpr hc
    rcases Multiset.mem_cons.mp hc with rfl | hc
    · rw [hnew] at hd
      have hmem := h.mem_nodes_of_root (Multiset.mem_add.mpr (.inl (Multiset.mem_coe.mpr hd)))
      cases d with
      | term id => exact mem_nodes_term.mp hmem
      | pattern id => trivial
    · have hc := Multiset.mem_coe.mp hc
      rw [childrenOf_addTerm t node hc] at hd
      exact h.precedes c hc d hd

theorem addPattern (node : PatternNode)
    (h : t.Forest ((node.pattern.children.map .pattern : List Ref) + roots)) :
    (t.addPattern node).2.Forest (.pattern (t.addPattern node).1 ::ₘ roots) := by
  have hnew : (t.addPattern node).2.childrenOf (.pattern (t.addPattern node).1) =
      node.pattern.children.map .pattern := by
    simp [childrenOf, Tree.addPattern]
  have hold := Multiset.bind_congr (m := (t.nodes : Multiset Ref)) fun c hc =>
    congrArg (Multiset.ofList) (childrenOf_addPattern t node (Multiset.mem_coe.mp hc))
  have hbalance := h.balance
  rw [coe_flatMap] at hbalance
  constructor
  · rw [coe_flatMap, nodes_addPattern, Multiset.cons_bind, hnew, hold, Multiset.add_cons]
    conv_rhs => rw [← hbalance]
    ac_rfl
  · intro c hc d hd
    have hc : c ∈ Child.pattern (t.addPattern node).1 ::ₘ (t.nodes : Multiset Ref) :=
      nodes_addPattern t node ▸ Multiset.mem_coe.mpr hc
    rcases Multiset.mem_cons.mp hc with rfl | hc
    · rw [hnew] at hd
      have hmem := h.mem_nodes_of_root (Multiset.mem_add.mpr (.inl (Multiset.mem_coe.mpr hd)))
      obtain ⟨id, -, rfl⟩ := List.mem_map.mp hd
      exact mem_nodes_pattern.mp hmem
    · have hc := Multiset.mem_coe.mp hc
      rw [childrenOf_addPattern t node hc] at hd
      exact h.precedes c hc d hd

/-! ## Walks -/

/-- Children come before their parents, and patterns before all terms. -/
def rank (t : Tree) : Ref → Nat
  | .pattern id => id.index
  | .term id => t.patterns.size + id.index

theorem rank_lt (h : t.Forest roots) {c d : Ref} (hc : c ∈ t.nodes) (hd : d ∈ t.childrenOf c) :
    rank t d < rank t c := by
  have hprecedes := h.precedes c hc d hd
  have hmem := h.mem_nodes_of_child hc hd
  cases c with
  | term i =>
      cases d with
      | term j => simpa [rank, Precedes] using hprecedes
      | pattern q =>
          have hlt := mem_nodes_pattern.mp hmem
          simp only [rank]
          omega
  | pattern p =>
      cases d with
      | term j => exact hprecedes.elim
      | pattern q => exact hprecedes

theorem walk_flatMap {g : Ref → List Ref} {cs : List Ref}
    (hg : ∀ c ∈ cs, t.Walk (t.childrenOf c) (g c)) :
    t.Walk cs (cs.flatMap fun c => c :: g c) := by
  induction cs with
  | nil => exact .done
  | cons c cs ih =>
      exact .visit (hg c (.head cs)) (ih fun d hd => hg d (.tail c hd))

/-- Below every node a walk ends. -/
theorem exists_walk (h : t.Forest roots) (c : Ref) (hc : c ∈ t.nodes) :
    ∃ below, t.Walk (t.childrenOf c) below := by
  induction hn : rank t c using Nat.strongRecOn generalizing c with
  | _ n ih =>
      have hchild : ∀ d ∈ t.childrenOf c, ∃ below, t.Walk (t.childrenOf d) below := fun d hd =>
        ih (rank t d) (hn ▸ h.rank_lt hc hd) d (h.mem_nodes_of_child hc hd) rfl
      choose! g hg using hchild
      exact ⟨_, walk_flatMap hg⟩

end Forest

theorem Walk.unique {cs v w : List Ref} (hv : t.Walk cs v) (hw : t.Walk cs w) : v = w := by
  induction hv generalizing w with
  | done =>
      cases hw
      rfl
  | visit _ _ ih₁ ih₂ =>
      cases hw with
      | visit h₁ h₂ => rw [ih₁ h₁, ih₂ h₂]

/-- A walk down from the roots visits every node exactly once: what the walks down from all
nodes visit is counted in two ways. -/
theorem Forest.walk {l : List Ref} (h : t.Forest l) : ∃ visited, t.Walk l visited ∧ visited.Perm t.nodes := by
  choose! g hg using h.exists_walk
  have hroots : ∀ c ∈ l, t.Walk (t.childrenOf c) (g c) := fun c hc =>
    hg c (h.mem_nodes_of_root (Multiset.mem_coe.mpr hc))
  refine ⟨_, Forest.walk_flatMap hroots, ?_⟩
  let total (m : Multiset Ref) : Multiset Ref := m.bind fun c => (c :: g c : List Ref)
  have htotal (cs : List Ref) : (cs.flatMap fun c => c :: g c : Multiset Ref) = total cs :=
    coe_flatMap cs _
  have hbelow : ∀ c ∈ t.nodes, (g c : Multiset Ref) = total (t.childrenOf c) := by
    intro c hc
    have hchildren := walk_flatMap (t := t) fun d hd => hg d (h.mem_nodes_of_child hc hd)
    rw [(hg c hc).unique hchildren, htotal]
  have hnodes : total t.nodes = t.nodes + total (t.nodes.flatMap t.childrenOf) := by
    calc total t.nodes
      _ = (t.nodes : Multiset Ref).bind fun c => {c} + total (t.childrenOf c) := by
        refine Multiset.bind_congr fun c hc => ?_
        rw [← hbelow c (Multiset.mem_coe.mp hc)]
        rfl
      _ = t.nodes + total (t.nodes.flatMap t.childrenOf) := by
        rw [Multiset.bind_add, coe_flatMap, Multiset.bind_singleton _ fun c => c, Multiset.map_id']
        exact congrArg _ (Multiset.bind_assoc).symm
  have hbalance : total t.nodes = total (t.nodes.flatMap t.childrenOf) + total l := by
    conv_lhs => rw [← h.balance]
    exact Multiset.add_bind _ _ _
  rw [← Multiset.coe_eq_coe, htotal]
  rw [hnodes, add_comm] at hbalance
  exact (add_left_cancel hbalance).symm

end Tree

end BendSyntax
