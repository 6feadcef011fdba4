import BendSyntax.Proofs.Layout.Bindings

/-! Where the nodes of a tree lie in the text. Nodes are placed in a part of the text if their
spans lie in it one behind the other. A tree is sound if the children of every node are placed
within the span of the node and bind as tightly there as they have to. -/

namespace BendSyntax

namespace Tree

def spanAt (t : Tree) : Ref → Span
  | .term id => t.span id
  | .pattern id =>
      match t.patterns[id.index]? with
      | some node => node.span
      | none => .zero

/-- A node of the tree that lies in a part of the text and binds tightly enough. -/
structure Fits (t : Tree) (lo : Nat) (h : Held) (hi : Nat) : Prop where
  mem : h.ref ∈ t.nodes
  lower : lo ≤ (t.spanAt h.ref).start
  ordered : (t.spanAt h.ref).start ≤ (t.spanAt h.ref).stop
  upper : (t.spanAt h.ref).stop ≤ hi
  binds : t.Binds h.level h.ref

/-- Nodes that lie in a part of the text one behind the other. -/
def Placed (t : Tree) : Nat → List Held → Nat → Prop
  | _, [], _ => True
  | lo, h :: k, hi => t.Fits lo h hi ∧ t.Placed (t.spanAt h.ref).stop k hi

/-- A term whose children come before it and are placed within its span. -/
structure SoundTerm (t : Tree) (index : Nat) (node : TermNode) : Prop where
  precedes : ∀ id, .term id ∈ node.term.children → id.index < index
  placed : t.Placed node.span.start node.term.demands node.span.stop

structure Sound (t : Tree) : Prop where
  terms : ∀ (i : Nat) (node : TermNode), t.terms[i]? = some node → t.SoundTerm i node
  patterns : ∀ (i : Nat) (node : PatternNode), t.patterns[i]? = some node →
    t.Placed node.span.start (node.pattern.children.map (.loose <| .pattern ·)) node.span.stop

variable {t u : Tree} {lo lo' hi hi' mid : Nat} {k l : List Held}

theorem Binds.mono {level level' : Level} {ref : Ref} (hb : t.Binds level ref)
    (hle : level' ≤ level) : t.Binds level' ref := by
  cases ref with
  | term id => exact fun form hform => Nat.le_trans hle (hb form hform)
  | pattern id => trivial

/-- No operator binds as tightly as an operand of a sign. -/
theorem binds_term_of_none {id : TermId} (hid : t.bareInfix? id = none) (level : Level) :
    t.Binds level (.term id) := by
  simp [Binds, hid]

theorem bareInfix?_of_binds {id : TermId} (hb : t.Binds .operand (.term id)) :
    t.bareInfix? id = none := by
  cases hform : t.bareInfix? id with
  | none => rfl
  | some form => exact absurd form.binding_level_lt (Nat.not_lt.mpr (hb form hform))

theorem Fits.lo_le_hi {h : Held} (hfits : t.Fits lo h hi) : lo ≤ hi :=
  Nat.le_trans hfits.lower (Nat.le_trans hfits.ordered hfits.upper)

namespace Placed

theorem mono_lo (hk : t.Placed lo k hi) (hle : lo' ≤ lo) : t.Placed lo' k hi := by
  cases k with
  | nil => trivial
  | cons h k => exact ⟨{ hk.1 with lower := Nat.le_trans hle hk.1.lower }, hk.2⟩

theorem mono_hi (hk : t.Placed lo k hi) (hle : hi ≤ hi') : t.Placed lo k hi' := by
  induction k generalizing lo with
  | nil => trivial
  | cons h k ih => exact ⟨{ hk.1 with upper := Nat.le_trans hk.1.upper hle }, ih hk.2⟩

/-- More nodes behind those that are placed. -/
theorem append (hk : t.Placed lo k hi) (hl : t.Placed mid l hi') (hmid : hi ≤ mid)
    (hlo : lo ≤ mid) (hhi : hi ≤ hi') : t.Placed lo (k ++ l) hi' := by
  induction k generalizing lo with
  | nil => exact hl.mono_lo hlo
  | cons h k ih =>
      exact ⟨{ hk.1 with upper := Nat.le_trans hk.1.upper hhi },
        ih hk.2 (Nat.le_trans hk.1.upper hmid)⟩

theorem mem {h : Held} (hk : t.Placed lo k hi) (hh : h ∈ k) : t.Fits lo h hi := by
  induction k generalizing lo with
  | nil => cases hh
  | cons g k ih =>
      rcases List.mem_cons.mp hh with rfl | hh
      · exact hk.1
      · have hfits := ih hk.2 hh
        have hlower := Nat.le_trans hk.1.lower (Nat.le_trans hk.1.ordered hfits.lower)
        exact { hfits with lower := hlower }

/-- Of two nodes the earlier ends before the later begins. -/
theorem pairwise (hk : t.Placed lo k hi) :
    k.Pairwise fun g h => (t.spanAt g.ref).stop ≤ (t.spanAt h.ref).start := by
  induction k generalizing lo with
  | nil => exact .nil
  | cons g k ih => exact .cons (fun h hh => (hk.2.mem hh).lower) (ih hk.2)

/-- Nodes with lower demands on how tightly they bind. -/
theorem relax (hk : t.Placed lo k hi)
    (hkl : List.Forall₂ (fun g h => g.ref = h.ref ∧ h.level ≤ g.level) k l) :
    t.Placed lo l hi := by
  induction hkl generalizing lo with
  | nil => trivial
  | @cons g h k l hgh hkl ih =>
      obtain ⟨ref, level⟩ := g
      obtain ⟨rfl, hlevel⟩ := hgh
      exact ⟨⟨hk.1.mem, hk.1.lower, hk.1.ordered, hk.1.upper, hk.1.binds.mono hlevel⟩, ih hk.2⟩

end Placed

/-! ## Trees with the same nodes -/

/-- A node that is the same in another tree, and so are its operands. -/
structure Keeps (t u : Tree) (ref : Ref) : Prop where
  mem : ref ∈ t.nodes → ref ∈ u.nodes
  span : u.spanAt ref = t.spanAt ref
  binds : ∀ level, t.Binds level ref → u.Binds level ref

theorem Placed.congr (hk : t.Placed lo k hi)
    (hkeeps : ∀ h ∈ k, h.ref ∈ t.nodes → t.Keeps u h.ref) : u.Placed lo k hi := by
  induction k generalizing lo with
  | nil => trivial
  | cons h k ih =>
      have hh := hkeeps h (List.mem_cons_self ..) hk.1.mem
      refine ⟨⟨hh.mem hk.1.mem, ?_, ?_, ?_, hh.binds _ hk.1.binds⟩, ?_⟩
      · exact hh.span ▸ hk.1.lower
      · exact hh.span ▸ hk.1.ordered
      · exact hh.span ▸ hk.1.upper
      · exact hh.span ▸ ih hk.2 fun g hg => hkeeps g (List.mem_cons_of_mem _ hg)

/-- A tree to which nodes were added. -/
structure Prefix (t u : Tree) : Prop where
  terms : t.terms.toList <+: u.terms.toList
  patterns : t.patterns.toList <+: u.patterns.toList

namespace Prefix

theorem refl (t : Tree) : t.Prefix t := ⟨List.prefix_refl _, List.prefix_refl _⟩

theorem trans {v : Tree} (h : t.Prefix u) (k : u.Prefix v) : t.Prefix v :=
  ⟨h.terms.trans k.terms, h.patterns.trans k.patterns⟩

theorem addTerm (t : Tree) (node : TermNode) : t.Prefix (t.addTerm node).2 :=
  ⟨by simp [Tree.addTerm], List.prefix_refl _⟩

theorem addPattern (t : Tree) (node : PatternNode) : t.Prefix (t.addPattern node).2 :=
  ⟨List.prefix_refl _, by simp [Tree.addPattern]⟩

variable (h : t.Prefix u)

include h

theorem getElem?_terms {i : Nat} (hi : i < t.terms.size) : u.terms[i]? = t.terms[i]? := by
  obtain ⟨k, hk⟩ := h.terms
  rw [← Array.getElem?_toList, ← Array.getElem?_toList, ← hk, List.getElem?_append_left (by simpa)]

theorem getElem?_patterns {i : Nat} (hi : i < t.patterns.size) :
    u.patterns[i]? = t.patterns[i]? := by
  obtain ⟨k, hk⟩ := h.patterns
  rw [← Array.getElem?_toList, ← Array.getElem?_toList, ← hk, List.getElem?_append_left (by simpa)]

theorem span {id : TermId} (hid : id.index < t.terms.size) : u.span id = t.span id := by
  simp [Tree.span, h.getElem?_terms hid]

theorem term? {id : TermId} (hid : id.index < t.terms.size) : u.term? id = t.term? id := by
  simp [Tree.term?, h.getElem?_terms hid]

theorem size_terms : t.terms.size ≤ u.terms.size := by simpa using h.terms.length_le

theorem size_patterns : t.patterns.size ≤ u.patterns.size := by simpa using h.patterns.length_le

theorem mem_nodes {ref : Ref} (href : ref ∈ t.nodes) : ref ∈ u.nodes := by
  cases ref with
  | term id => exact mem_nodes_term.mpr (Nat.lt_of_lt_of_le (mem_nodes_term.mp href) h.size_terms)
  | pattern id =>
      exact mem_nodes_pattern.mpr (Nat.lt_of_lt_of_le (mem_nodes_pattern.mp href) h.size_patterns)

/-- Going back to where the tree had fewer nodes. -/
theorem rewind : u.rewind t.mark = t := by
  have hterms := List.prefix_iff_eq_take.mp h.terms
  have hpatterns := List.prefix_iff_eq_take.mp h.patterns
  obtain ⟨terms, patterns⟩ := t
  simp only [Tree.rewind, mark, Tree.mk.injEq]
  constructor <;> apply Array.toList_inj.mp <;> simp_all

end Prefix

/-- Operators stand behind their operands. -/
theorem SoundTerm.index_lt {i : Nat} {node : TermNode} {form : InfixForm} {lhs rhs : TermId}
    (h : t.SoundTerm i node) (hform : node.term.infix? = some (form, lhs, rhs)) :
    lhs.index < i ∧ rhs.index < i := by
  have hchildren := Term.children_of_infix? hform
  exact ⟨h.precedes lhs (by simp [hchildren]), h.precedes rhs (by simp [hchildren])⟩

/-- Where nodes are added, the nodes from before are kept. -/
theorem Sound.keeps (hsound : t.Sound) (h : t.Prefix u) {ref : Ref} (href : ref ∈ t.nodes) :
    t.Keeps u ref := by
  cases ref with
  | pattern id =>
      have hid := mem_nodes_pattern.mp href
      exact ⟨h.mem_nodes, by simp [spanAt, h.getElem?_patterns hid], fun _ _ => trivial⟩
  | term id =>
      have hid := mem_nodes_term.mp href
      suffices hbare : u.bareInfix? id = t.bareInfix? id by
        exact ⟨h.mem_nodes, h.span hid, fun level hb => by simpa [Binds, hbare] using hb⟩
      have hnode := Array.getElem?_eq_getElem hid
      unfold bareInfix?
      rw [h.term? hid, h.span hid]
      simp only [Tree.term?, hnode, Option.map_some]
      cases hform : t.terms[id.index].term.infix? with
      | none => rfl
      | some x =>
          obtain ⟨form, lhs, rhs⟩ := x
          have hlt := (hsound.terms _ _ hnode).index_lt hform
          simp only [h.span (Nat.lt_trans hlt.1 hid), h.span (Nat.lt_trans hlt.2 hid)]

theorem Placed.mono (hk : t.Placed lo k hi) (hsound : t.Sound) (h : t.Prefix u) :
    u.Placed lo k hi :=
  hk.congr fun _ _ hmem => hsound.keeps h hmem

/-! ## Adding nodes -/

theorem sound_empty : Tree.empty.Sound := ⟨nofun, nofun⟩

/-- A term over placed children that bind tightly enough. -/
theorem Sound.addTerm (hsound : t.Sound) (node : TermNode)
    (hk : t.Placed node.span.start node.term.demands node.span.stop) :
    (t.addTerm node).2.Sound := by
  have hsub := Prefix.addTerm t node
  constructor
  · intro i other hother
    simp only [Tree.addTerm, Array.getElem?_push] at hother
    split at hother
    · cases hother
      refine ⟨fun id hid => ?_, hk.mono hsound hsub⟩
      rw [← Term.ref_demands] at hid
      obtain ⟨h, hh, href⟩ := List.mem_map.mp hid
      have hmem := (hk.mem hh).mem
      rw [href, mem_nodes_term] at hmem
      omega
    · have hold := hsound.terms i other hother
      exact ⟨hold.precedes, hold.placed.mono hsound hsub⟩
  · exact fun i other hother => (hsound.patterns i other hother).mono hsound hsub

theorem Sound.addPattern (hsound : t.Sound) (node : PatternNode)
    (hk : t.Placed node.span.start (node.pattern.children.map (.loose <| .pattern ·))
      node.span.stop) :
    (t.addPattern node).2.Sound := by
  have hsub := Prefix.addPattern t node
  constructor
  · intro i other hother
    have hold := hsound.terms i other hother
    exact ⟨hold.precedes, hold.placed.mono hsound hsub⟩
  · intro i other hother
    simp only [Tree.addPattern, Array.getElem?_push] at hother
    split at hother
    · cases hother
      exact hk.mono hsound hsub
    · exact (hsound.patterns i other hother).mono hsound hsub

@[simp] theorem spanAt_addTerm (t : Tree) (node : TermNode) :
    (t.addTerm node).2.spanAt (.term (t.addTerm node).1) = node.span := by
  simp [Tree.addTerm, spanAt, Tree.span]

@[simp] theorem spanAt_addPattern (t : Tree) (node : PatternNode) :
    (t.addPattern node).2.spanAt (.pattern (t.addPattern node).1) = node.span := by
  simp [Tree.addPattern, spanAt]

/-- The form of a term that was added. -/
theorem infix?_of_bareInfix? (t : Tree) {node : TermNode} {form : InfixForm}
    (h : (t.addTerm node).2.bareInfix? (t.addTerm node).1 = some form) :
    ∃ lhs rhs, node.term.infix? = some (form, lhs, rhs) := by
  have hterm : (t.addTerm node).2.term? (t.addTerm node).1 = some node.term := by
    simp [Tree.addTerm, Tree.term?]
  simp only [bareInfix?, hterm] at h
  cases hoperands : node.term.infix? with
  | none => simp [hoperands] at h
  | some x =>
      obtain ⟨_, lhs, rhs⟩ := x
      simp only [hoperands] at h
      split at h
      · cases h
        exact ⟨lhs, rhs, rfl⟩
      · cases h

/-- Where a term was added that is no operator, or one that binds tightly enough. -/
theorem fits_addTerm (t : Tree) (node : TermNode) {level : Level} (hlo : lo ≤ node.span.start)
    (hordered : node.span.start ≤ node.span.stop) (hhi : node.span.stop ≤ hi)
    (hlevel : ∀ form lhs rhs, node.term.infix? = some (form, lhs, rhs) →
      level ≤ form.binding.level) :
    (t.addTerm node).2.Fits lo ⟨.term (t.addTerm node).1, level⟩ hi := by
  refine ⟨mem_nodes_term.mpr (by simp [Tree.addTerm]), ?_, ?_, ?_, fun form hform => ?_⟩
  · rwa [spanAt_addTerm]
  · rwa [spanAt_addTerm]
  · rwa [spanAt_addTerm]
  · obtain ⟨lhs, rhs, hoperands⟩ := infix?_of_bareInfix? t hform
    exact hlevel form lhs rhs hoperands

theorem fits_addPattern (t : Tree) (node : PatternNode) {level : Level}
    (hlo : lo ≤ node.span.start) (hordered : node.span.start ≤ node.span.stop)
    (hhi : node.span.stop ≤ hi) :
    (t.addPattern node).2.Fits lo ⟨.pattern (t.addPattern node).1, level⟩ hi := by
  refine ⟨mem_nodes_pattern.mpr (by simp [Tree.addPattern]), ?_, ?_, ?_, trivial⟩
  · rwa [spanAt_addPattern]
  · rwa [spanAt_addPattern]
  · rwa [spanAt_addPattern]

/-! ## Parentheses -/

theorem getElem?_widen (t : Tree) (id : TermId) (span : Span) (i : Nat) :
    (t.widen id span).terms[i]? =
      if i = id.index then t.terms[i]?.map fun node => { node with span := node.span.hull span }
      else t.terms[i]? := by
  simp only [widen, Array.getElem?_modify, eq_comm]

theorem term?_widen (t : Tree) (id other : TermId) (span : Span) :
    (t.widen id span).term? other = t.term? other := by
  simp only [term?, getElem?_widen]
  split <;> simp [Function.comp_def]

theorem span_widen_of_ne (t : Tree) {id other : TermId} (span : Span)
    (h : other.index ≠ id.index) : (t.widen id span).span other = t.span other := by
  simp [Tree.span, getElem?_widen, h]

theorem span_widen (t : Tree) {id : TermId} (span : Span) (h : id.index < t.terms.size) :
    (t.widen id span).span id = (t.span id).hull span := by
  simp [Tree.span, getElem?_widen, h]

/-- The span of a node that was added can be extended. -/
theorem Prefix.widen (h : t.Prefix u) {id : TermId} (hid : t.terms.size ≤ id.index) (span : Span) :
    t.Prefix (u.widen id span) := by
  refine ⟨List.prefix_iff_eq_take.mpr (List.ext_getElem? fun i => ?_), h.patterns⟩
  rw [List.getElem?_take]
  split
  · rename_i hi
    rw [Array.length_toList] at hi
    rw [Array.getElem?_toList, Array.getElem?_toList, getElem?_widen,
      if_neg (Nat.ne_of_lt (Nat.lt_of_lt_of_le hi hid)), h.getElem?_terms hi]
  · simp_all

theorem mem_nodes_widen {id : TermId} {span : Span} {ref : Ref} :
    ref ∈ (t.widen id span).nodes ↔ ref ∈ t.nodes := by
  rw [nodes_congr (t := t.widen id span) (u := t) (by simp) rfl]

section Widen

variable {id : TermId} (hsound : t.Sound) (hlast : id.index + 1 = t.terms.size) (span : Span)

include hsound hlast

/-- The nodes below the last one do not change with it. -/
theorem Sound.keeps_widen {ref : Ref} (href : ref ∈ t.nodes) (hne : ref ≠ .term id) :
    t.Keeps (t.widen id span) ref := by
  cases ref with
  | pattern other => exact ⟨mem_nodes_widen.mpr, rfl, fun _ _ => trivial⟩
  | term other =>
      have hother := mem_nodes_term.mp href
      have hlt : other.index < id.index := by
        have : other.index ≠ id.index := fun heq => hne (by cases other; cases id; simp_all)
        omega
      refine ⟨mem_nodes_widen.mpr, span_widen_of_ne t span (Nat.ne_of_lt hlt), fun level hb => ?_⟩
      suffices hbare : (t.widen id span).bareInfix? other = t.bareInfix? other by
        simpa [Binds, hbare] using hb
      have hnode := Array.getElem?_eq_getElem hother
      unfold bareInfix?
      rw [term?_widen, span_widen_of_ne t span (Nat.ne_of_lt hlt)]
      simp only [term?, hnode, Option.map_some]
      cases hform : t.terms[other.index].term.infix? with
      | none => rfl
      | some x =>
          obtain ⟨form, lhs, rhs⟩ := x
          have hbelow := (hsound.terms _ _ hnode).index_lt hform
          simp only [span_widen_of_ne t span (Nat.ne_of_lt (Nat.lt_trans hbelow.1 hlt)),
            span_widen_of_ne t span (Nat.ne_of_lt (Nat.lt_trans hbelow.2 hlt))]

theorem Sound.placed_widen {i : Nat} {node : TermNode} (hnode : t.terms[i]? = some node) :
    (t.widen id span).Placed node.span.start node.term.demands node.span.stop := by
  have hnode' := hsound.terms i node hnode
  have hi : i < t.terms.size := (Array.getElem?_eq_some_iff.mp hnode).1
  refine hnode'.placed.congr fun h hh hmem => hsound.keeps_widen hlast span hmem fun heq => ?_
  have hchild : .term id ∈ node.term.children := by
    rw [← Term.ref_demands, ← heq]
    exact List.mem_map_of_mem hh
  have hlt := hnode'.precedes id hchild
  omega

/-- The span of the last node can be extended, because the node is no child yet. -/
theorem Sound.widen : (t.widen id span).Sound := by
  constructor
  · intro i node hnode
    rw [getElem?_widen] at hnode
    split at hnode
    · obtain ⟨old, hold, rfl⟩ := Option.map_eq_some_iff.mp hnode
      refine ⟨(hsound.terms i old hold).precedes, ?_⟩
      refine ((hsound.placed_widen hlast span hold).mono_lo ?_).mono_hi ?_
      · simp
      · simp
    · exact ⟨(hsound.terms i node hnode).precedes, hsound.placed_widen hlast span hnode⟩
  · exact fun i node hnode => (hsound.patterns i node hnode).congr fun h hh hmem =>
      hsound.keeps_widen hlast span hmem fun heq => by
        obtain ⟨q, -, rfl⟩ := List.mem_map.mp hh
        cases heq

/-- A term in parentheses is not bare: its span begins before that of its left operand. -/
theorem Sound.binds_widen (hlt : span.start < (t.span id).start) (level : Level) :
    (t.widen id span).Binds level (.term id) := by
  have hid : id.index < t.terms.size := by omega
  have hnode := Array.getElem?_eq_getElem hid
  have hspan : t.span id = t.terms[id.index].span := by simp [Tree.span, hnode]
  apply binds_term_of_none
  unfold bareInfix?
  rw [term?_widen]
  simp only [term?, hnode, Option.map_some]
  cases hform : t.terms[id.index].term.infix? with
  | none => rfl
  | some x =>
      obtain ⟨form, lhs, rhs⟩ := x
      have hbelow := (hsound.terms _ _ hnode).index_lt hform
      have hplaced := (hsound.terms _ _ hnode).placed
      rw [Term.demands_of_infix? hform] at hplaced
      have hleft : t.terms[id.index].span.start ≤ (t.span lhs).start := hplaced.1.lower
      have hright : t.terms[id.index].span.start ≤ (t.span rhs).start :=
        (hplaced.mem (List.mem_cons_of_mem _ (List.mem_cons_self ..))).lower
      refine if_neg fun hbare => ?_
      have hstart := hbare.1
      rw [span_widen t span hid, span_widen_of_ne t span (Nat.ne_of_lt hbelow.1),
        span_widen_of_ne t span (Nat.ne_of_lt hbelow.2)] at hstart
      simp only [Span.hull_start] at hstart
      rw [hspan] at hlt hstart
      omega

end Widen

end Tree

end BendSyntax
