import BendSyntax.Proofs.Layout.Climbing
import BendSyntax.Proofs.Layout.Cursors
import BendSyntax.Proofs.Ownership

/-! What a run does on its way. Wherever it looks at tokens they are those of the text, wherever it
looks up a term there is one, every loop that goes on has moved, and it never ends up in front of
where it started. A contract carries this through readings, together with the nodes that are known
to be there. -/

namespace BendSyntax

open Reading Owner

/-! ## Trees -/

/-- A path has a part. -/
def Term.Named {τ π : Type} : Term τ π → Prop
  | .qualified path => path ≠ []
  | _ => True

theorem Span.le_hull (s : Span) {t : Span} (h : t.start ≤ t.stop) :
    (s.hull t).start ≤ (s.hull t).stop := by
  rw [Span.hull_start, Span.hull_stop]
  omega

namespace Tree

/-- A tree in which every node refers to nodes before it, with the spans and the paths of its terms
in order. -/
structure Closed (t : Tree) : Prop where
  inside : ∀ c ∈ t.nodes, ∀ d ∈ t.childrenOf c, d ∈ t.nodes
  precedes : ∀ c ∈ t.nodes, ∀ d ∈ t.childrenOf c, Precedes d c
  spans : ∀ node ∈ t.terms.toList, node.span.start ≤ node.span.stop
  named : ∀ id term, t.term? id = some term → term.Named

variable {t u : Tree}

theorem Extends.nodes_subset (h : t.Extends u) : t.nodes ⊆ u.nodes := by
  have hterms := h.contents.length_le
  have hpatterns := h.patterns.length_le
  simp only [contents_length, Array.length_toList] at hterms hpatterns
  intro c hc
  cases c with
  | term id => exact mem_nodes_term.mpr (Nat.lt_of_lt_of_le (mem_nodes_term.mp hc) hterms)
  | pattern id =>
    exact mem_nodes_pattern.mpr (Nat.lt_of_lt_of_le (mem_nodes_pattern.mp hc) hpatterns)

namespace Closed

theorem empty : Tree.empty.Closed := ⟨nofun, nofun, nofun, nofun⟩

/-- Only the spans of terms are not part of what a tree contains. -/
theorem congr (h : t.Closed) (hterms : t.contents = u.contents)
    (hpatterns : t.patterns.toList = u.patterns.toList)
    (hspans : ∀ node ∈ u.terms.toList, node.span.start ≤ node.span.stop) : u.Closed := by
  have hnodes := nodes_congr hterms hpatterns
  have hchildren := childrenOf_congr hterms hpatterns
  refine ⟨hnodes ▸ hchildren ▸ h.inside, hnodes ▸ hchildren ▸ h.precedes, hspans, ?_⟩
  intro id term hterm
  rw [term?_eq_contents, ← hterms, ← term?_eq_contents] at hterm
  exact h.named id term hterm

theorem span_le (h : t.Closed) {id : TermId}
    (hid : id.index < t.terms.size) : (t.span id).start ≤ (t.span id).stop := by
  simp only [Tree.span, Array.getElem?_eq_getElem hid]
  exact h.spans _ (by simp)

theorem rewind (ht : t.Closed) (hu : u.Closed) (h : t.Extends u) : (u.rewind t.mark).Closed := by
  refine ht.congr h.contents_rewind.symm h.patterns_rewind.symm fun node hnode => ?_
  have hmem : node ∈ u.terms.toList.take t.mark.terms := by simpa [Tree.rewind] using hnode
  exact hu.spans node (List.mem_of_mem_take hmem)

theorem widen (h : t.Closed) (id : TermId) {span : Span} (hspan : span.start ≤ span.stop) :
    (t.widen id span).Closed := by
  refine h.congr (by simp) rfl fun node hnode => ?_
  obtain ⟨i, hi, rfl⟩ := List.getElem_of_mem hnode
  have hlt : i < t.terms.size := by simpa [Tree.widen] using hi
  simp only [Tree.widen, Array.getElem_toList, Array.getElem_modify]
  split
  · exact Span.le_hull _ hspan
  · exact h.spans _ (by simp)

theorem addTerm (h : t.Closed) (node : TermNode) (hchildren : node.term.children ⊆ t.nodes)
    (hspan : node.span.start ≤ node.span.stop) (hnamed : node.term.Named) :
    (t.addTerm node).2.Closed := by
  have hnew : (t.addTerm node).2.childrenOf (.term (t.addTerm node).1) = node.term.children := by
    simp [childrenOf, term?, Tree.addTerm]
  have hnodes {c : Ref} (hc : c ∈ (t.addTerm node).2.nodes) :
      c = .term (t.addTerm node).1 ∨ c ∈ t.nodes := by
    rw [← Multiset.mem_coe, Forest.nodes_addTerm, Multiset.mem_cons, Multiset.mem_coe] at hc
    exact hc
  constructor
  · intro c hc d hd
    refine (Extends.addTerm t node).nodes_subset ?_
    rcases hnodes hc with rfl | hc
    · exact hchildren (hnew ▸ hd)
    · exact h.inside c hc d (Forest.childrenOf_addTerm t node hc ▸ hd)
  · intro c hc d hd
    rcases hnodes hc with rfl | hc
    · cases d with
      | term id => exact mem_nodes_term.mp (hchildren (hnew ▸ hd))
      | pattern id => trivial
    · exact h.precedes c hc d (Forest.childrenOf_addTerm t node hc ▸ hd)
  · intro n hn
    simp only [Tree.addTerm, Array.toList_push, List.mem_append, List.mem_singleton] at hn
    rcases hn with hn | rfl
    · exact h.spans n hn
    · exact hspan
  · intro id term hterm
    simp only [term?, Tree.addTerm, Array.getElem?_push] at hterm
    split at hterm
    · cases hterm
      exact hnamed
    · exact h.named id term hterm

theorem addPattern (h : t.Closed) (node : PatternNode)
    (hchildren : node.pattern.children.map .pattern ⊆ t.nodes) :
    (t.addPattern node).2.Closed := by
  have hnew : (t.addPattern node).2.childrenOf (.pattern (t.addPattern node).1) =
      node.pattern.children.map .pattern := by
    simp [childrenOf, Tree.addPattern]
  have hnodes {c : Ref} (hc : c ∈ (t.addPattern node).2.nodes) :
      c = .pattern (t.addPattern node).1 ∨ c ∈ t.nodes := by
    rw [← Multiset.mem_coe, Forest.nodes_addPattern, Multiset.mem_cons, Multiset.mem_coe] at hc
    exact hc
  constructor
  · intro c hc d hd
    refine (Extends.addPattern t node).nodes_subset ?_
    rcases hnodes hc with rfl | hc
    · exact hchildren (hnew ▸ hd)
    · exact h.inside c hc d (Forest.childrenOf_addPattern t node hc ▸ hd)
  · intro c hc d hd
    rcases hnodes hc with rfl | hc
    · have hd := hnew ▸ hd
      obtain ⟨id, -, rfl⟩ := List.mem_map.mp hd
      exact mem_nodes_pattern.mp (hchildren hd)
    · exact h.precedes c hc d (Forest.childrenOf_addPattern t node hc ▸ hd)
  · exact h.spans
  · exact h.named

end Closed

end Tree

/-! ## Cursors -/

namespace Cursor

variable {c d e : Cursor}

/-- The other cursor stands behind more tokens, or at the same one and not in front of its first
half again. -/
def NotPast (c d : Cursor) : Prop :=
  c.index < d.index ∨ c.index = d.index ∧ (c.split = true → d.split = true)

namespace NotPast

theorem refl (c : Cursor) : c.NotPast c := .inr ⟨rfl, id⟩

theorem trans (h : c.NotPast d) (k : d.NotPast e) : c.NotPast e := by
  rcases h with h | ⟨h, hsplit⟩
  · rcases k with k | ⟨k, -⟩
    · exact .inl (Nat.lt_trans h k)
    · exact .inl (k ▸ h)
  · rcases k with k | ⟨k, ksplit⟩
    · exact .inl (h ▸ k)
    · exact .inr ⟨h.trans k, ksplit ∘ hsplit⟩

theorem advance (c : Cursor) : c.NotPast c.advance := by
  unfold Cursor.advance
  split
  · exact .inl (Nat.lt_succ_self _)
  · exact .inr ⟨rfl, id⟩

theorem halve (c : Cursor) : c.NotPast c.halve := .inr ⟨rfl, fun _ => rfl⟩

end NotPast

end Cursor

/-- A session in front of some of the tokens, with a closed tree. -/
structure Session.Fits (tokens : Tokens) (s : Session) : Prop where
  reaches : (Cursor.start tokens).Reaches s.cursor
  ahead : s.cursor.Ahead
  last : s.cursor.last.start ≤ s.cursor.last.stop
  tree : s.tree.Closed

/-- A step that goes well: the tokens are there, the term is there, and the next round begins behind
more tokens than the one before. -/
def Step.Fine (tokens : Tokens) : Step → Prop
  | .tokens c => (Cursor.start tokens).Reaches c
  | .term id tree => id.index < tree.terms.size ∧ (tree.span id).start ≤ (tree.span id).stop ∧
      ∀ term, tree.term? id = some term → term.Named
  | .part c d => c.NotPast d
  | .round c d => c.index < d.index ∧ d.remaining < c.remaining

namespace Session.Fits

variable {tokens : Tokens} {s t : Session}

theorem setTree (h : s.Fits tokens) {tree : Tree} (htree : tree.Closed) :
    { s with tree }.Fits tokens := ⟨h.reaches, h.ahead, h.last, htree⟩

theorem advance (h : s.Fits tokens) : { s with cursor := s.cursor.advance }.Fits tokens where
  reaches := h.reaches.trans (.advance _)
  ahead := h.ahead.advance
  last := by
    rw [Cursor.last_advance]
    exact h.ahead.span_le
  tree := h.tree

/-- Back at an earlier session a session fits if it did when it was left. -/
theorem rewind (hs : s.Fits tokens) (ht : t.Fits tokens) (h : s.Onward t) :
    (t.rewind s).Fits tokens :=
  ⟨hs.reaches, hs.ahead, hs.last, hs.tree.rewind ht.tree h.tree⟩

theorem discard (hs : s.Fits tokens) (ht : t.Fits tokens) (h : s.Onward t) :
    (t.discard s).Fits tokens := ht.setTree (hs.tree.rewind ht.tree h.tree)

end Session.Fits

/-! ## The contract -/

namespace Owner

instance : Owner Unit := ⟨fun _ => []⟩
instance : Owner Cursor := ⟨fun _ => []⟩
instance : Owner Slot := ⟨fun _ => []⟩
instance : Owner TokenKind := ⟨fun _ => []⟩
instance : Owner Failure := ⟨fun _ => []⟩
instance : Owner Literal := ⟨fun _ => []⟩
instance : Owner Config := ⟨fun _ => []⟩

instance {α : Type} [Owner α] : Owner (Round α) where
  refs
    | .more a => refs a
    | .done a => refs a

variable {α : Type} [Owner α]

@[simp] theorem refs_more (a : α) : refs (Round.more a) = refs a := rfl

@[simp] theorem refs_done (a : α) : refs (Round.done a) = refs a := rfl

@[simp] theorem refs_nil : refs ([] : List α) = [] := rfl

theorem refs_cons (a : α) (as : List α) : refs (a :: as) = refs a ++ refs as := by simp [refs]

@[simp] theorem refs_toList (as : Array α) : refs as.toList = refs as := rfl

@[simp] theorem refs_push (as : Array α) (a : α) : refs (as.push a) = refs as ++ refs a := by
  simp [refs]

end Owner

/-- What a run comes to that began at `s`. -/
structure Outcome.EndsWell (tokens : Tokens) {α : Type} [Owner α] (s : Session) (o : Outcome α) :
    Prop where
  fits : o.session.Fits tokens
  notPast : s.cursor.NotPast o.session.cursor
  answer : ∀ a t, o = .ok a t → refs a ⊆ t.tree.nodes

/-- A run whose steps and whose end are in order. -/
structure Run (tokens : Tokens) {α : Type} [Owner α] (r : Reading α) (setting : Setting)
    (s : Session) : Prop where
  steps : ∀ x, r.steps setting s x → x.Fine tokens
  ends : (r.run setting s).EndsWell tokens s

namespace Outcome.EndsWell

variable {α : Type} [Owner α] {tokens : Tokens} {s : Session}

theorem of_error {o : Outcome α} {e : SyntaxError} {t : Session} (ho : o = .error e t)
    (hfits : t.Fits tokens) (hnotPast : s.cursor.NotPast t.cursor) : o.EndsWell tokens s := by
  subst ho
  exact ⟨hfits, hnotPast, nofun⟩

theorem of_ok {o : Outcome α} {a : α} {t : Session} (ho : o = .ok a t) (hfits : t.Fits tokens)
    (hnotPast : s.cursor.NotPast t.cursor) (hanswer : refs a ⊆ t.tree.nodes) :
    o.EndsWell tokens s := by
  subst ho
  refine ⟨hfits, hnotPast, ?_⟩
  rintro b u ⟨⟩
  exact hanswer

theorem retracted {o : Outcome (Option α)} (h : o.EndsWell tokens s) (hs : s.Fits tokens)
    (hst : s.Onward o.session) : (o.retracted s).EndsWell tokens s := by
  have hback : (o.session.rewind s).Fits tokens := hs.rewind h.fits hst
  match o with
  | .ok (some a) t => exact h
  | .ok none t => exact of_ok rfl hback (.refl _) (List.nil_subset _)
  | .error e t =>
      simp only [Outcome.retracted]
      split
      · exact of_error rfl h.fits h.notPast
      · exact of_ok rfl hback (.refl _) (List.nil_subset _)

theorem tested {o : Outcome α} (h : o.EndsWell tokens s) (hs : s.Fits tokens)
    (hst : s.Onward o.session) : (o.tested s).EndsWell tokens s := by
  have hback : (o.session.rewind s).Fits tokens := hs.rewind h.fits hst
  match o with
  | .ok a t => exact of_ok rfl hback (.refl _) (List.nil_subset _)
  | .error e t =>
      simp only [Outcome.tested]
      split
      · exact of_error rfl h.fits h.notPast
      · exact of_ok rfl hback (.refl _) (List.nil_subset _)

theorem reported {o : Outcome α} (h : o.EndsWell tokens s) : o.reported.EndsWell tokens s := by
  match o with
  | .ok a t => exact of_ok rfl h.fits h.notPast ((refs_some a).symm ▸ h.answer a t rfl)
  | .error e t =>
      exact of_ok rfl ⟨h.fits.reaches, h.fits.ahead, h.fits.last, h.fits.tree⟩ h.notPast
        (List.nil_subset _)

end Outcome.EndsWell

namespace Run

variable {α β : Type} [Owner α] [Owner β] {tokens : Tokens} {setting : Setting} {s : Session}
  {r : Reading α}

/-- Where a run leads is no worse than what it does on its way. -/
theorem course (h : Run tokens r setting s) (x : Step) (hx : r.course setting s x) :
    x.Fine tokens := by
  rcases hx with rfl | hx
  · exact h.ends.notPast
  · exact h.steps x hx

/-- A run in two parts goes well if both of them do. -/
theorem bind {f : α → Reading β} (h : Run tokens r setting s)
    (hf : ∀ a t, r.run setting s = .ok a t → t.Fits tokens → Run tokens (f a) setting t) :
    Run tokens (r >>= f) setting s := by
  have hcourse := h.course
  obtain ⟨-, hfits, hnotPast, -⟩ := h
  have hbind := run_bind r f setting s
  cases hrun : r.run setting s with
  | ok a t =>
      rw [hrun] at hbind hfits hnotPast
      have hmore := hf a t hrun hfits
      refine ⟨?_, ?_⟩
      · rintro x (hx | ⟨b, u, hu, hx⟩)
        · exact hcourse x hx
        · cases hrun.symm.trans hu
          exact hmore.course x hx
      · rw [hbind]
        exact ⟨hmore.ends.fits, hnotPast.trans hmore.ends.notPast, hmore.ends.answer⟩
  | error e t =>
      rw [hrun] at hbind hfits hnotPast
      refine ⟨?_, .of_error hbind hfits hnotPast⟩
      rintro x (hx | ⟨b, u, hu, hx⟩)
      · exact hcourse x hx
      · cases hrun.symm.trans hu

end Run

/-- Runs go well if the known nodes are there. -/
def Keeps (tokens : Tokens) (known : List Ref) {α : Type} [Owner α] (r : Reading α) : Prop :=
  ∀ setting s, s.Fits tokens → known ⊆ s.tree.nodes → Run tokens r setting s

/-- Where runs begin that go well, the answers are such that `p` holds. -/
def Answers (tokens : Tokens) (known : List Ref) {α : Type} (r : Reading α) (p : α → Prop) : Prop :=
  ∀ setting s a t, s.Fits tokens → known ⊆ s.tree.nodes → r.run setting s = .ok a t → p a

namespace Keeps

variable {α β : Type} [Owner α] [Owner β] {tokens : Tokens} {known more : List Ref}
  {r : Reading α} {f : α → Reading β}

theorem mono (h : Keeps tokens known r) (hsub : known ⊆ more) : Keeps tokens more r :=
  fun setting s hs hmore => h setting s hs (List.Subset.trans hsub hmore)

/-! ## Composition -/

/-- Goes on with what is known of the answers. -/
theorem given {p : α → Prop} (h : Keeps tokens known r) (hp : Answers tokens known r p)
    (hf : ∀ a, p a → Keeps tokens (refs a ++ known) (f a)) : Keeps tokens known (r >>= f) := by
  intro setting s hs hknown
  have hr := h setting s hs hknown
  refine hr.bind fun a t ht hfits =>
    hf a (hp setting s a t hs hknown ht) setting t hfits (List.append_subset.mpr ⟨?_, ?_⟩)
  · exact hr.ends.answer a t ht
  · exact List.Subset.trans hknown (onward_of_ok ht).tree.nodes_subset

theorem seq (h : Keeps tokens known r) (hf : ∀ a, Keeps tokens (refs a ++ known) (f a)) :
    Keeps tokens known (r >>= f) :=
  h.given (p := fun _ => True) (fun _ _ _ _ _ _ _ => trivial) fun a _ => hf a

/-- Goes on with more nodes known. -/
theorem bind (h : Keeps tokens [] r) (hf : ∀ a, Keeps tokens (refs a ++ known) (f a)) :
    Keeps tokens known (r >>= f) := (h.mono (List.nil_subset _)).seq hf

/-- Goes on with the same nodes. -/
theorem skip (h : Keeps tokens [] r) (hf : ∀ a, Keeps tokens known (f a)) :
    Keeps tokens known (r >>= f) := h.bind fun a => (hf a).mono (List.subset_append_right _ _)

theorem asks {g : Setting → Session → α} (hg : ∀ setting s, refs (g setting s) = []) :
    Keeps tokens known (asks g) := by
  intro setting s hs _
  refine ⟨?_, hs, .refl _, ?_⟩
  · rintro x rfl
    exact hs.reaches
  · rintro a t ⟨⟩
    rw [hg]
    exact List.nil_subset _

theorem pure {a : α} (h : refs a ⊆ known) : Keeps tokens known (Pure.pure a : Reading α) := by
  intro setting s hs hknown
  refine ⟨?_, hs, .refl _, ?_⟩
  · rintro x rfl
    exact hs.reaches
  · rintro b t ⟨⟩
    exact List.Subset.trans h hknown

theorem map {g : α → β} (h : Keeps tokens known r) (hg : ∀ a, refs (g a) ⊆ refs a ++ known) :
    Keeps tokens known (g <$> r) := h.seq fun a => .pure (hg a)

theorem fail (e : SyntaxError) : Keeps tokens known (Reading.fail e : Reading α) := by
  intro setting s hs _
  refine ⟨fun _ hx => hx.elim, hs, .refl _, ?_⟩
  rintro a t ⟨⟩

theorem ite {c : Prop} [Decidable c] {r' : Reading α} (hyes : c → Keeps tokens known r)
    (hno : ¬c → Keeps tokens known r') : Keeps tokens known (if c then r else r') := by
  split
  · exact hyes ‹_›
  · exact hno ‹_›

theorem within {g : Slot → Slot} (h : Keeps tokens known r) :
    Keeps tokens known (Reading.within g r) := by
  intro setting s hs hknown
  obtain ⟨hsteps, hfits, hnotPast, hanswer⟩ :=
    h { setting with slot := g setting.slot } s hs hknown
  exact ⟨hsteps, hfits, hnotPast, hanswer⟩

theorem withUsage {usage : Usage} (h : Keeps tokens known r) :
    Keeps tokens known (Reading.withUsage usage r) := h.within

theorem delimited (h : Keeps tokens known r) : Keeps tokens known (Reading.delimited r) :=
  h.within

/-! ## Tokens -/

theorem cursor : Keeps tokens known cursor := .asks fun _ _ => rfl

theorem slot : Keeps tokens known slot := .asks fun _ _ => rfl

theorem config : Keeps tokens known config := .asks fun _ _ => rfl

theorem kind : Keeps tokens known kind := cursor.skip fun _ => .pure (List.nil_subset _)

theorem here : Keeps tokens known here := cursor.skip fun _ => .pure (List.nil_subset _)

theorem sees (kind : TokenKind) : Keeps tokens known (sees kind) :=
  Keeps.kind.skip fun _ => .pure (List.nil_subset _)

theorem advance : Keeps tokens known advance := by
  intro setting s hs _
  refine ⟨?_, hs.advance, .advance _, ?_⟩
  · rintro x rfl
    exact hs.reaches
  · rintro a t ⟨⟩
    exact List.nil_subset _

theorem accept (kind : TokenKind) : Keeps tokens known (accept kind) :=
  (sees kind).skip fun _ => .ite (fun _ => advance.skip fun _ => .pure (List.nil_subset _))
    fun _ => .pure (List.nil_subset _)

theorem unexpected (what : String) : Keeps tokens known (unexpected what : Reading α) :=
  cursor.skip fun _ => .fail _

theorem require (condition : Bool) (what : String) :
    Keeps tokens known (require condition what) :=
  .ite (fun _ => .pure (List.nil_subset _)) fun _ => unexpected _

theorem expect (kind : TokenKind) : Keeps tokens known (expect kind) :=
  (sees kind).skip fun _ => .ite (fun _ => advance) fun _ => unexpected _

theorem identifier : Keeps tokens known identifier :=
  cursor.skip fun _ => .ite (fun _ => advance.skip fun _ => .pure (List.nil_subset _))
    fun _ => unexpected _

theorem skipTokens (n : Nat) : Keeps tokens known (Grammar.skipTokens n) := by
  induction n with
  | zero => exact .pure (List.nil_subset _)
  | succ n ih => exact advance.skip fun _ => ih

/-- Only a `>>` is read in halves. -/
theorem closeAngle : Keeps tokens known closeAngle := by
  intro setting s hs hknown
  refine (kind setting s hs hknown).bind ?_
  rintro k t ⟨⟩ -
  split
  · exact (advance.skip fun _ => .pure (List.nil_subset known)) setting s hs hknown
  · rename_i hkind
    have hsplit : s.cursor.split = false := by
      cases hsplit : s.cursor.split with
      | false => rfl
      | true => simp [Cursor.kind, hsplit, hs.ahead.split hsplit] at hkind
    refine ⟨?_, ⟨hs.reaches.trans (.halve _), ⟨hs.ahead.inOrder, fun _ => ?_⟩, ?_, hs.tree⟩,
      .halve _, ?_⟩
    · rintro x rfl
      exact hs.reaches
    · exact (Cursor.kind_of_not_split hsplit).symm.trans hkind
    · exact Nat.le_succ _
    · rintro a u ⟨⟩
      exact List.nil_subset _
  · exact unexpected _ setting s hs hknown

/-! ## Nodes -/

theorem since (start : Span) : Keeps tokens known (since start) :=
  cursor.skip fun _ => .pure (List.nil_subset _)

theorem asksTerm {id : TermId} {g : Tree → α} (hid : .term id ∈ known)
    (hg : ∀ t, refs (g t) = []) : Keeps tokens known (asksTerm id g) := by
  intro setting s hs hknown
  have hlt := Tree.mem_nodes_term.mp (hknown hid)
  refine ⟨?_, hs, .refl _, ?_⟩
  · rintro x rfl
    exact ⟨hlt, hs.tree.span_le hlt, hs.tree.named id⟩
  · rintro a t ⟨⟩
    rw [hg]
    exact List.nil_subset _

theorem spanOf {id : TermId} (hid : .term id ∈ known) : Keeps tokens known (spanOf id) :=
  asksTerm hid fun _ => rfl

theorem bareName {id : TermId} (hid : .term id ∈ known) : Keeps tokens known (bareName id) :=
  asksTerm hid fun _ => rfl

theorem widen {id : TermId} {span : Span} (hid : .term id ∈ known)
    (hspan : span.start ≤ span.stop) : Keeps tokens known (widen id span) := by
  intro setting s hs hknown
  have hlt := Tree.mem_nodes_term.mp (hknown hid)
  refine ⟨?_, hs.setTree (hs.tree.widen id hspan), .refl _, ?_⟩
  · rintro x rfl
    exact ⟨hlt, hs.tree.span_le hlt, hs.tree.named id⟩
  · rintro a t ⟨⟩
    exact List.nil_subset _

theorem addTerm {term : Term TermId PatternId} {span : Span} (hspan : span.start ≤ span.stop)
    (hchildren : term.children ⊆ known) (hnamed : term.Named) :
    Keeps tokens known (addTerm term span) := by
  intro setting s hs hknown
  have hclosed := hs.tree.addTerm ⟨term, span, setting.slot.usage⟩
    (List.Subset.trans hchildren hknown) hspan hnamed
  refine ⟨fun _ hx => hx.elim, hs.setTree hclosed, .refl _, ?_⟩
  rintro a t ⟨⟩
  simp

theorem addPattern {pattern : Pattern PatternId} {span : Span}
    (hchildren : refs pattern.children ⊆ known) :
    Keeps tokens known (addPattern pattern span) := by
  intro setting s hs hknown
  rw [refs_patterns] at hchildren
  have hclosed := hs.tree.addPattern ⟨pattern, span⟩ (List.Subset.trans hchildren hknown)
  refine ⟨fun _ hx => hx.elim, hs.setTree hclosed, .refl _, ?_⟩
  rintro a t ⟨⟩
  simp

/-- The last token that was read ends a span in order, wherever it begins. -/
theorem close {term : Term TermId PatternId} {start : Span} (hchildren : term.children ⊆ known)
    (hnamed : term.Named) : Keeps tokens known (close start term) := by
  intro setting s hs hknown
  have hsince : Keeps tokens known (Reading.since start) := since start
  refine (hsince setting s hs hknown).bind ?_
  rintro span t ⟨⟩ -
  exact addTerm (Span.le_hull start hs.last) hchildren hnamed setting s hs hknown

theorem closePattern {pattern : Pattern PatternId} {start : Span}
    (hchildren : refs pattern.children ⊆ known) :
    Keeps tokens known (closePattern start pattern) :=
  (since start).skip fun _ => addPattern hchildren

end Keeps

/-! ## Spans -/

namespace Answers

variable {tokens : Tokens} {known : List Ref}

section Composition

variable {α β : Type} [Owner α] {r : Reading α} {f : α → Reading β} {p : α → Prop} {q : β → Prop}

omit [Owner α] in
theorem mono {more : List Ref} (h : Answers tokens known r p) (hsub : known ⊆ more) :
    Answers tokens more r p :=
  fun setting s a t hs hmore ht => h setting s a t hs (List.Subset.trans hsub hmore) ht

theorem given (h : Keeps tokens [] r) (hp : Answers tokens [] r p)
    (hf : ∀ a, p a → Answers tokens [] (f a) q) : Answers tokens [] (r >>= f) q := by
  intro setting s b u hs _ hu
  obtain ⟨a, t, ht, hu⟩ := ok_of_bind hu
  have hfits := (h setting s hs (List.nil_subset _)).ends.fits
  rw [ht] at hfits
  exact hf a (hp setting s a t hs (List.nil_subset _) ht) setting t b u hfits (List.nil_subset _) hu

theorem behind (h : Keeps tokens [] r) (hf : ∀ a, Answers tokens [] (f a) q) :
    Answers tokens [] (r >>= f) q :=
  .given h (p := fun _ => True) (fun _ _ _ _ _ _ _ => trivial) fun a _ => hf a

theorem pure {b : β} (h : q b) : Answers tokens known (Pure.pure b) q := by
  rintro setting s b t - - ⟨⟩
  exact h

end Composition

theorem cursor : Answers tokens known cursor fun c => c.span.start ≤ c.span.stop := by
  rintro setting s c t hs - ⟨⟩
  exact hs.ahead.span_le

theorem expect (k : TokenKind) :
    Answers tokens known (expect k) fun span => span.start ≤ span.stop := by
  intro setting s span t hs _ ht
  obtain ⟨seen, u, ⟨⟩, ht⟩ := ok_of_bind ht
  split at ht
  · cases ht
    exact hs.ahead.span_le
  · cases ht

theorem identifier :
    Answers tokens known identifier fun name => name.2.start ≤ name.2.stop := by
  intro setting s name t hs _ ht
  obtain ⟨c, u, ⟨⟩, ht⟩ := ok_of_bind ht
  split at ht
  · cases ht
    exact hs.ahead.span_le
  · cases ht

theorem since (start : Span) :
    Answers tokens known (since start) fun span => span.start ≤ span.stop := by
  rintro setting s span t hs - ⟨⟩
  exact Span.le_hull start hs.last

theorem spanOf {id : TermId} (hid : .term id ∈ known) :
    Answers tokens known (spanOf id) fun span => span.start ≤ span.stop := by
  rintro setting s span t hs hknown ⟨⟩
  exact hs.tree.span_le (Tree.mem_nodes_term.mp (hknown hid))

/-- An attempt that is passed over or comes to nothing has no answer. -/
theorem attempt {α : Type} {what : Attempt} {r : Reading (Option α)} {p : Option α → Prop}
    (h : Answers tokens known r p) (hnone : p none) : Answers tokens known (attempt what r) p := by
  intro setting s x t hs hknown ht
  cases x with
  | none => exact hnone
  | some a => exact h setting s _ t hs hknown (ok_of_attempt ht)

end Answers

/-! ## Loops -/

namespace Reading

variable {α β : Type} {r : Reading α} {f : α → Reading β}

/-- From a cursor, a reading succeeds only if it takes a token. -/
def AdvancesFrom (c : Cursor) (r : Reading α) : Prop :=
  ∀ setting s a t, s.cursor = c → c.eof.kind = .eof → r.run setting s = .ok a t →
    c.index < t.cursor.index

/-- A reading that succeeds only if it takes a token. -/
def Advances (r : Reading α) : Prop := ∀ c, r.AdvancesFrom c

/-- From a cursor, a loop goes on after a round only if the round takes a token. -/
def GoesFrom (c : Cursor) (r : Reading (Round α)) : Prop :=
  ∀ setting s a t, s.cursor = c → c.eof.kind = .eof → r.run setting s = .ok (.more a) t →
    c.index < t.cursor.index

/-- A round after which a loop goes on only if the round takes a token. -/
def Goes (r : Reading (Round α)) : Prop := ∀ c, r.GoesFrom c

theorem eof_of_ok {setting : Setting} {s t : Session} {a : α} (h : r.run setting s = .ok a t) :
    t.cursor.eof = s.cursor.eof := by
  obtain ⟨-, -, -, -, heof⟩ := (onward_of_ok h).cursor
  exact heof

theorem stays_slot : Reading.slot.Stays := stays_asks _

theorem stays_bareName (id : TermId) : (bareName id).Stays := by
  rintro setting s a t ⟨⟩
  rfl

/-- In front of a token that is not the end the cursor moves. -/
theorem index_lt_advance {c : Cursor} (heof : c.eof.kind = .eof) (hkind : c.kind ≠ .eof) :
    c.index < c.advance.index := by
  rw [Cursor.index_advance (mt (Cursor.kind_of_rest_nil heof) hkind)]
  exact Nat.lt_succ_self _

namespace AdvancesFrom

variable {c : Cursor}

theorem bind (h : r.AdvancesFrom c) (f : α → Reading β) : (r >>= f).AdvancesFrom c := by
  intro setting s b u hc heof hu
  obtain ⟨a, t, ht, hu⟩ := ok_of_bind hu
  exact Nat.lt_of_lt_of_le (h setting s a t hc heof ht) (onward_of_ok hu).cursor.index_le

/-- What stands behind a reading that does not move. -/
theorem stay (hr : r.Stays) (h : ∀ a, (f a).AdvancesFrom c) : (r >>= f).AdvancesFrom c := by
  intro setting s b u hc heof hu
  obtain ⟨a, t, ht, hu⟩ := ok_of_bind hu
  exact h a setting t b u ((hr setting s a t ht).trans hc) heof hu

theorem look {f : Cursor → Reading β} (h : (f c).AdvancesFrom c) :
    (cursor >>= f).AdvancesFrom c := by
  rintro setting s b u rfl heof hu
  exact h setting s b u rfl heof hu

theorem lookKind {f : TokenKind → Reading β} (h : (f c.kind).AdvancesFrom c) :
    (kind >>= f).AdvancesFrom c := by
  rintro setting s b u rfl heof hu
  exact h setting s b u rfl heof hu

theorem lookSees {k : TokenKind} {f : Bool → Reading β}
    (h : (f (decide (c.kind = k))).AdvancesFrom c) : (sees k >>= f).AdvancesFrom c := by
  rintro setting s b u rfl heof hu
  exact h setting s b u rfl heof hu

theorem advance (hkind : c.kind ≠ .eof) : Reading.advance.AdvancesFrom c := by
  rintro setting s b u rfl heof ⟨⟩
  exact index_lt_advance heof hkind

theorem ite {p : Prop} [Decidable p] {r' : Reading α} (h : p → r.AdvancesFrom c)
    (h' : ¬p → r'.AdvancesFrom c) : (if p then r else r').AdvancesFrom c := by
  split
  · exact h ‹_›
  · exact h' ‹_›

theorem fail (e : SyntaxError) : (Reading.fail e : Reading α).AdvancesFrom c := by
  rintro setting s a t - - ⟨⟩

theorem unexpected (what : String) : (Reading.unexpected what : Reading α).AdvancesFrom c :=
  .look (.fail _)

/-- A loop takes a token if its first round does. -/
theorem loop {step : α → Reading (Round α)} {a : α} (h : (step a).AdvancesFrom c) :
    (Reading.loop step a).AdvancesFrom c := by
  intro setting s b t hc heof ht
  have honward := step_onward_runLoop step setting a s
  change runLoop step setting a s = .ok b t at ht
  cases hr : (step a).run setting s with
  | ok round u =>
      rw [hr, ht] at honward
      exact Nat.lt_of_lt_of_le (h setting s round u hc heof hr) honward.cursor.index_le
  | error e u =>
      rw [runLoop, hr] at ht
      cases ht

theorem of_takes (h : r.Takes) (hkind : c.kind ≠ .eof) : r.AdvancesFrom c := by
  rintro setting s a t rfl heof ht
  exact h setting s a t (mt (Cursor.kind_of_rest_nil heof) hkind) ht

theorem within (h : r.AdvancesFrom c) (change : Slot → Slot) :
    (Reading.within change r).AdvancesFrom c :=
  fun setting s a t hc heof ht =>
    h { setting with slot := change setting.slot } s a t hc heof ht

end AdvancesFrom

namespace Advances

theorem bind (h : r.Advances) (f : α → Reading β) : (r >>= f).Advances := fun c => (h c).bind f

theorem within (h : r.Advances) (change : Slot → Slot) : (Reading.within change r).Advances :=
  fun c => (h c).within change

theorem expect {k : TokenKind} (hk : k ≠ .eof) : (Reading.expect k).Advances :=
  fun _ => .lookSees (.ite (fun h => .advance (of_decide_eq_true h ▸ hk)) fun _ => .unexpected _)

theorem identifier : Reading.identifier.Advances :=
  fun c => .look (.ite (fun hkind => (AdvancesFrom.advance (by simp [hkind])).bind _) fun _ =>
    .unexpected _)

end Advances

namespace GoesFrom

variable {c : Cursor} {step : Reading (Round α)} {next : β → Reading (Round α)} {r : Reading β}

theorem of_advances (h : step.AdvancesFrom c) : step.GoesFrom c :=
  fun setting s a t hc heof ht => h setting s (.more a) t hc heof ht

theorem stay (hr : r.Stays) (h : ∀ a, (next a).GoesFrom c) : (r >>= next).GoesFrom c := by
  intro setting s b u hc heof hu
  obtain ⟨a, t, ht, hu⟩ := ok_of_bind hu
  exact h a setting t b u ((hr setting s a t ht).trans hc) heof hu

theorem look {next : Cursor → Reading (Round α)} (h : (next c).GoesFrom c) :
    (cursor >>= next).GoesFrom c := by
  rintro setting s b u rfl heof hu
  exact h setting s b u rfl heof hu

theorem lookKind {next : TokenKind → Reading (Round α)} (h : (next c.kind).GoesFrom c) :
    (kind >>= next).GoesFrom c := by
  rintro setting s b u rfl heof hu
  exact h setting s b u rfl heof hu

theorem accept {k : TokenKind} {next : Bool → Reading (Round α)} (hk : k ≠ .eof)
    (h : (next false).GoesFrom c) : (accept k >>= next).GoesFrom c := by
  rintro setting s b u rfl heof hu
  obtain ⟨found, t, ht, hu⟩ := ok_of_bind hu
  obtain ⟨seen, t', ⟨⟩, ht⟩ := ok_of_bind ht
  split at ht
  · rename_i hseen
    obtain ⟨span, v, ⟨⟩, ⟨⟩⟩ := ok_of_bind ht
    have hkind : s.cursor.kind = k := of_decide_eq_true hseen
    have hkind : s.cursor.kind ≠ .eof := hkind ▸ hk
    exact Nat.lt_of_lt_of_le (index_lt_advance heof hkind) (onward_of_ok hu).cursor.index_le
  · cases ht
    exact h setting s b u rfl heof hu

theorem done (a : α) : (pure (.done a) : Reading (Round α)).GoesFrom c := by
  rintro setting s b t - - ⟨⟩

theorem ite {p : Prop} [Decidable p] {step' : Reading (Round α)} (h : p → step.GoesFrom c)
    (h' : ¬p → step'.GoesFrom c) : (if p then step else step').GoesFrom c := by
  split
  · exact h ‹_›
  · exact h' ‹_›

end GoesFrom

theorem Goes.behind {next : β → Reading (Round α)} {r : Reading β} (h : ∀ a, (next a).Goes) :
    (r >>= next).Goes := by
  rintro c setting s b u rfl heof hu
  obtain ⟨a, t, ht, hu⟩ := ok_of_bind hu
  exact Nat.lt_of_le_of_lt (onward_of_ok ht).cursor.index_le
    (h a t.cursor setting t b u rfl (eof_of_ok ht ▸ heof) hu)

/-- From a cursor, a reading has an answer only if it takes a token, and otherwise stays. -/
def TriesFrom (c : Cursor) (r : Reading (Option α)) : Prop :=
  ∀ setting s x t, s.cursor = c → c.eof.kind = .eof → r.run setting s = .ok x t →
    (x.isSome = true → c.index < t.cursor.index) ∧ (x = none → t.cursor = c)

namespace TriesFrom

variable {c : Cursor} {r : Reading (Option α)}

theorem declined : (pure none : Reading (Option α)).TriesFrom c := by
  rintro setting s x t hc - ⟨⟩
  exact ⟨nofun, fun _ => hc⟩

theorem attempt (what : Attempt) (h : r.AdvancesFrom c) :
    (Reading.attempt what r).TriesFrom c := by
  rintro setting s x t rfl heof ht
  cases x with
  | none => exact ⟨nofun, fun _ => (stays_of_attempt ht).1⟩
  | some a => exact ⟨fun _ => h setting s _ t rfl heof (ok_of_attempt ht), nofun⟩

/-- What is made of an answer is an answer. -/
theorem bind {f : Option α → Reading (Option β)} (h : r.TriesFrom c)
    (hsome : ∀ a setting s t, (f (some a)).run setting s ≠ .ok none t)
    (hnone : (f none).TriesFrom c) : (r >>= f).TriesFrom c := by
  intro setting s y u hc heof hu
  obtain ⟨x, t, ht, hu⟩ := ok_of_bind hu
  obtain ⟨htakes, hstays⟩ := h setting s x t hc heof ht
  cases x with
  | none => exact hnone setting t y u (hstays rfl) heof hu
  | some a =>
      refine ⟨fun _ => ?_, ?_⟩
      · exact Nat.lt_of_lt_of_le (htakes rfl) (onward_of_ok hu).cursor.index_le
      · rintro rfl
        exact (hsome a setting t u hu).elim

theorem advances {f : Option α → Reading β} (h : r.TriesFrom c)
    (hnone : (f none).AdvancesFrom c) : (r >>= f).AdvancesFrom c := by
  intro setting s b u hc heof hu
  obtain ⟨x, t, ht, hu⟩ := ok_of_bind hu
  obtain ⟨htakes, hstays⟩ := h setting s x t hc heof ht
  cases x with
  | none => exact hnone setting t b u (hstays rfl) heof hu
  | some a => exact Nat.lt_of_lt_of_le (htakes rfl) (onward_of_ok hu).cursor.index_le

theorem goes {f : Option α → Reading (Round β)} (h : r.TriesFrom c)
    (hnone : (f none).GoesFrom c) : (r >>= f).GoesFrom c := by
  intro setting s b u hc heof hu
  obtain ⟨x, t, ht, hu⟩ := ok_of_bind hu
  obtain ⟨htakes, hstays⟩ := h setting s x t hc heof ht
  cases x with
  | none => exact hnone setting t b u (hstays rfl) heof hu
  | some a => exact Nat.lt_of_lt_of_le (htakes rfl) (onward_of_ok hu).cursor.index_le

end TriesFrom

end Reading

namespace Keeps

variable {α β : Type} [Owner α] [Owner β] {tokens : Tokens} {known : List Ref}
  {step : α → Reading (Round α)}

/-- After a round the loop can go on. -/
theorem round (h : ∀ a, Keeps tokens (refs a ++ known) (step a)) {setting : Setting} {a b : α}
    {s t : Session} (hs : s.Fits tokens) (hknown : refs a ++ known ⊆ s.tree.nodes)
    (ht : (step a).run setting s = .ok (.more b) t) :
    t.Fits tokens ∧ refs b ++ known ⊆ t.tree.nodes := by
  obtain ⟨-, hfits, -, hanswer⟩ := h a setting s hs hknown
  rw [ht] at hfits
  refine ⟨hfits, List.append_subset.mpr ⟨hanswer _ t ht, ?_⟩⟩
  exact List.Subset.trans (List.append_subset.mp hknown).2 (onward_of_ok ht).tree.nodes_subset

theorem endsWell_runLoop (h : ∀ a, Keeps tokens (refs a ++ known) (step a)) (setting : Setting)
    (a : α) (s : Session) (hs : s.Fits tokens) (hknown : refs a ++ known ⊆ s.tree.nodes) :
    (runLoop step setting a s).EndsWell tokens s := by
  have hround (a : α) (s : Session) (hs : s.Fits tokens)
      (hknown : refs a ++ known ⊆ s.tree.nodes) := (h a setting s hs hknown).ends
  fun_induction runLoop with
  | case1 a s b now hstep =>
      obtain ⟨hfits, hnotPast, hanswer⟩ := hstep ▸ hround a s hs hknown
      exact .of_ok rfl hfits hnotPast (hanswer _ _ rfl)
  | case2 a s b now hstep hlt ih =>
      obtain ⟨hfits, hknown'⟩ := round h hs hknown hstep
      have hnotPast := (hstep ▸ hround a s hs hknown).notPast
      obtain ⟨hend, hnext, hanswer⟩ := ih hfits hknown'
      exact ⟨hend, hnotPast.trans hnext, hanswer⟩
  | case3 a s b now hstep hge =>
      obtain ⟨hfits, hnotPast, hanswer⟩ := hstep ▸ hround a s hs hknown
      exact .of_ok rfl hfits hnotPast (hanswer _ _ rfl)
  | case4 a s e now hstep =>
      obtain ⟨hfits, hnotPast, -⟩ := hstep ▸ hround a s hs hknown
      exact .of_error rfl hfits hnotPast

theorem loop (h : ∀ a, Keeps tokens (refs a ++ known) (step a)) (hgoes : ∀ a, (step a).Goes)
    (a : α) : Keeps tokens (refs a ++ known) (loop step a) := by
  intro setting s hs hknown
  refine ⟨fun x hx => ?_, endsWell_runLoop h setting a s hs hknown⟩
  induction hx with
  | inside hx => exact (h _ setting _ hs hknown).course _ hx
  | round ht =>
      have hlt := hgoes _ _ setting _ _ _ rfl hs.ahead.eof_kind ht
      exact ⟨hlt, (onward_of_ok ht).cursor.remaining_lt hlt⟩
  | later ht _ ih =>
      obtain ⟨hs', hknown'⟩ := round h hs hknown ht
      exact ih hs' hknown'

theorem loopFrom (h : ∀ a, Keeps tokens (refs a) (step a)) (hgoes : ∀ a, (step a).Goes) {a : α}
    (ha : refs a ⊆ known) : Keeps tokens known (Reading.loop step a) := by
  refine mono ?_ ha
  have hloop := loop (fun a => (h a).mono (List.subset_append_left _ [])) hgoes a
  rwa [List.append_nil] at hloop

/-- What holds of what every round is given holds in the end. -/
theorem answers_loop {p : α → Prop} (hkeeps : ∀ a, Keeps tokens (refs a) (step a))
    (h : ∀ a, p a → Answers tokens (refs a) (step a)
      fun r => ∀ b, r = .more b ∨ r = .done b → p b) {a : α} (ha : p a)
    (hrefs : refs a ⊆ known) : Answers tokens known (Reading.loop step a) p := by
  intro setting s b t hs hknown ht
  replace hknown := List.Subset.trans hrefs hknown
  clear hrefs
  have hstays (a : α) : Keeps tokens (refs a ++ []) (step a) :=
    (hkeeps a).mono (List.subset_append_left _ _)
  change runLoop step setting a s = .ok b t at ht
  fun_induction runLoop with
  | case1 a s c now hstep =>
      cases ht
      exact h a ha setting s _ _ hs hknown hstep _ (.inr rfl)
  | case2 a s c now hstep hlt ih =>
      obtain ⟨hs', hknown'⟩ := round hstays hs (by simpa using hknown) hstep
      rw [List.append_nil] at hknown'
      exact ih (h a ha setting s _ _ hs hknown hstep _ (.inl rfl)) hs' hknown' ht
  | case3 a s c now hstep hge =>
      cases ht
      exact h a ha setting s _ _ hs hknown hstep _ (.inl rfl)
  | case4 a s e now hstep => cases ht

section Lists

variable {r : Reading α} {more : Reading Bool}

theorem collectWhile (hmore : Keeps tokens [] more) (h : Keeps tokens [] r) (hr : r.Advances) :
    Keeps tokens [] (collectWhile more r) := by
  refine (loopFrom (fun as => ?_) (fun as => ?_) (List.nil_subset _)).seq fun as => .pure (by simp)
  · refine (hmore.mono (List.nil_subset _)).skip fun b =>
      .ite (fun _ => h.bind fun a => .pure ?_) fun _ => .pure (by simp)
    simp
  · exact .behind fun b c => .ite (fun _ => .of_advances ((hr c).bind _)) fun _ => .done _

theorem collectThrough (h : Keeps tokens [] r) (hr : r.Advances) (hmore : Keeps tokens [] more) :
    Keeps tokens [] (collectThrough r more) := by
  refine (loopFrom (fun as => ?_) (fun as c => .of_advances ((hr c).bind _))
    (List.nil_subset _)).seq fun as => .pure (by simp)
  refine h.bind fun a => hmore.skip fun b => .ite (fun _ => .pure ?_) fun _ => .pure ?_
  · simp
  · simp

theorem commaList (h : Keeps tokens [] r) (hr : r.Advances) : Keeps tokens [] (commaList r) :=
  collectThrough h hr (accept _)

theorem oneUpTo (stop : TokenKind) (h : Keeps tokens [] r) (hr : r.Advances) :
    Keeps tokens [] (oneUpTo stop r) :=
  collectThrough h hr ((sees stop).skip fun _ => .pure (List.nil_subset _))

theorem separated (bracket : TokenKind) (h : Keeps tokens [] r) (hr : r.Advances) :
    Keeps tokens [] (separated bracket r) := by
  refine (loopFrom (fun as => ?_) (fun as => ?_) (List.nil_subset _)).seq fun as => .pure (by simp)
  · refine (sees bracket).skip fun b => .ite (fun _ => .pure (by simp)) fun _ => ?_
    refine h.bind fun a => (accept _).skip fun b => .ite (fun _ => .pure ?_) fun _ => .pure ?_
    · simp
    · simp
  · exact .behind fun b c => .ite (fun _ => .done _) fun _ => .of_advances ((hr c).bind _)

end Lists

/-! ## Attempts -/

section Attempts

variable {r : Reading (Option α)}

theorem moves {g : Session → Session} {hg : ∀ s : Session, s.Onward (g s)}
    (hcursor : ∀ s, (g s).cursor = s.cursor) (htree : ∀ s, (g s).tree = s.tree) :
    Keeps tokens known (moves g hg) := by
  intro setting s hs _
  refine ⟨?_, ?_, ?_, ?_⟩
  · rintro x rfl
    exact hs.reaches
  · change (g s).Fits tokens
    refine ⟨?_, ?_, ?_, ?_⟩
    · exact (hcursor s).symm ▸ hs.reaches
    · exact (hcursor s).symm ▸ hs.ahead
    · exact (hcursor s).symm ▸ hs.last
    · exact (htree s).symm ▸ hs.tree
  · change s.cursor.NotPast (g s).cursor
    exact (hcursor s).symm ▸ .refl _
  · rintro a t ⟨⟩
    exact List.nil_subset _

theorem remember (failure : Failure) : Keeps tokens known (remember failure) :=
  moves (fun _ => rfl) fun _ => rfl

theorem speculate (h : Keeps tokens known r) : Keeps tokens known (speculate r) := by
  intro setting s hs hknown
  have hr := h setting s hs hknown
  exact ⟨hr.course, hr.ends.retracted hs (r.onward setting s)⟩

theorem succeeds {r : Reading α} (h : Keeps tokens known r) :
    Keeps tokens known (succeeds r) := by
  intro setting s hs hknown
  have hr := h setting s hs hknown
  exact ⟨hr.course, hr.ends.tested hs (r.onward setting s)⟩

theorem reported {r : Reading α} (h : Keeps tokens known r) : Keeps tokens known (reported r) := by
  intro setting s hs hknown
  have hr := h setting s hs hknown
  exact ⟨hr.course, hr.ends.reported⟩

theorem attempt (what : Attempt) (h : Keeps tokens known r) :
    Keeps tokens known (attempt what r) := by
  refine skip (.asks fun _ _ => rfl) fun failure => skip (.asks fun _ _ => rfl) fun tried => ?_
  have hanswer (answer : Option α) : Keeps tokens (refs answer ++ known)
      (if answer.isNone = true then Reading.remember failure >>= fun _ => Pure.pure answer
        else Pure.pure answer) := by
    refine .ite (fun _ => ?_) fun _ => .pure (List.subset_append_left _ _)
    exact (remember failure).skip fun _ => .pure (List.subset_append_left _ _)
  refine .ite (fun _ => ?_) fun _ => h.speculate.seq hanswer
  have hnone : Keeps tokens [] (Pure.pure none : Reading (Option α)) := .pure (List.nil_subset _)
  exact hnone.bind hanswer

end Attempts

/-! ## Recovery -/

theorem recovering {describe : SyntaxError → SyntaxError} {handler r : Reading α}
    (h : Keeps tokens known r) (hhandler : Keeps tokens known handler) :
    Keeps tokens known (recovering describe handler r) := by
  intro setting s hs hknown
  have honward := r.onward setting s
  have hr := h setting s hs hknown
  have hrun : (Reading.recovering describe handler r).run setting s =
      (r.run setting s).recovered setting.config.recover describe s (handler.run setting) := rfl
  have hresume (e : SyntaxError) (t : Session) (ht : r.run setting s = .error e t) :
      Run tokens handler setting ((t.discard s).report (describe e)) := by
    have hfits := hr.ends.fits
    rw [ht] at honward hfits
    have hdiscard := hs.discard hfits honward
    refine hhandler setting _ ⟨hdiscard.reaches, hdiscard.ahead, hdiscard.last, hdiscard.tree⟩ ?_
    exact List.Subset.trans hknown honward.discard.tree.nodes_subset
  constructor
  · rintro x (hx | ⟨e, t, ht, -, hx⟩)
    · exact hr.course x hx
    · exact (hresume e t ht).course x hx
  · have hends := hr.ends
    rw [hrun]
    cases ht : r.run setting s with
    | ok a t =>
        rw [ht] at hends
        exact hends
    | error e t =>
        rw [ht] at hends
        cases setting.config.recover with
        | true =>
            obtain ⟨hfits, hnext, hanswer⟩ := (hresume e t ht).ends
            exact ⟨hfits, hends.notPast.trans hnext, hanswer⟩
        | false => exact .of_error rfl hends.fits hends.notPast

end Keeps

end BendSyntax
