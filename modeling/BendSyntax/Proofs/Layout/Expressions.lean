import BendSyntax.Proofs.Layout.LastTerm
import BendSyntax.Proofs.Layout.Terms
import BendSyntax.Proofs.Ownership.Expressions

/-! Where operands, expressions and statements put their nodes, and with them the productions of
every goal at every depth. The loop behind an operand keeps to the binding levels: what it has
read so far is bare only where the operators that follow bind less tightly. -/

namespace BendSyntax

open Reading Grammar Owner

variable {deep : Deeper} {start : Span} {setting : Setting} {s : Session}

section Productions

variable (h : deep.LaysOut)

include h

/-! ## Operands -/

theorem opens_constructor : OpensTight (Grammar.constructor deep) := by
  refine fun setting s => .advance (.skip quiet_identifier fun _ => .skip quiet_cursor fun _ => ?_)
  refine .skip quiet_slot fun _ => .ite (fun _ => ?_) fun _ =>
    lays_close_tight (.of_eq rfl) (by simp) rfl
  refine .skip quiet_advance fun _ => .bind (adds_separated _ h.inner).list.delimited fun args => ?_
  refine .skip (quiet_expect _) fun _ => lays_close_tight (.of_eq ?_) (by simp) rfl
  simp [Term.demands, Term.children]

theorem opens_symbolOrSup : OpensTight (symbolOrSup deep) := by
  refine fun setting s => .advance (.skip quiet_cursor fun c => .skip quiet_slot fun s => ?_)
  refine .ite (fun _ => ?_) fun _ => ?_
  · exact .skip quiet_identifier fun _ => lays_close_tight (.of_eq rfl) (by simp) rfl
  · refine .bind (h.looseExpr _).within fun label => .skip (quiet_expect _) fun _ => ?_
    have hsides : Places (do
        let left ← deep.inner
        let _ ← expect (.mark .comma)
        return (left, ← deep.inner)) :=
      .bind h.inner fun left lo => .skip (quiet_expect _) fun _ =>
        .bind h.inner fun right => .pure rfl
    refine .bind hsides.delimited fun (left, right) => .skip (quiet_expect _) fun _ => ?_
    exact lays_close_tight (.of_eq rfl) (by simp) rfl

theorem opens_hole : OpensTight (hole deep) := by
  refine fun setting s =>
    .advance (.skip quiet_identifier fun _ => .skip (quiet_expect _) fun _ => ?_)
  refine .bind (h.looseExpr _).within fun type => .skip quiet_slot fun _ =>
    .skip quiet_cursor fun _ => ?_
  refine .ite (fun _ => ?_) fun _ => lays_close_tight (.of_eq rfl) (by simp) rfl
  refine .skip quiet_advance fun _ => ?_
  refine .bind (adds_separated _ h.inner).list.withUsage.delimited fun ctx => ?_
  refine .skip (quiet_expect _) fun _ => lays_close_tight (.of_eq ?_) (by simp) rfl
  simp [Term.demands, Term.children]

theorem opens_listTerm : OpensTight (listTerm deep) := by
  refine fun setting s => .advance (.skip (quiet_accept _) fun _ => ?_)
  refine .ite (fun _ => lays_close_tight (.of_eq rfl) (by simp) rfl) fun _ => ?_
  refine .bind (adds_separated _ h.inner).list.delimited fun items => ?_
  refine .skip (quiet_expect _) fun _ => lays_close_tight (.of_eq ?_) (by simp) rfl
  simp [Term.demands, Term.children]

omit h in
theorem opens_enumType : OpensTight enumType := by
  have hsymbol : Adds enumSymbol fun _ => [] :=
    .skip (quiet_expect _) fun _ => .skip quiet_identifier fun _ => .pure rfl
  refine fun setting s => .advance (.skip (quiet_expect _) fun _ => ?_)
  refine .skip (adds_separated _ hsymbol).quiet fun symbols => .skip (quiet_expect _) fun _ => ?_
  exact lays_close_tight (.of_eq rfl) (by simp) rfl

omit h in
theorem opens_reference : OpensTight reference := fun _ _ =>
  .advance (.skip quiet_identifier fun _ => lays_close_tight (.of_eq rfl) (by simp) rfl)

omit h in
theorem opens_view : OpensTight view := fun _ _ =>
  .advance (.skip (quiet_expect _) fun _ => .skip quiet_identifier fun _ =>
    .skip (quiet_expect _) fun _ => lays_close_tight (.of_eq rfl) (by simp) rfl)

omit h in
/-- The span of the term that was added last, extended to an opening bracket in front of it and to
the closing one that was just read. -/
theorem fits_widen {t : Session} {first : TermId} {stop : Span} {lo : Nat} {level : Level}
    (ht : t.Sound) (htop : t.Top first) (hb : (Base.since start).Meets t.cursor)
    (hlast : t.cursor.last = stop) (hlo : start.start < lo)
    (hfirst : t.tree.Placed lo (loose first) t.cursor.last.stop) :
    (t.tree.widen first (start.hull stop)).Fits start.start ⟨.term first, level⟩
      t.cursor.last.stop := by
  subst hlast
  have hmem := Tree.mem_nodes_term.mp hfirst.1.mem
  have hlower : lo ≤ (t.tree.span first).start := hfirst.1.lower
  have hupper : (t.tree.span first).stop ≤ t.cursor.last.stop := hfirst.1.upper
  have hspan : (t.tree.widen first (start.hull t.cursor.last)).spanAt (.term first) =
      (t.tree.span first).hull (start.hull t.cursor.last) := Tree.span_widen _ _ hmem
  have hstart : ((t.tree.span first).hull (start.hull t.cursor.last)).start = start.start := by
    have hstart := hb.1
    simp only [Span.hull_start]
    omega
  have hend : ((t.tree.span first).hull (start.hull t.cursor.last)).stop = t.cursor.last.stop := by
    have hstop := hb.2
    simp only [Span.hull_stop]
    omega
  have hbegin : (start.hull t.cursor.last).start < (t.tree.span first).start := by
    simp only [Span.hull_start]
    omega
  refine ⟨Tree.mem_nodes_widen.mpr hfirst.1.mem, ?_, ?_, ?_, ht.tree.binds_widen htop _ hbegin _⟩
  · rw [hspan, hstart]
  · rw [hspan, hstart, hend]
    exact Nat.le_trans hb.1 ht.cursor.last
  · rw [hspan, hend]

theorem lays_tuple {first : TermId} : Lays (.since start) (loose first) (do
    let rest ← delimited (separated (.mark .rightParen) deep.inner)
    let _ ← expect (.mark .rightParen)
    close start (.tuple (first :: rest))) (heldAt .operand) := by
  refine .bind (adds_separated _ h.inner).list.delimited fun rest => ?_
  refine .skip (quiet_expect _) fun _ => lays_close_tight (.of_eq ?_) (by simp) rfl
  simp [Term.demands, Term.children]

omit h in
/-- The closing bracket behind a term that was added last. -/
theorem laid_enclosed {t : Session} {first : TermId} {lo : Nat} (hst : s.Grows t) (ht : t.Sound)
    (hsize : s.tree.terms.size ≤ first.index) (htop : t.Top first)
    (hb : (Base.since start).Meets t.cursor) (hlo : start.start < lo)
    (hfirst : t.tree.Placed lo (loose first) t.cursor.last.stop) :
    ((do
      let stop ← expect (.mark .rightParen)
      widen first (start.hull stop)
      return first : Reading TermId).run setting t).Laid s (.since start) (heldAt .operand) := by
  have hstop := quiet_expect (.mark .rightParen) setting t ht (Nat.le_refl _) trivial
  rw [run_bind]
  cases hu : (expect (.mark .rightParen)).run setting t with
  | error e u =>
      rw [hu] at hstop
      exact hstop.trans hst
  | ok stop u =>
      rw [hu] at hstop
      obtain ⟨hus, htu, -⟩ := hstop
      have htree := tree_expect hu
      have hutop : u.Top first := by rwa [Session.Top, htree]
      refine ⟨⟨hus.cursor, hus.tree.widen hutop _⟩, (hst.trans htu).widen hsize _, ?_, trivial⟩
      refine fits_widen hus hutop (hb.mono htu.cursor) (last_expect hu) hlo ?_
      exact (htree ▸ hfirst).mono_hi htu.cursor.stop

/-- Parentheses enclose their contents, which are not bare then. -/
theorem beginsAt_parentheses (htop : deep.Tops)
    (hkind : s.cursor.kind = .mark .leftParen) :
    BeginsAt setting s (parentheses deep s.cursor.span) (heldAt .operand) := by
  refine .advanceAt fun hs => .bind (quiet_accept _ _ _) fun b u _ hsu =>
    .ite (fun _ => ?_) fun _ => ?_
  · have hunit : Lays (.since s.cursor.span) [] (close s.cursor.span .unit) (heldAt .operand) :=
      lays_close_tight (.of_eq rfl) (by simp) rfl
    exact hunit setting u
  intro hu hb _
  have hrest : s.cursor.rest ≠ [] := hs.cursor.rest_ne_nil (by simp [hkind])
  have hlt : s.cursor.span.start < u.cursor.span.start :=
    Nat.lt_of_lt_of_le (hs.cursor.span_lt_advance hrest) hsu.cursor.front
  have hinner := h.inner.delimited setting u hu (Nat.le_refl _) trivial
  rw [run_bind]
  cases hv : (delimited deep.inner).run setting u with
  | error e v =>
      rw [hv] at hinner
      exact hinner
  | ok first v =>
      rw [hv] at hinner
      obtain ⟨hvs, huv, hfirst⟩ := hinner
      obtain ⟨hsize, ⟨hfirsttop, -, -⟩⟩ := htop _ _ u first v hv first rfl
      have hcomma := quiet_accept (.mark .comma) setting v hvs (Nat.le_refl _) trivial
      rw [Outcome.andThen_ok, run_bind]
      cases hw : (accept (.mark .comma)).run setting v with
      | error e w =>
          rw [hw] at hcomma
          exact hcomma.trans huv
      | ok comma w =>
          rw [hw] at hcomma
          obtain ⟨hws, hvw, -⟩ := hcomma
          have hbw := (hb.mono huv.cursor).mono hvw.cursor
          have htree := tree_accept hw
          have hfirst := (htree ▸ hfirst).mono_hi hvw.cursor.stop
          rw [Outcome.andThen_ok]
          split
          · have htuple := lays_tuple h setting w hws hbw (hfirst.mono_lo (Nat.le_of_lt hlt))
            exact htuple.trans (huv.trans hvw)
          · have hwtop : w.Top first := by rwa [Session.Top, htree]
            refine laid_enclosed (huv.trans hvw) hws ?_ hwtop hbw hlt hfirst
            simp only [Session.Top] at hfirsttop
            omega

theorem beginsAt_compound (htop : deep.Tops) :
    BeginsAt setting s (compound deep s.cursor s.cursor.span) (heldAt .operand) := by
  unfold compound
  split
  · exact opens_constructor h setting s
  · exact opens_symbolOrSup h setting s
  · exact opens_hole h setting s
  · exact beginsAt_parentheses h htop ‹_›
  · exact opens_listTerm h setting s
  · exact .ite (fun _ => beginsAt_refl setting s) fun _ => .unexpected _
  · exact opens_enumType setting s
  · exact opens_reference setting s
  · exact opens_view setting s
  · exact .unexpected _

omit h in
theorem nameTerm_ne_error (lexeme : String) : nameTerm lexeme ≠ .error := by
  unfold nameTerm
  split <;> nofun

omit h in
theorem constant_ne_error {kind : TokenKind} {term : Term TermId PatternId}
    (hterm : constant? kind = some term) : term ≠ .error := by
  unfold constant? at hterm
  split at hterm <;> cases hterm <;> nofun

theorem beginsAt_operand (htop : deep.Tops) :
    BeginsAt setting s (operand deep) (heldAt .operand) := by
  refine .cursor (.ite (fun _ => ?_) fun _ => .ite (fun _ => ?_) fun _ => ?_)
  · exact beginsAt_leaf (nameTerm_ne_error _) (children_nameTerm _)
  · refine .skip (fun _ _ => session_literal) (quiet_literal _) fun value => ?_
    exact beginsAt_leaf nofun rfl
  · split
    · exact beginsAt_leaf (constant_ne_error ‹_›) (children_constant ‹_›)
    · exact beginsAt_compound h htop

theorem beginsAt_leading (htop : deep.Tops) :
    BeginsAt setting s (leading deep) (heldAt .operand) := by
  refine .cursor ?_
  dsimp only
  split
  · exact opens_before h _ (.op1 .not) (fun _ => .of_eq rfl) (fun _ => nofun)
      (fun _ => rfl) setting s
  · exact opens_before h _ (.op1 .neg) (fun _ => .of_eq rfl) (fun _ => nofun)
      (fun _ => rfl) setting s
  · exact opens_tilde h setting s
  · exact opens_lambda h setting s
  · exact opens_fixedPoint h setting s
  · exact opens_all h setting s
  · exact opens_any h setting s
  · exact opens_ifElse h setting s
  · exact opens_fork h setting s
  · exact opens_matchOn h setting s
  · exact opens_useIn h setting s
  · exact opens_operandAndBody h .rewrite (fun _ _ => rfl) (fun _ _ => nofun)
      (fun _ _ => rfl) setting s
  · exact opens_operandAndBody h .log (fun _ _ => rfl) (fun _ _ => nofun) (fun _ _ => rfl) setting s
  · exact opens_before h _ .trust (relaxes_loose _) (fun _ => nofun) (fun _ => rfl) setting s
  · exact opens_before h _ .absurd (relaxes_loose _) (fun _ => nofun) (fun _ => rfl) setting s
  · exact opens_before h _ .ret (relaxes_loose _) (fun _ => nofun) (fun _ => rfl) setting s
  · exact opens_before h _ .sub (fun _ => .of_eq rfl) (fun _ => nofun) (fun _ => rfl) setting s
  · exact .seq (beginsAt_operand h htop) fun head => lays_suffixes h

/-! ## Expressions -/

theorem lays_juxtaposed? {func : TermId} :
    Lays (.since start) (heldAt .operand func) (juxtaposed? deep func start)
      fun app => heldAt .operand (app.getD func) := by
  refine .skip quiet_cursor fun c => .skip quiet_slot fun s => .ite (fun _ => .pure rfl) fun _ => ?_
  refine .skip (quiet_bareName func) fun bare => .ite (fun _ => ?_) fun _ =>
    .ite (fun _ => ?_) fun _ => ?_
  · exact .map (lays_call h) fun _ => rfl
  · exact .ite (fun _ => .pure rfl) fun _ => .map (lays_braceSuffix h) fun _ => rfl
  · refine .ite (fun _ => .bind (h.expr .suffix) fun arg => ?_) fun _ => .pure rfl
    have hrelax : Relaxes (heldAt .operand func ++ heldAt .suffix arg)
      (Term.app func arg).demands :=
      .cons ⟨rfl, Nat.le_refl _⟩ (relaxes_heldAt (by decide) arg)
    exact .map (lays_close_tight hrelax nofun rfl) fun _ => rfl

theorem adds_rightOperand (op : Infix) : Adds (rightOperand deep op) (heldAt op.next) := by
  unfold rightOperand
  split
  · exact (h.expr _).withUsage
  · exact h.expr _

omit h in
theorem settled_rightOperand (hsettles : deep.Settles) {op : Infix} {t : Session} {rhs : TermId}
    (heof : s.cursor.eof.kind = .eof) (ht : (rightOperand deep op).run setting s = .ok rhs t) :
    t.cursor.Settled setting.slot op.next := by
  unfold rightOperand at ht
  split at ht
  · exact hsettles _ { setting with slot := setting.slot.withUsage .type } s rhs t heof ht
  · exact hsettles _ _ _ _ _ heof ht

omit h in
theorem infix?_infixTerm (form : InfixForm) (lhs rhs : TermId) :
    (infixTerm form lhs rhs).infix? = some (form, lhs, rhs) := by
  cases form <;> rfl

omit h in
/-- An operator whose operands bind tightly enough. -/
theorem lays_infixTerm {op : Infix} (hop : op.form.binding = op) {lhs rhs : TermId} :
    Lays (.since start) (heldAt op.previous lhs ++ heldAt op.next rhs)
      (close start (infixTerm op.form lhs rhs)) (heldAt op.level) := by
  have hoperands := infix?_infixTerm op.form lhs rhs
  refine lays_close (.of_eq ?_) (fun herror => ?_) fun form l r hform => ?_
  · rw [Term.demands_of_infix? hoperands, hop]
    rfl
  · rw [herror] at hoperands
    cases hoperands
  · rw [hoperands] at hform
    cases hform
    rw [hop]

/-- What the loop behind an operand has read so far: a bare operator has ended where its right
operand was settled. -/
def Session.Climbs (s : Session) (slot : Slot) (min : Level) (lhs : TermId) : Prop :=
  ∀ form ∈ s.tree.bareInfix? lhs, min ≤ form.binding.level ∧ s.cursor.Settled slot form.binding.next

/-- What a round of the loop leaves behind. -/
def Outcome.Climbed (setting : Setting) (s : Session) (min : Level) (start : Span) :
    Outcome (Round TermId) → Prop
  | .ok (.more id) t => t.Sound ∧ s.Grows t ∧
      t.tree.Placed start.start (loose id) t.cursor.last.stop ∧ t.Climbs setting.slot min id
  | .ok (.done id) t => t.Sound ∧ s.Grows t ∧
      t.tree.Placed start.start (heldAt min id) t.cursor.last.stop
  | .error e t => t.cursor.Orderly ∧ s.Grows t ∧ e.span = t.cursor.span

section Climb

variable {min : Level} {lhs : TermId} (hs : s.Sound) (hb : (Base.since start).Meets s.cursor)
  (hlhs : s.tree.Placed start.start (loose lhs) s.cursor.last.stop)
  (hclimbs : s.Climbs setting.slot min lhs)

omit h in
include hlhs in
theorem placed_heldAt (level : Level) (hbinds : s.tree.Binds level (.term lhs)) :
    s.tree.Placed start.start (heldAt level lhs) s.cursor.last.stop :=
  ⟨⟨hlhs.1.mem, hlhs.1.lower, hlhs.1.ordered, hlhs.1.upper, hbinds⟩, trivial⟩

include hs hb hlhs hclimbs

/-- An operator takes what was read so far as its left operand. -/
theorem climbed_operatorRound (hsettles : deep.Settles)
    (hhead : s.cursor.atHead setting.slot = false) :
    ((operatorRound deep min start lhs).run setting s).Climbed setting s min start := by
  rw [run_operatorRound]
  split
  · rename_i op hop
    obtain ⟨hkind, hmin, -⟩ := operator?_eq_some.mp hop
    have hop' := Infix.binding_of_ofKind? hkind
    have hleft : s.tree.Binds op.previous (.term lhs) := fun form hform => by
      have hlt := (hclimbs form hform).2.level_lt hhead hop
      rw [← hop'] at hlt ⊢
      exact InfixForm.previous_le_iff_lt_next.mpr hlt
    have hadvance : s.Grows { s with cursor := s.cursor.advance } :=
      .setCursor hs.cursor.before_advance
    generalize hs₁ : ({ s with cursor := s.cursor.advance } : Session) = s₁ at hadvance
    have hsound : s₁.Sound := hs₁ ▸ ⟨hs.cursor.advance, hs.tree⟩
    have hb₁ := hb.mono hadvance.cursor
    have hlhs := (placed_heldAt hlhs op.previous hleft).mono hs.tree hadvance.treePrefix
    have hlhs := hlhs.mono_hi hadvance.cursor.stop
    have hright := adds_rightOperand h op setting s₁ hsound (Nat.le_refl _) trivial
    change (((rightOperand deep op) >>= _).run setting
      { s with cursor := s.cursor.advance }).Climbed _ _ _ _
    rw [hs₁, run_bind]
    cases hu : (rightOperand deep op).run setting s₁ with
    | error e u =>
        rw [hu] at hright
        exact ⟨hright.1, hadvance.trans hright.2.1, hright.2.2⟩
    | ok rhs u =>
        rw [hu] at hright
        obtain ⟨hus, hgrows, hrhs⟩ := hright
        have hsettled := settled_rightOperand hsettles hsound.cursor.eof_kind hu
        have hboth := (hlhs.mono hsound.tree hgrows.treePrefix).append hrhs hsound.cursor.behind
          (hb₁.lo_le hsound.cursor) hgrows.cursor.stop
        obtain ⟨hvs, huv, hplaced⟩ :=
          lays_infixTerm hop' setting u hus (hb₁.mono hgrows.cursor) hboth
        refine ⟨hvs, (hadvance.trans hgrows).trans huv, hplaced.relax (relaxes_loose _ _), ?_⟩
        intro form hform
        obtain ⟨l, r, hform'⟩ := Tree.infix?_of_bareInfix? u.tree hform
        rw [infix?_infixTerm] at hform'
        cases hform'
        rw [hop']
        exact ⟨hmin, hsettled⟩
  · refine ⟨hs, .refl s, placed_heldAt hlhs min fun form hform => (hclimbs form hform).1⟩

omit h hs hb hlhs in
/-- Where an argument follows, what was read so far is no bare operator: that would have taken
the argument itself. -/
theorem binds_of_juxtaposes (hhead : s.cursor.atHead setting.slot = false)
    (hjuxtaposes : s.cursor.juxtaposes setting.slot = true) :
    s.tree.Binds .operand (.term lhs) := by
  intro form hform
  rcases (hclimbs form hform).2 with hhead' | ⟨-, hnot⟩
  · rw [hhead] at hhead'
    cases hhead'
  · have hle : form.binding.next ≤ Level.application := Nat.le_trans form.next_le (by decide)
    rw [hjuxtaposes] at hnot
    cases hnot hle

theorem climbed_climbRound (hsettles : deep.Settles) :
    ((climbRound deep min start lhs).run setting s).Climbed setting s min start := by
  rw [run_climbRound]
  split
  · exact ⟨hs, .refl s, placed_heldAt hlhs min fun form hform => (hclimbs form hform).1⟩
  rename_i hhead
  simp only [Bool.not_eq_true] at hhead
  have hoperator := climbed_operatorRound h hs hb hlhs hclimbs hsettles hhead
  split
  · rw [run_bind]
    cases hjuxtaposes : s.cursor.juxtaposes setting.slot with
    | false =>
        rw [run_juxtaposed?_of_not hhead hjuxtaposes]
        exact hoperator
    | true =>
        have hbinds := binds_of_juxtaposes hclimbs hhead hjuxtaposes
        have happ := lays_juxtaposed? h setting s hs hb (placed_heldAt hlhs .operand hbinds)
        match hu : (juxtaposed? deep lhs start).run setting s with
        | .error e u =>
            rw [hu] at happ
            exact happ
        | .ok none u =>
            rw [(juxtaposes_of_none hu).1] at hjuxtaposes
            cases hjuxtaposes
        | .ok (some app) u =>
            rw [hu] at happ
            obtain ⟨hus, hgrows, hplaced⟩ := happ
            refine ⟨hus, hgrows, hplaced.relax (relaxes_loose _ _), fun form hform => ?_⟩
            have hbare : u.tree.bareInfix? app = none := Tree.bareInfix?_of_binds hplaced.1.binds
            rw [hbare] at hform
            cases hform
  · exact hoperator

theorem laid_climb (hsettles : deep.Settles) :
    ((loop (climbRound deep min start) lhs).run setting s).Laid s (.since start) (heldAt min) := by
  change (runLoop _ setting lhs s).Laid s _ _
  fun_induction runLoop with
  | case1 lhs s c now hstep =>
      have hround := climbed_climbRound h hs hb hlhs hclimbs hsettles
      rw [hstep] at hround
      exact hround
  | case2 lhs s c now hstep hlt ih =>
      have hround := climbed_climbRound h hs hb hlhs hclimbs hsettles
      rw [hstep] at hround
      obtain ⟨hnow, hgrows, hplaced, hclimbs⟩ := hround
      exact (ih hnow (hb.mono hgrows.cursor) hplaced hclimbs).trans hgrows
  | case3 lhs s c now hstep hge =>
      have hround := climbed_climbRound h hs hb hlhs hclimbs hsettles
      rw [hstep] at hround
      obtain ⟨hnow, hgrows, hplaced, hclimbs⟩ := hround
      exact ⟨hnow, hgrows, placed_heldAt hplaced min fun form hform => (hclimbs form hform).1⟩
  | case4 lhs s e now hstep =>
      have hround := climbed_climbRound h hs hb hlhs hclimbs hsettles
      rw [hstep] at hround
      exact hround

end Climb

theorem adds_expression (htop : deep.Tops) (hsettles : deep.Settles)
    (min : Level) : Adds (expression deep min) (heldAt min) := by
  intro setting s hs hb hk
  have hleading : BeginsAt setting s (leading deep) (heldAt .operand) := beginsAt_leading h htop
  refine (hleading.adds hs hb hk).bind fun lhs t ht hts hgrows hplaced => ?_
  refine laid_climb h hts (hleading.2 lhs t ht hs) (hplaced.relax (relaxes_loose _ _)) ?_ hsettles
  intro form hform
  rw [Tree.bareInfix?_of_binds hplaced.1.binds] at hform
  cases hform

/-! ## Statements -/

omit h in
/-- An operator whose span reaches from a token to its right operand. -/
theorem grows_addInfix (term : Term TermId PatternId) (usage : Usage) (level : Level)
    {form : InfixForm} {lhs rhs : TermId} {hi : Nat} (hs : s.Sound)
    (hoperands : term.infix? = some (form, lhs, rhs)) (hlevel : level ≤ form.binding.level)
    (hplaced : s.tree.Placed start.start
      (heldAt form.binding.previous lhs ++ heldAt form.binding.next rhs) hi)
    (hstop : start.stop ≤ (s.tree.span rhs).start) :
    let node : TermNode := ⟨term, start.hull (s.tree.span rhs), usage⟩
    (s.withTerm node).Sound ∧ s.Grows (s.withTerm node) ∧
      (s.withTerm node).tree.Fits start.start ⟨.term (s.tree.addTerm node).1, level⟩
        (s.tree.span rhs).stop := by
  obtain ⟨hl, hr, -⟩ := hplaced
  have hll : start.start ≤ (s.tree.span lhs).start := hl.lower
  have hlo : (s.tree.span lhs).start ≤ (s.tree.span lhs).stop := hl.ordered
  have hrl : (s.tree.span lhs).stop ≤ (s.tree.span rhs).start := hr.lower
  have hro : (s.tree.span rhs).start ≤ (s.tree.span rhs).stop := hr.ordered
  have hstart : (start.hull (s.tree.span rhs)).start = start.start := by
    simp only [Span.hull_start]
    omega
  have hend : (start.hull (s.tree.span rhs)).stop = (s.tree.span rhs).stop := by
    simp only [Span.hull_stop]
    omega
  have hnode : s.tree.Placed (start.hull (s.tree.span rhs)).start term.demands
      (start.hull (s.tree.span rhs)).stop := by
    rw [hstart, hend, Term.demands_of_infix? hoperands]
    exact ⟨{ hl with upper := Nat.le_trans hrl hro }, { hr with upper := Nat.le_refl _ }, trivial⟩
  have hterm : term ≠ .error := fun herror => by
    rw [herror] at hoperands
    cases hoperands
  refine ⟨⟨hs.cursor, hs.tree.addTerm _ hnode⟩, .addTerm s hterm, ?_⟩
  refine Tree.fits_addTerm _ _ ?_ ?_ ?_ fun form' l r hform => ?_
  · exact Nat.le_of_eq hstart.symm
  · rw [hstart, hend]
    omega
  · exact Nat.le_of_eq hend
  · rw [hoperands] at hform
    cases hform
    exact hlevel

/-- The type of a binding, if it has one. -/
def typeHeld (type : Option TermId) : List Held := type.elim [] (heldAt .product)

omit h in
/-- The name in front of an assignment, over the first token. -/
theorem grows_addVar (name : String) (usage : Usage) (hs : s.Sound)
    (hstart : start.start ≤ start.stop) :
    let node : TermNode := ⟨.var name, start, usage⟩
    (s.withTerm node).Sound ∧ s.Grows (s.withTerm node) ∧
      ∀ level, (s.withTerm node).tree.Fits start.start ⟨.term (s.tree.addTerm node).1, level⟩
        start.stop := by
  refine ⟨⟨hs.cursor, hs.tree.addTerm _ trivial⟩, .addTerm s nofun, fun level => ?_⟩
  exact Tree.fits_addTerm _ _ (Nat.le_refl _) hstart (Nat.le_refl _) nofun

omit h in
theorem laid_assignment {name : String} {type : Option TermId} {value : TermId} (hs : s.Sound)
    (hstart : start.start ≤ start.stop)
    (hk : s.tree.Placed start.stop (typeHeld type ++ heldAt .check value) s.cursor.last.stop) :
    ((assignment name start type value).run setting s).Laid s (.since start) loose := by
  let node : TermNode := ⟨.var name, start, setting.slot.usage⟩
  obtain ⟨ht, hst, hvar⟩ := grows_addVar name setting.slot.usage hs hstart
  have hk : (s.withTerm node).tree.Placed start.stop (typeHeld type ++ heldAt .check value)
      (s.withTerm node).cursor.last.stop := hk.mono hs.tree hst.treePrefix
  have hvar (level : Level) : (s.withTerm node).tree.Placed start.start
      (heldAt level (s.tree.addTerm node).1) start.stop := ⟨hvar level, trivial⟩
  cases type with
  | none =>
      change ((addTerm (.op2 .assign (s.tree.addTerm node).1 value)
        (start.hull ((s.withTerm node).tree.span value))).run setting (s.withTerm node)).Laid _ _ _
      generalize s.withTerm node = t, (s.tree.addTerm node).1 = var at *
      have hvalue := hk.relax (relaxes_heldAt (by decide : 1 ≤ Level.check) value)
      have hboth := (hvar 2).append hvalue (Nat.le_refl _) hstart hk.1.lo_le_hi
      obtain ⟨hu, htu, hfits⟩ := grows_addInfix (.op2 .assign var value) setting.slot.usage 0 ht rfl
        (Nat.zero_le _) hboth hk.1.lower
      exact ⟨hu, hst.trans htu,
        { hfits with upper := Nat.le_trans hfits.upper hk.1.upper }, trivial⟩
  | some type =>
      change ((addTerm (.check (s.tree.addTerm node).1 type)
          (start.hull ((s.withTerm node).tree.span type)) >>= fun target =>
        addTerm (.op2 .assign target value) (start.hull ((s.withTerm node).tree.span value))).run
          setting (s.withTerm node)).Laid _ _ _
      generalize s.withTerm node = t, (s.tree.addTerm node).1 = var at *
      obtain ⟨htype, hvalue⟩ := hk
      have htypeOnly := Tree.Placed.relax (k := heldAt .product type) (⟨htype, trivial⟩)
        (relaxes_heldAt (by decide : 2 ≤ Level.product) type)
      have hleft := (hvar 3).append htypeOnly (Nat.le_refl _) hstart htype.lo_le_hi
      obtain ⟨hu, htu, htarget⟩ := grows_addInfix (.check var type) setting.slot.usage 2 ht rfl
        (Nat.le_refl _) hleft htype.lower
      let node' : TermNode := ⟨.check var type, start.hull (t.tree.span type), setting.slot.usage⟩
      have hspan : (t.withTerm node').tree.span value = t.tree.span value :=
        htu.treePrefix.span (Tree.mem_nodes_term.mp hvalue.1.mem)
      have hvalue := hvalue.mono ht.tree htu.treePrefix
      change ((addTerm (.op2 .assign (t.tree.addTerm node').1 value)
        (start.hull (t.tree.span value))).run setting (t.withTerm node')).Laid _ _ _
      rw [← hspan]
      have hvalueOnly := hvalue.relax (relaxes_heldAt (by decide : 1 ≤ Level.check) value)
      have hboth := Tree.Placed.append (k := [⟨.term (t.tree.addTerm node').1, 2⟩])
        ⟨htarget, trivial⟩ hvalueOnly (Nat.le_refl _) htarget.lo_le_hi hvalue.1.lo_le_hi
      have hstop := Nat.le_trans htype.lower (Nat.le_trans htype.ordered hvalue.1.lower)
      obtain ⟨hv, huv, hfits⟩ := grows_addInfix (.op2 .assign (t.tree.addTerm node').1 value)
        setting.slot.usage 0 hu rfl (Nat.zero_le _) hboth hstop
      exact ⟨hv, (hst.trans htu).trans huv,
        { hfits with upper := Nat.le_trans hfits.upper hvalue.1.upper }, trivial⟩

/-- A type that was read binds more tightly than an annotation. -/
theorem adds_type : Adds deep.type (heldAt .product) := (h.expr _).withUsage

theorem adds_term : Adds deep.term (heldAt .check) := (h.expr _).withUsage

omit h in
theorem run_cursor_slot {α : Type} (f : Cursor → Slot → Reading α) :
    (cursor >>= fun c => slot >>= fun slot => f c slot).run setting s =
      (f s.cursor setting.slot).run setting s := rfl

/-- What follows the name of a binding. -/
theorem laid_binding {name : String} {type : Option TermId} (hs : s.Sound)
    (hb : (Base.since start).Meets s.cursor) (hstart : start.start ≤ start.stop)
    (hk : s.tree.Placed start.stop (typeHeld type) s.cursor.last.stop) :
    ((Grammar.binding deep name start type).run setting s).Laid s (.since start) loose := by
  have hbehind : (Base.here start.stop).Meets s.cursor := Nat.le_trans hb.2 hs.cursor.behind
  refine ((quiet_expect _).lays setting s hs hbehind hk).bind fun _ t _ ht hst hk => ?_
  have hbehind := hbehind.mono hst.cursor
  have hb := hb.mono hst.cursor
  rw [List.append_nil] at hk
  refine ((adds_term h).lays setting t ht hbehind hk).bind fun value u _ hu htu hk => ?_
  have hbehind := hbehind.mono htu.cursor
  have hb := hb.mono htu.cursor
  refine ((quiet_accept _).lays setting u hu hbehind hk).bind fun _ v _ hv huv hk => ?_
  have hb := hb.mono huv.cursor
  rw [List.append_nil] at hk
  rw [run_cursor_slot]
  split
  · have hlet : Lays (.since start) (typeHeld type ++ heldAt .check value)
        (deep.statement >>= fun body => close start (.letIn name type value body)) loose := by
      refine .bind h.statement fun body => lays_close ?_ nofun nofun
      cases type with
      | none => exact .cons ⟨rfl, Nat.zero_le _⟩ (Relaxes.of_eq rfl)
      | some type =>
        exact .cons ⟨rfl, Nat.zero_le _⟩ (.cons ⟨rfl, Nat.zero_le _⟩ (Relaxes.of_eq rfl))
    exact hlet setting v hv hb (hk.mono_lo hstart)
  · exact laid_assignment hv hstart hk

omit h in
/-- An identifier is the first token. -/
theorem eq_of_identifier {t : Session} {name : String} {span : Span}
    (ht : identifier.run setting s = .ok (name, span) t) :
    span = s.cursor.span ∧ t = { s with cursor := s.cursor.advance } := by
  change (if s.cursor.kind = .ident then _ else _ : Reading (String × Span)).run setting s = _ at ht
  split at ht
  · cases ht
    exact ⟨rfl, rfl⟩
  · cases ht

omit h in
theorem sound_advance (hs : s.Sound) : ({ s with cursor := s.cursor.advance } : Session).Sound :=
  ⟨hs.cursor.advance, hs.tree⟩

omit h in
theorem meets_advance (c : Cursor) : (Base.since c.span).Meets c.advance := by
  simp [Base.Meets]

/-- The type that was read with a name. -/
def typedHeld (x : Option (String × Span × TermId)) : List Held := typeHeld (x.map (·.2.2))

/-- What follows the name in a binding with a type. -/
def typedTail (deep : Deeper) (name : String) (span : Span) :
    Reading (Option (String × Span × TermId)) := do
  let _ ← expect (.mark .colon)
  let type ← deep.type
  if ← sees (.mark .equals) then return some (name, span, type) else return none

theorem adds_typedTail (name : String) (span : Span) :
    Adds (typedTail deep name span) typedHeld := by
  refine .skip (quiet_expect _) fun _ => .bind (adds_type h) fun type lo =>
    .skip (quiet_sees _) fun _ => ?_
  exact .ite (fun _ => .pure rfl) fun _ => .drop rfl

theorem adds_typedName : Adds (typedName deep) typedHeld :=
  .skip quiet_identifier fun (name, span) => adds_typedTail h name span

omit h in
theorem span_of_typedTail {t : Session} {name name' : String} {span span' : Span} {type : TermId}
    (ht : (typedTail deep name span).run setting s = .ok (some (name', span', type)) t) :
    span' = span := by
  obtain ⟨-, u, -, ht⟩ := ok_of_bind ht
  obtain ⟨type', v, -, ht⟩ := ok_of_bind ht
  obtain ⟨equals, w, -, ht⟩ := ok_of_bind ht
  cases equals <;> cases ht
  rfl

/-- The type behind a name lies behind the name. -/
theorem placed_typedName {t : Session} {name : String} {span : Span} {type : TermId} (hs : s.Sound)
    (ht : (typedName deep).run setting s = .ok (some (name, span, type)) t) :
    span = s.cursor.span ∧ (Base.since span).Meets t.cursor ∧
      t.tree.Placed span.stop (typeHeld (some type)) t.cursor.last.stop := by
  obtain ⟨⟨name', span'⟩, u, hu, ht⟩ := ok_of_bind ht
  obtain ⟨rfl, rfl⟩ := eq_of_identifier hu
  change (typedTail deep name' s.cursor.span).run setting _ = _ at ht
  obtain rfl := span_of_typedTail ht
  have hbehind : (Base.here s.cursor.span.stop).Meets s.cursor.advance := hs.cursor.stop_le_advance
  have hlaid := (adds_typedTail h name' s.cursor.span).lays (k := []) setting
    { s with cursor := s.cursor.advance } (sound_advance hs) hbehind trivial
  rw [ht] at hlaid
  exact ⟨rfl, (meets_advance _).mono hlaid.2.1.cursor, hlaid.2.2⟩

theorem places_statement : Places (statement deep) := by
  refine fun setting s => .cursor ?_
  split
  · rintro hs - -
    refine Outcome.Laid.bind (b := .here s.cursor.span.start)
      (quiet_identifier setting s hs (Nat.le_refl _) trivial)
      fun (name, span) t ht hts hst _ => ?_
    obtain ⟨rfl, rfl⟩ := eq_of_identifier ht
    exact laid_binding h hts (meets_advance _) hs.cursor.span_le trivial
  · rintro hs - -
    have hattempt :=
      adds_attempt .typedLet (adds_typedName h) rfl setting s hs (Nat.le_refl _) trivial
    refine hattempt.bind fun found t ht hts hst hplaced => ?_
    split
    · obtain ⟨rfl, hb, hplaced⟩ := placed_typedName h hs (ok_of_attempt ht)
      exact laid_binding h hts hb hs.cursor.span_le hplaced
    · exact (h.looseExpr _).lays (b := .here s.cursor.span.start) setting t hts
        hst.cursor.front hplaced
  · exact h.looseExpr _ setting s

/-- The productions of every goal put their nodes in order if the next level does. -/
theorem laysOut_produce (htop : deep.Tops) (hsettles : deep.Settles) :
    (produce deep).LaysOut where
  statement := (places_statement h).withUsage
  expr := adds_expression h htop hsettles
  pattern := places_pattern h
  patternAtom := fun setting s => (opens_patternAtom h setting s).adds

end Productions

theorem laysOut_nested (d : Nat) : (nested d).LaysOut := by
  induction d with
  | zero =>
      have hrefuse {α : Type} {o : α → List Held} : Adds refuse o :=
        .skip (quiet_asks _) fun _ _ _ => .here (.fail rfl)
      exact ⟨hrefuse, fun _ => hrefuse, hrefuse, hrefuse⟩
  | succ d ih => exact laysOut_produce ih (tops_nested d) (settles_nested d)

end BendSyntax
