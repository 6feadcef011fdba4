import BendSyntax.Proofs.Shapes.Terms

/-! Operands, expressions and statements keep trees in shape, and with them the productions of every
goal at every depth. -/

namespace BendSyntax

open Reading Grammar

variable {deep : Deeper} {start : Span} {P : Session → Prop}

/-- A name with a slash in it has a part on either side. -/
theorem shaped_nameTerm {lexeme : String} (h : "" ∉ cutAtSlashes lexeme.toList)
    (isName : TermId → Prop) : (nameTerm lexeme).Shaped isName := by
  unfold nameTerm
  split
  · rename_i hslash
    refine ⟨?_, h⟩
    rw [length_cutAtSlashes]
    exact Nat.succ_le_succ (List.count_pos_iff.mpr (by simpa using hslash))
  · trivial

theorem shaped_constant {kind : TokenKind} {term : Term TermId PatternId}
    (h : constant? kind = some term) (isName : TermId → Prop) : term.Shaped isName := by
  unfold constant? at h
  split at h <;> cases h <;> trivial

theorem Cursor.kind_token_of_ident {c : Cursor} (h : c.kind = .ident) : c.token.kind = .ident := by
  unfold kind at h
  split at h
  · cases h
  · exact h

theorem Cursor.token_mem (c : Cursor) : c.token ∈ c.rest ++ [c.eof] := by
  unfold token
  split <;> simp_all

section Productions

variable (h : deep.Shapely)

include h

/-! ## Operands -/

theorem shapes_constructor : (Grammar.constructor deep start).Shapes := by
  refine Triple.advance.bind fun _ => Triple.identifier.bind fun _ => Triple.ask.bind fun _ => ?_
  refine Triple.ask.bind fun _ => .ite (fun _ => ?_) fun _ => .close fun _ _ => trivial
  refine Triple.advance.bind fun _ => (Triple.separated _ h.inner).delimited.bind fun args => ?_
  exact (Triple.expect _).bind fun _ => .close fun _ _ => trivial

theorem shapes_symbolOrSup : (symbolOrSup deep start).Shapes := by
  refine Triple.advance.bind fun _ => Triple.ask.bind fun c => Triple.ask.bind fun s => ?_
  refine .ite (fun _ => ?_) fun _ => ?_
  · exact Triple.identifier.bind fun _ => .close fun _ _ => trivial
  refine (h.expr _).within.bind fun label => (Triple.expect _).bind fun _ => ?_
  have hsides : (do
      let left ← deep.inner
      let _ ← expect (.mark .comma)
      return (left, ← deep.inner) : Reading (TermId × TermId)).Shapes :=
    h.inner.bind fun _ => (Triple.expect _).bind fun _ => h.inner.bind fun _ =>
      .pure fun _ _ => trivial
  exact hsides.delimited.bind fun _ => (Triple.expect _).bind fun _ => .close fun _ _ => trivial

theorem shapes_hole : (hole deep start).Shapes := by
  refine Triple.advance.bind fun _ => Triple.identifier.bind fun _ =>
    (Triple.expect _).bind fun _ => ?_
  refine (h.expr _).within.bind fun type => Triple.ask.bind fun _ => Triple.ask.bind fun _ => ?_
  refine .ite (fun _ => ?_) fun _ => .close fun _ _ => trivial
  refine Triple.advance.bind fun _ =>
    (Triple.separated _ h.inner).withUsage.delimited.bind fun ctx => ?_
  exact (Triple.expect _).bind fun _ => .close fun _ _ => trivial

theorem shapes_parentheses : (parentheses deep start).Shapes := by
  refine Triple.advance.bind fun _ => (Triple.accept _).bind fun _ => ?_
  refine .ite (fun _ => .close fun _ _ => trivial) fun _ => h.inner.delimited.bind fun first => ?_
  refine (Triple.accept _).bind fun _ => .ite (fun _ => ?_) fun _ => ?_
  · refine (Triple.separated _ h.inner).delimited.bind fun rest => ?_
    exact (Triple.expect _).bind fun _ => .close fun _ _ => List.cons_ne_nil _ _
  · exact (Triple.expect _).bind fun _ => (Triple.widen _ _).bind fun _ => .pure fun _ _ => trivial

theorem shapes_listTerm : (listTerm deep start).Shapes := by
  refine Triple.advance.bind fun _ => (Triple.accept_else _).bind fun found => ?_
  refine .ite (fun _ => .close fun _ _ => trivial) fun hfound => ?_
  refine .mono ?_ fun s hs => (hs (by simpa using hfound)).1
  exact (Triple.separated_some _ h.inner).delimited.given fun items hitems =>
    (Triple.expect _).bind fun _ => .close fun _ _ => hitems

omit h in
theorem shapes_enumType : (enumType start).Shapes := by
  have hsymbol : enumSymbol.Shapes :=
    (Triple.expect _).bind fun _ => Triple.identifier.bind fun _ => .pure fun _ _ => trivial
  refine Triple.advance.bind fun _ => (Triple.expect _).bind fun _ => ?_
  exact (Triple.separated _ hsymbol).bind fun _ => (Triple.expect _).bind fun _ =>
    .close fun _ _ => trivial

omit h in
theorem shapes_reference : (reference start).Shapes :=
  Triple.advance.bind fun _ => Triple.identifier.bind fun _ => .close fun _ _ => trivial

omit h in
theorem shapes_view : (view start).Shapes :=
  Triple.advance.bind fun _ => (Triple.expect _).bind fun _ => Triple.identifier.bind fun _ =>
    (Triple.expect _).bind fun _ => .close fun _ _ => trivial

theorem shapes_compound (c : Cursor) : (compound deep c start).Shapes := by
  unfold compound
  split
  · exact shapes_constructor h
  · exact shapes_symbolOrSup h
  · exact shapes_hole h
  · exact shapes_parentheses h
  · exact shapes_listTerm h
  · exact .ite (fun _ => shapes_refl) fun _ => .unexpected _
  · exact shapes_enumType
  · exact shapes_reference
  · exact shapes_view
  · exact .unexpected _

theorem shapes_operand : (operand deep).Shapes := by
  have hcursor : Triple Session.Shaped (fun _ => True) cursor fun c _ => c.token.Segmented :=
    .asks fun _ s hs _ => hs.segmented _ s.cursor.token_mem
  refine hcursor.given fun c hsegmented => ?_
  refine .ite (fun hkind => ?_) fun _ => .ite (fun _ => ?_) fun _ => ?_
  · refine Triple.advance.bind fun _ => .addTerm fun _ _ => ?_
    exact shaped_nameTerm (hsegmented (Cursor.kind_token_of_ident hkind)) _
  · exact (shapes_literal _).bind fun _ => Triple.advance.bind fun _ => .addTerm fun _ _ => trivial
  · split
    · rename_i term hterm
      exact Triple.advance.bind fun _ => .addTerm fun _ _ => shaped_constant hterm _
    · exact shapes_compound h c

/-! ## Expressions -/

theorem shapes_leading : (leading deep).Shapes := by
  refine Triple.ask.bind fun c => ?_
  dsimp only
  split
  · exact shapes_before h _ fun _ _ => trivial
  · exact shapes_before h _ fun _ _ => trivial
  · exact shapes_tilde h
  · exact shapes_lambda h
  · exact shapes_fixedPoint h
  · exact shapes_all h
  · exact shapes_any h
  · exact shapes_ifElse h
  · exact shapes_fork h
  · exact shapes_matchOn h
  · exact shapes_useIn h
  · exact shapes_operandAndBody h fun _ _ _ => trivial
  · exact shapes_operandAndBody h fun _ _ _ => trivial
  · exact shapes_before h _ fun _ _ => trivial
  · exact shapes_before h _ fun _ _ => trivial
  · exact shapes_before h _ fun _ _ => trivial
  · exact shapes_before h _ fun _ _ => trivial
  · exact (shapes_operand h).bind fun _ => shapes_suffixes h

/-- A call behind a blank is one of a name. -/
theorem shapes_juxtaposed? (func : TermId) : (juxtaposed? deep func start).Shapes := by
  have hnone : (pure none : Reading (Option TermId)).Shapes := .pure fun _ _ => trivial
  refine Triple.ask.bind fun c => Triple.ask.bind fun s => .ite (fun _ => hnone) fun _ => ?_
  refine (Triple.bareName func).bind fun bare => .ite (fun hcall => ?_) fun _ => .anywhere ?_
  · refine .map (shapes_call h fun s hs _ => hs ?_)
    simp only [Bool.and_eq_true] at hcall
    exact hcall.2
  · refine .ite (fun _ => ?_) fun _ => .ite (fun _ => ?_) fun _ => hnone
    · exact .ite (fun _ => hnone) fun _ => .map (shapes_braceSuffix h)
    · exact (h.expr _).bind fun _ => .map (.close fun _ _ => trivial)

theorem shapes_operatorRound (min : Level) (lhs : TermId) :
    (operatorRound deep min start lhs).Shapes := by
  refine Triple.ask.bind fun c => Triple.ask.bind fun s => ?_
  split
  · rename_i op _
    have hoperand : (rightOperand deep op).Shapes := by
      unfold rightOperand
      split
      · exact (h.expr _).withUsage
      · exact h.expr _
    refine Triple.advance.bind fun _ => hoperand.bind fun rhs => .map (.close fun _ _ => ?_)
    cases op.form <;> trivial
  · exact .pure fun _ _ => trivial

theorem shapes_climbRound (min : Level) (lhs : TermId) :
    (climbRound deep min start lhs).Shapes := by
  refine Triple.ask.bind fun c => Triple.ask.bind fun s =>
    .ite (fun _ => .pure fun _ _ => trivial) fun _ => ?_
  refine .ite (fun _ => ?_) fun _ => shapes_operatorRound h min lhs
  refine (shapes_juxtaposed? h lhs).bind fun app => ?_
  cases app with
  | none => exact shapes_operatorRound h min lhs
  | some app => exact .pure fun _ _ => trivial

theorem shapes_expression (min : Level) : (expression deep min).Shapes :=
  Triple.here.bind fun _ => (shapes_leading h).bind fun lhs =>
    .maintains_loop (shapes_climbRound h min) lhs

/-! ## Statements -/

theorem shapes_typedName : (typedName deep).Shapes := by
  refine Triple.identifier.bind fun _ => (Triple.expect _).bind fun _ => h.type.bind fun type => ?_
  exact (Triple.sees _).bind fun _ => .ite (fun _ => .pure fun _ _ => trivial) fun _ =>
    .pure fun _ _ => trivial

omit h in
theorem shapes_assignment {name : String} {type : Option TermId} {value : TermId} :
    (assignment name start type value).Shapes := by
  have hvar : (addTerm (.var name) start).Shapes := .addTerm fun _ _ => trivial
  refine hvar.bind fun var => (Triple.spanOf _).bind fun stop => ?_
  split
  · rename_i type
    refine (Triple.spanOf _).bind fun stop' => ?_
    have htarget : (addTerm (.check var type) (start.hull stop')).Shapes :=
      .addTerm fun _ _ => trivial
    exact htarget.bind fun _ => .addTerm fun _ _ => trivial
  · exact .addTerm fun _ _ => trivial

theorem shapes_binding {name : String} {type : Option TermId} :
    (binding deep name start type).Shapes := by
  refine (Triple.expect _).bind fun _ => h.term.bind fun value => ?_
  refine (Triple.accept _).bind fun _ => Triple.ask.bind fun c => Triple.ask.bind fun s => ?_
  refine .ite (fun _ => ?_) fun _ => ?_
  · exact h.statement.bind fun _ => .close fun _ _ => trivial
  · exact shapes_assignment

theorem shapes_statement : (statement deep).Shapes := by
  refine Triple.ask.bind fun c => ?_
  split
  · exact Triple.identifier.bind fun _ => shapes_binding h
  · have htyped : (typedName? deep).Shapes := .attempt .typedLet (shapes_typedName h) trivial
    refine htyped.bind fun found => ?_
    split
    · exact shapes_binding h
    · exact h.expr _
  · exact h.expr _

/-- The productions of every goal keep trees in shape if the next level does. -/
theorem shapely_produce : (produce deep).Shapely where
  statement := (shapes_statement h).withUsage
  expr min := shapes_expression h min
  pattern := shapes_pattern h
  patternAtom := atom_patternAtom h

end Productions

theorem shapely_nested (d : Nat) : (nested d).Shapely := by
  induction d with
  | zero => exact ⟨.refuse, fun _ => .refuse, .refuse, .refuse⟩
  | succ d ih => exact shapely_produce ih

end BendSyntax
