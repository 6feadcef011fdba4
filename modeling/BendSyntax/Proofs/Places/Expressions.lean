import BendSyntax.Proofs.Places.Terms

/-! Operands, expressions and statements keep trees to the table, and with them the productions of
every goal at every depth. -/

namespace BendSyntax

open Reading Grammar

variable {deep : Deeper} {start : Span} {u v : Usage} {ps : List (TermId × Usage)}

theorem usages_nameTerm (lexeme : String) : (nameTerm lexeme).places u = [] := by
  unfold nameTerm
  split <;> rfl

theorem usages_constant {kind : TokenKind} {term : Term TermId PatternId}
    (h : constant? kind = some term) : term.places u = [] := by
  unfold constant? at h
  split at h <;> cases h <;> rfl

section Productions

variable (h : deep.Placing)

include h

/-! ## Operands -/

theorem usages_constructor : (Grammar.constructor deep start).Places u ps fun id => [(id, u)] := by
  refine .bind .advance fun _ => .bind .identifier fun _ => .bind .ask fun _ => .bind .ask fun _ => ?_
  refine .ite (fun _ => ?_) fun _ => .close (by simp [Term.places, Term.subterms, Term.children])
  refine .bind .advance fun _ => .bind (.delimited (.separated _ h.inner)) fun args => ?_
  refine .bind (.expect _) fun _ => .close ?_
  simp +contextual [Term.places, Term.subterms, Term.children]

theorem usages_symbolOrSup : (symbolOrSup deep start).Places u ps fun id => [(id, u)] := by
  refine .bind .advance fun _ => .bind .ask fun c => .bind .ask fun s => .ite (fun _ => ?_) fun _ => ?_
  · exact .bind .identifier fun _ => .close (by simp [Term.places, Term.subterms, Term.children])
  refine .bind (.within (h.expr _) fun _ hu => hu) fun label => .bind (.expect _) fun _ => ?_
  have hsides {ps : List (TermId × Usage)} : (do
      let left ← deep.inner
      let _ ← expect (.mark .comma)
      return (left, ← deep.inner) : Reading (TermId × TermId)).Places u ps
        fun sides => u.of [sides.1, sides.2] :=
    .bind h.inner fun _ => .bind (.expect _) fun _ => .bind h.inner fun _ => .pure (by simp)
  refine .bind (.delimited hsides) fun sides => .bind (.expect _) fun _ => .close ?_
  simp [Term.places, Term.subterms, Term.children]

theorem usages_hole : (hole deep start).Places u ps fun id => [(id, u)] := by
  refine .bind .advance fun _ => .bind .identifier fun _ => .bind (.expect _) fun _ => ?_
  refine .bind (.within (h.expr _) fun _ _ => rfl) fun type => .bind .ask fun _ => .bind .ask fun _ => ?_
  refine .ite (fun _ => ?_) fun _ => .close (by simp [Term.places])
  refine .bind .advance fun _ => .bind (.delimited (.withUsage (.separated _ h.inner))) fun ctx => ?_
  exact .bind (.expect _) fun _ => .close (by simp +contextual [Term.places])

/-- Parentheses around one term leave the usage of the term as it is. -/
theorem usages_parentheses : (parentheses deep start).Places u ps fun id => [(id, u)] := by
  refine .bind .advance fun _ => .bind (.accept _) fun _ => .ite (fun _ => .close ?_) fun _ => ?_
  · simp [Term.places, Term.subterms, Term.children]
  refine .bind (.delimited h.inner) fun first => .bind (.accept _) fun _ => .ite (fun _ => ?_) fun _ => ?_
  · refine .bind (.delimited (.separated _ h.inner)) fun rest => .bind (.expect _) fun _ => .close ?_
    simp +contextual [Term.places, Term.subterms, Term.children]
  · exact .bind (.expect _) fun _ => .bind (.widen _ _) fun _ => .pure (by simp)

theorem usages_listTerm : (listTerm deep start).Places u ps fun id => [(id, u)] := by
  refine .bind .advance fun _ => .bind (.accept _) fun _ => .ite (fun _ => .close ?_) fun _ => ?_
  · simp [Term.places, Term.subterms, Term.children]
  refine .bind (.delimited (.separated _ h.inner)) fun items => .bind (.expect _) fun _ => .close ?_
  simp +contextual [Term.places, Term.subterms, Term.children]

omit h in
theorem usages_enumType : (enumType start).Places u ps fun id => [(id, u)] := by
  have hsymbol : enumSymbol.Places u [] fun _ => [] :=
    .bind (.expect _) fun _ => .bind .identifier fun _ => .pure (by simp)
  refine .bind .advance fun _ => .bind (.expect _) fun _ => .bind (.separated _ hsymbol) fun _ => ?_
  exact .bind (.expect _) fun _ => .close (by simp [Term.places, Term.subterms, Term.children])

omit h in
theorem usages_reference : (reference start).Places u ps fun id => [(id, u)] :=
  .bind .advance fun _ => .bind .identifier fun _ =>
    .close (by simp [Term.places, Term.subterms, Term.children])

omit h in
theorem usages_view : (view start).Places u ps fun id => [(id, u)] :=
  .bind .advance fun _ => .bind (.expect _) fun _ => .bind .identifier fun _ =>
    .bind (.expect _) fun _ => .close (by simp [Term.places, Term.subterms, Term.children])

theorem usages_compound (c : Cursor) : (compound deep c start).Places u ps fun id => [(id, u)] := by
  unfold compound
  split
  · exact usages_constructor h
  · exact usages_symbolOrSup h
  · exact usages_hole h
  · exact usages_parentheses h
  · exact usages_listTerm h
  · exact .ite (fun _ => usages_refl) fun _ => .unexpected _
  · exact usages_enumType
  · exact usages_reference
  · exact usages_view
  · exact .unexpected _

theorem usages_operand : (operand deep).Places u ps fun id => [(id, u)] := by
  refine .bind .ask fun c => .ite (fun _ => ?_) fun _ => .ite (fun _ => ?_) fun _ => ?_
  · exact .bind .advance fun _ => .addTerm (by simp [usages_nameTerm])
  · refine .bind (usages_literal _) fun _ => .bind .advance fun _ => .addTerm ?_
    simp [Term.places, Term.subterms, Term.children]
  · split
    · rename_i term hterm
      exact .bind .advance fun _ => .addTerm (by simp [usages_constant hterm])
    · exact usages_compound h c

/-! ## Expressions -/

theorem usages_leading : (leading deep).Places u ps fun id => [(id, u)] := by
  refine .bind .ask fun c => ?_
  dsimp only
  split
  · exact usages_before h _ fun _ => rfl
  · exact usages_before h _ fun _ => rfl
  · exact usages_tilde h
  · exact usages_lambda h
  · exact usages_fixedPoint h
  · exact usages_all h
  · exact usages_any h
  · exact usages_ifElse h
  · exact usages_fork h
  · exact usages_matchOn h
  · exact usages_useIn h
  · exact usages_operandAndBody h fun _ _ => rfl
  · exact usages_operandAndBody h fun _ _ => rfl
  · exact usages_before h _ fun _ => rfl
  · exact usages_before h _ fun _ => rfl
  · exact usages_before h _ fun _ => rfl
  · exact usages_before h _ fun _ => rfl
  · exact .bind (usages_operand h) fun _ => usages_suffixes h (by simp)

/-- The function is in the tree already. -/
theorem usages_juxtaposed? {func : TermId} (hfunc : (func, u) ∈ ps) :
    (juxtaposed? deep func start).Places u ps fun app => u.of app.toList := by
  have hnone {ps : List (TermId × Usage)} :
      (pure none : Reading (Option TermId)).Places u ps fun app => u.of app.toList :=
    .pure (by simp)
  refine .bind .ask fun c => .bind .ask fun s => .ite (fun _ => hnone) fun _ => ?_
  refine .bind (.bareName func) fun bare => .ite (fun _ => ?_) fun _ => .ite (fun _ => ?_) fun _ =>
    .ite (fun _ => ?_) fun _ => hnone
  · exact .map (usages_call h (by simp [hfunc]))
  · refine .ite (fun _ => hnone) fun _ => .map ?_
    exact usages_braceSuffix h (by simp [hfunc])
  · refine .bind (h.expr _) fun arg => .map (.close ?_)
    simp [Term.places, Term.subterms, Term.children, hfunc]

/-- On the right of `::` stands a type, on the right of any other operator a term of the same usage
as on the left. -/
theorem usages_operatorRound (min : Level) {lhs : TermId} (hlhs : (lhs, u) ∈ ps) :
    (operatorRound deep min start lhs).Places u ps fun round => [(round.answer, u)] := by
  refine .bind .ask fun c => .bind .ask fun s => ?_
  split
  · rename_i op _
    refine .bind .advance fun _ => ?_
    unfold rightOperand
    cases op.form with
    | check =>
        refine .bind (.withUsage (h.expr _)) fun rhs => .map (.close ?_)
        simp [infixTerm, Term.places, hlhs]
    | _ =>
        refine .bind (h.expr _) fun rhs => .map (.close ?_)
        simp [infixTerm, Term.places, Term.subterms, Term.children, hlhs]
  · exact .pure (by simp [Round.answer, hlhs])

theorem usages_climbRound (min : Level) (lhs : TermId) :
    (climbRound deep min start lhs).Places u ((lhs, u) :: ps) fun round => [(round.answer, u)] := by
  refine .bind .ask fun c => .bind .ask fun s =>
    .ite (fun _ => .pure (by simp [Round.answer])) fun _ => ?_
  refine .ite (fun _ => ?_) fun _ => usages_operatorRound h min (by simp)
  refine .bind (usages_juxtaposed? h (by simp)) fun app => ?_
  cases app with
  | none => exact usages_operatorRound h min (by simp)
  | some app => exact .pure (by simp [Round.answer])

theorem usages_expression (min : Level) : (expression deep min).Places u ps fun id => [(id, u)] :=
  .bind .here fun _ => .bind (usages_leading h) fun lhs =>
    .loop (fun id => [(id, u)]) (usages_climbRound h min) (by simp)

/-! ## Statements -/

theorem usages_typedName : (typedName deep).Places u ps fun found =>
    found.elim [] fun (_, _, type) => [(type, .type)] := by
  refine .bind .identifier fun _ => .bind (.expect _) fun _ => .bind h.type fun type => ?_
  exact .bind (.sees _) fun _ => .ite (fun _ => .pure (by simp)) fun _ => .pure (by simp)

omit h in
/-- Statements are terms, and so is every part of an assignment but its type. -/
theorem usages_assignment {name : String} {type : Option TermId} {value : TermId}
    (hvalue : (value, .term) ∈ ps) (htype : Usage.type.of type.toList ⊆ ps) :
    (assignment name start type value).Places .term ps fun id => [(id, .term)] := by
  refine .bind (.addTerm (by simp [Term.places, Term.subterms, Term.children])) fun var => ?_
  refine .bind (.spanOf _) fun stop => ?_
  cases type with
  | none => exact .addTerm (by simp [Term.places, Term.subterms, Term.children, hvalue])
  | some type =>
      have htype : (type, .type) ∈ ps := by simpa using htype
      refine .bind (.spanOf _) fun stop' => .bind (.addTerm ?_) fun target => .addTerm ?_
      · simp [Term.places, htype]
      · simp [Term.places, Term.subterms, Term.children, hvalue]

theorem usages_binding {name : String} {type : Option TermId}
    (htype : Usage.type.of type.toList ⊆ ps) :
    (binding deep name start type).Places .term ps fun id => [(id, .term)] := by
  rw [Usage.of_subset] at htype
  refine .bind (.expect _) fun _ => .bind h.term fun value => .bind (.accept _) fun _ => ?_
  refine .bind .ask fun c => .bind .ask fun s => .ite (fun _ => ?_) fun _ => ?_
  · refine .bind h.statement fun body => .close ?_
    simp +contextual [Term.places, or_imp, htype]
  · exact usages_assignment (by simp) (by simp +contextual [htype])

theorem usages_statement : (statement deep).Places .term ps fun id => [(id, .term)] := by
  refine .bind .ask fun c => ?_
  split
  · exact .bind .identifier fun _ => usages_binding h (by simp)
  · refine .bind (.attempt .typedLet (usages_typedName h) rfl) fun found => ?_
    cases found with
    | none => exact h.expr _
    | some found => exact usages_binding h (by simp)
  · exact h.expr _

/-- The productions of every goal keep trees to the table if the next level does. -/
theorem placing_produce : (produce deep).Placing where
  statement := .withUsage (usages_statement h)
  expr min := usages_expression h min
  pattern := usages_pattern h
  patternAtom := usages_patternAtom h

end Productions

theorem placing_nested (d : Nat) : (nested d).Placing := by
  induction d with
  | zero => exact ⟨.refuse, fun _ => .refuse, .refuse, .refuse⟩
  | succ d ih => exact placing_produce ih

end BendSyntax
