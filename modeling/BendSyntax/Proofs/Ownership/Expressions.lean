import BendSyntax.Proofs.Ownership.Terms

/-! What operands, expressions and statements own, and with them the productions of every goal
at every depth. -/

namespace BendSyntax

open Reading Grammar Owner

variable {config : Config} {deep : Deeper} {start : Span}

section Productions

variable (h : deep.Yields config)

include h

/-! ## Operands -/

theorem yields_constructor : Yields config (Grammar.constructor deep start) := by
  refine idle_advance.skip fun _ => idle_identifier.skip fun _ => idle_cursor.skip fun _ => ?_
  refine idle_slot.skip fun _ => .ite (fun _ => ?_) fun _ => owns_close rfl
  refine idle_advance.skip fun _ => (yields_separated _ h.inner).delimited.bind fun args => ?_
  exact (idle_expect _).skip fun _ => owns_close (by simp [held, Term.children])

theorem yields_symbolOrSup : Yields config (symbolOrSup deep start) := by
  refine idle_advance.skip fun _ => idle_cursor.skip fun c => idle_slot.skip fun s => ?_
  refine .ite (fun _ => idle_identifier.skip fun _ => owns_close rfl) fun _ => ?_
  refine (h.expr _).within.bind fun label => (idle_expect _).skip fun _ => ?_
  have hsides : Yields config (do
      let left ← deep.inner
      let _ ← expect (.mark .comma)
      return (left, ← deep.inner)) := by
    refine h.inner.bind fun left => (idle_expect _).skip fun _ => h.inner.bind fun right => ?_
    exact .pure (by simp [held, -Multiset.coe_singleton])
  refine hsides.delimited.bind fun sides => (idle_expect _).skip fun _ => ?_
  obtain ⟨left, right⟩ := sides
  exact owns_close (by simp [held, Term.children, -Multiset.coe_singleton])

theorem yields_hole : Yields config (hole deep start) := by
  refine idle_advance.skip fun _ => idle_identifier.skip fun _ => (idle_expect _).skip fun _ => ?_
  refine (h.expr _).within.bind fun type => idle_slot.skip fun _ => idle_cursor.skip fun _ => ?_
  refine .ite (fun _ => ?_) fun _ => owns_close (by simp [held, Term.children])
  refine idle_advance.skip fun _ => ?_
  refine (yields_separated _ h.inner).withUsage.delimited.bind fun ctx => ?_
  exact (idle_expect _).skip fun _ =>
    owns_close (by simp [held, Term.children, -Multiset.coe_singleton])

theorem yields_parentheses : Yields config (parentheses deep start) := by
  refine idle_advance.skip fun _ => (idle_accept _).skip fun _ => ?_
  refine .ite (fun _ => owns_close rfl) fun _ => h.inner.delimited.bind fun first => ?_
  refine (idle_accept _).skip fun _ => .ite (fun _ => ?_) fun _ => ?_
  · refine (yields_separated _ h.inner).delimited.bind fun rest => (idle_expect _).skip fun _ => ?_
    exact owns_close (by simp [held, Term.children, -Multiset.coe_singleton])
  · exact (idle_expect _).skip fun stop => (idle_widen _ _).skip fun _ => .pure (zero_add _)

theorem yields_listTerm : Yields config (listTerm deep start) := by
  refine idle_advance.skip fun _ => (idle_accept _).skip fun _ => ?_
  refine .ite (fun _ => owns_close rfl) fun _ => ?_
  refine (yields_separated _ h.inner).delimited.bind fun items => (idle_expect _).skip fun _ => ?_
  exact owns_close (by simp [held, Term.children])

omit h in
theorem yields_enumType : Yields config (enumType start) := by
  have hsymbol : Yields config enumSymbol :=
    (idle_expect _).skip fun _ => idle_identifier.skip fun _ => .pure rfl
  refine idle_advance.skip fun _ => (idle_expect _).skip fun _ => ?_
  refine (yields_separated _ hsymbol).bind fun symbols => (idle_expect _).skip fun _ => ?_
  have hsymbols : held symbols = 0 := by simp [held, refs]
  exact owns_close (by rw [hsymbols]; rfl)

omit h in
theorem yields_reference : Yields config (reference start) :=
  idle_advance.skip fun _ => idle_identifier.skip fun _ => owns_close rfl

omit h in
theorem yields_view : Yields config (view start) :=
  idle_advance.skip fun _ => (idle_expect _).skip fun _ => idle_identifier.skip fun _ =>
    (idle_expect _).skip fun _ => owns_close rfl

theorem yields_compound (c : Cursor) : Yields config (compound deep c start) := by
  unfold compound
  split
  · exact yields_constructor h
  · exact yields_symbolOrSup h
  · exact yields_hole h
  · exact yields_parentheses h
  · exact yields_listTerm h
  · exact .ite (fun _ => yields_refl) fun _ => owns_unexpected _
  · exact yields_enumType
  · exact yields_reference
  · exact yields_view
  · exact owns_unexpected _

omit h in
theorem children_nameTerm (lexeme : String) : (nameTerm lexeme).children = [] := by
  unfold nameTerm
  split <;> rfl

omit h in
theorem children_constant {kind : TokenKind} {term : Term TermId PatternId}
    (hterm : constant? kind = some term) : term.children = [] := by
  unfold constant? at hterm
  split at hterm <;> cases hterm <;> rfl

theorem yields_operand : Yields config (operand deep) := by
  refine idle_cursor.skip fun c => .ite (fun _ => ?_) fun _ => .ite (fun _ => ?_) fun _ => ?_
  · exact idle_advance.skip fun _ => owns_addTerm (by rw [children_nameTerm]; rfl)
  · exact (idle_literal _).skip fun _ => idle_advance.skip fun _ => owns_addTerm rfl
  · split
    · exact idle_advance.skip fun _ => owns_addTerm (by rw [children_constant ‹_›]; rfl)
    · exact yields_compound h c

/-! ## Expressions -/

theorem yields_leading : Yields config (leading deep) := by
  refine idle_cursor.skip fun c => ?_
  dsimp only
  split
  · exact yields_before h _ fun _ => rfl
  · exact yields_before h _ fun _ => rfl
  · exact yields_tilde h
  · exact yields_lambda h
  · exact yields_fixedPoint h
  · exact yields_all h
  · exact yields_any h
  · exact yields_ifElse h
  · exact yields_fork h
  · exact yields_matchOn h
  · exact yields_useIn h
  · exact yields_operandAndBody h fun _ _ => rfl
  · exact yields_operandAndBody h fun _ _ => rfl
  · exact yields_before h _ fun _ => rfl
  · exact yields_before h _ fun _ => rfl
  · exact yields_before h _ fun _ => rfl
  · exact yields_before h _ fun _ => rfl
  · exact (yields_operand h).seq fun head => owns_suffixes h

/-- Either the function is taken over or nothing happens. -/
theorem owns_juxtaposed? {func : TermId} :
    Owns config (held func) (juxtaposed? deep func start)
      fun app => if app.isSome then held app else held func := by
  refine idle_cursor.skip fun c => idle_slot.skip fun s => .ite (fun _ => .pure rfl) fun _ => ?_
  refine (idle_bareName func).skip fun bare => .ite (fun _ => ?_) fun _ => .ite (fun _ => ?_) fun _ => ?_
  · exact (owns_call h).map fun _ => by simp [held]
  · refine .ite (fun _ => .pure rfl) fun _ => ?_
    exact (owns_braceSuffix h).map fun _ => by simp [held]
  · refine .ite (fun _ => ?_) fun _ => .pure rfl
    refine (h.expr _).bind fun arg => ?_
    refine (owns_close (k := held func + held arg) ?_).map fun _ => by simp [held]
    simp [held, Term.children, -Multiset.coe_singleton]

theorem owns_operatorRound {min : Level} {lhs : TermId} :
    Owns config (held lhs) (operatorRound deep min start lhs) (Round.held held) := by
  refine idle_cursor.skip fun c => idle_slot.skip fun s => ?_
  split
  · rename_i op _
    have hoperand : Yields config (rightOperand deep op) := by
      unfold rightOperand
      split
      · exact (h.expr _).withUsage
      · exact h.expr _
    refine idle_advance.skip fun _ => hoperand.bind fun rhs => (owns_close ?_).map fun _ => rfl
    cases op.form <;> simp [held, infixTerm, Term.children, -Multiset.coe_singleton]
  · exact .pure rfl

theorem owns_climbRound {min : Level} {lhs : TermId} :
    Owns config (held lhs) (climbRound deep min start lhs) (Round.held held) := by
  refine idle_cursor.skip fun c => idle_slot.skip fun s => .ite (fun _ => .pure rfl) fun _ => ?_
  refine .ite (fun _ => (owns_juxtaposed? h).seq fun app => ?_) fun _ => owns_operatorRound h
  cases app with
  | none => exact owns_operatorRound h
  | some app => exact .pure (by simp [held, Round.held])

theorem yields_expression (min : Level) : Yields config (expression deep min) :=
  idle_here.skip fun _ => (yields_leading h).seq fun lhs =>
    owns_loop (fun _ => owns_climbRound h) lhs

/-! ## Statements -/

theorem offers_typedName : Offers config 0 (typedName deep) held := by
  refine idle_identifier.skipOffers fun (name, span) => (idle_expect _).skipOffers fun _ => ?_
  refine h.type.offers fun type => (idle_sees _).skipOffers fun _ => ?_
  exact .ite (fun _ => .some (by simp [held])) fun _ => .none

omit h in
theorem owns_assignment {name : String} {type : Option TermId} {value : TermId} :
    Owns config (held type + held value) (assignment name start type value) held := by
  have hvar : Yields config (addTerm (.var name) start) := owns_addTerm rfl
  refine hvar.bind fun var => (idle_spanOf value).skip fun stop => ?_
  split
  · rename_i type
    refine (idle_spanOf type).skip fun stop? => ?_
    have htarget : Owns config (held value + (held var + held type))
        (addTerm (.check var type) (start.hull stop?)) fun target => held value + held target :=
      (owns_addTerm (by simp [held, Term.children, -Multiset.coe_singleton])).frame _
    refine (htarget.of_eq ?_).seq fun target => owns_addTerm ?_
    · rw [show held (some type) = held type by simp [held]]
      ac_rfl
    · rw [add_comm]
      simp [held, Term.children, -Multiset.coe_singleton]
  · refine owns_addTerm ?_
    rw [add_comm]
    simp [held, Term.children, -Multiset.coe_singleton]

theorem owns_binding {name : String} {type : Option TermId} :
    Owns config (held type) (binding deep name start type) held := by
  refine (idle_expect _).skip fun _ => h.term.bind fun value => (idle_accept _).skip fun _ => ?_
  refine idle_cursor.skip fun c => idle_slot.skip fun s => .ite (fun _ => ?_) fun _ => owns_assignment
  refine h.statement.bind fun body => owns_close ?_
  cases type <;> simp [held, Term.children, -Multiset.coe_singleton]

theorem yields_statement : Yields config (statement deep) := by
  refine idle_cursor.skip fun c => ?_
  split
  · exact idle_identifier.skip fun (name, span) => (owns_binding h).of_eq rfl
  · refine (yields_attempt .typedLet (offers_typedName h)).bind fun found => ?_
    split
    · refine (owns_binding h).of_eq ?_
      simp [held]
    · exact (h.expr _).of_eq (zero_add _)
  · exact h.expr _

/-- The productions of every goal add the nodes of their answers if the next level does. -/
theorem yields_produce : (produce deep).Yields config := by
  intro g
  cases g with
  | statement => exact (yields_statement h).withUsage
  | expr min => exact yields_expression h min
  | pattern => exact yields_pattern h
  | patternAtom => exact yields_patternAtom h

end Productions

theorem yields_nested (d : Nat) : (nested d).Yields config := by
  induction d with
  | zero => exact fun g => (idle_asks _).skip fun _ => idle_here.skip fun _ => .fail _
  | succ d ih => exact yields_produce ih

end BendSyntax
