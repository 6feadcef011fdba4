import BendSyntax.Proofs.Ownership.Expressions
import BendSyntax.Proofs.Steps.Terms

/-! The steps of operands, expressions and statements, and with them those of the productions of
every goal at every depth. -/

namespace BendSyntax

open Reading Grammar Owner

variable {tokens : Tokens} {known : List Ref} {deep : Deeper} {start : Span}

section Productions

variable (h : deep.Steady tokens)

include h

/-! ## Operands -/

theorem Deeper.Steady.innerUpTo (bracket : TokenKind) :
    Keeps tokens [] (separated bracket deep.inner) :=
  .separated _ h.inner (h.advances_expr _)

theorem keeps_constructor : Keeps tokens known (Grammar.constructor deep start) := by
  refine Keeps.advance.skip fun _ => Keeps.identifier.skip fun _ => Keeps.cursor.skip fun _ => ?_
  refine Keeps.slot.skip fun _ => .ite (fun _ => ?_) fun _ => .close (List.nil_subset _) trivial
  refine Keeps.advance.skip fun _ => (h.innerUpTo _).delimited.bind fun args => ?_
  exact (Keeps.expect _).skip fun _ => .close (by simp [Term.children]) trivial

theorem keeps_symbolOrSup : Keeps tokens known (symbolOrSup deep start) := by
  refine Keeps.advance.skip fun _ => Keeps.cursor.skip fun c => Keeps.slot.skip fun s => ?_
  refine .ite (fun _ => ?_) fun _ => ?_
  · exact Keeps.identifier.skip fun _ => .close (List.nil_subset _) trivial
  refine (h.expr _).within.bind fun label => (Keeps.expect _).skip fun _ => ?_
  have hsides : Keeps tokens [] (do
      let left ← deep.inner
      let _ ← expect (.mark .comma)
      return (left, ← deep.inner)) := by
    refine h.inner.bind fun left => (Keeps.expect _).skip fun _ => h.inner.bind fun right => ?_
    exact .pure (by simp)
  refine hsides.delimited.bind fun sides => (Keeps.expect _).skip fun _ => ?_
  obtain ⟨left, right⟩ := sides
  exact .close (by simp [Term.children]) trivial

theorem keeps_hole : Keeps tokens known (hole deep start) := by
  refine Keeps.advance.skip fun _ => Keeps.identifier.skip fun _ =>
    (Keeps.expect _).skip fun _ => ?_
  refine (h.expr _).within.bind fun type => Keeps.slot.skip fun _ => Keeps.cursor.skip fun _ => ?_
  refine .ite (fun _ => ?_) fun _ => .close (by simp [Term.children]) trivial
  refine Keeps.advance.skip fun _ => (h.innerUpTo _).withUsage.delimited.bind fun ctx => ?_
  exact (Keeps.expect _).skip fun _ => .close (by simp [Term.children]) trivial

theorem keeps_parentheses : Keeps tokens known (parentheses deep start) := by
  refine Keeps.advance.skip fun _ => (Keeps.accept _).skip fun _ => ?_
  refine .ite (fun _ => .close (List.nil_subset _) trivial) fun _ =>
    h.inner.delimited.bind fun first => ?_
  refine (Keeps.accept _).skip fun _ => .ite (fun _ => ?_) fun _ => ?_
  · refine (h.innerUpTo _).delimited.bind fun rest => (Keeps.expect _).skip fun _ => ?_
    exact .close (by simp [Term.children]) trivial
  · refine (Keeps.expect _).given (.expect _) fun stop hstop => ?_
    exact (Keeps.widen (by simp) (Span.le_hull start hstop)).seq fun _ => .pure (by simp)

theorem keeps_listTerm : Keeps tokens known (listTerm deep start) := by
  refine Keeps.advance.skip fun _ => (Keeps.accept _).skip fun _ => ?_
  refine .ite (fun _ => .close (List.nil_subset _) trivial) fun _ => ?_
  refine (h.innerUpTo _).delimited.bind fun items => (Keeps.expect _).skip fun _ => ?_
  exact .close (by simp [Term.children]) trivial

omit h in
theorem keeps_enumType : Keeps tokens known (enumType start) := by
  have hsymbol : Keeps tokens [] enumSymbol :=
    (Keeps.expect _).skip fun _ => Keeps.identifier.skip fun _ => .pure (List.nil_subset _)
  have hadvances : enumSymbol.Advances := (Advances.expect (by simp)).bind _
  refine Keeps.advance.skip fun _ => (Keeps.expect _).skip fun _ => ?_
  refine (Keeps.separated _ hsymbol hadvances).bind fun symbols => (Keeps.expect _).skip fun _ => ?_
  exact .close (List.nil_subset _) trivial

omit h in
theorem keeps_reference : Keeps tokens known (reference start) :=
  Keeps.advance.skip fun _ => Keeps.identifier.skip fun _ => .close (List.nil_subset _) trivial

omit h in
theorem keeps_view : Keeps tokens known (view start) :=
  Keeps.advance.skip fun _ => (Keeps.expect _).skip fun _ => Keeps.identifier.skip fun _ =>
    (Keeps.expect _).skip fun _ => .close (List.nil_subset _) trivial

theorem keeps_compound (c : Cursor) : Keeps tokens known (compound deep c start) := by
  unfold compound
  split
  · exact keeps_constructor h
  · exact keeps_symbolOrSup h
  · exact keeps_hole h
  · exact keeps_parentheses h
  · exact keeps_listTerm h
  · exact .ite (fun _ => keeps_refl) fun _ => .unexpected _
  · exact keeps_enumType
  · exact keeps_reference
  · exact keeps_view
  · exact .unexpected _

omit h in
theorem named_nameTerm (lexeme : String) : (nameTerm lexeme).Named := by
  unfold nameTerm
  split
  · exact cutAtSlashes_ne_nil _
  · trivial

omit h in
theorem named_constant {kind : TokenKind} {term : Term TermId PatternId}
    (hterm : constant? kind = some term) : term.Named := by
  unfold constant? at hterm
  split at hterm <;> cases hterm <;> trivial

theorem keeps_operand : Keeps tokens known (operand deep) := by
  refine Keeps.cursor.given .cursor fun c hspan => ?_
  refine .ite (fun _ => ?_) fun _ => .ite (fun _ => ?_) fun _ => ?_
  · refine Keeps.advance.skip fun _ => .addTerm hspan ?_ (named_nameTerm _)
    rw [children_nameTerm]
    exact List.nil_subset _
  · exact (keeps_literal _).skip fun _ => Keeps.advance.skip fun _ =>
      .addTerm hspan (List.nil_subset _) trivial
  · split
    · rename_i term hterm
      refine Keeps.advance.skip fun _ => .addTerm hspan ?_ (named_constant hterm)
      rw [children_constant hterm]
      exact List.nil_subset _
    · exact keeps_compound h c

/-! ## Expressions -/

theorem keeps_leading : Keeps tokens known (leading deep) := by
  refine Keeps.cursor.skip fun c => ?_
  dsimp only
  split
  · exact keeps_before h _ (fun _ => rfl) fun _ => trivial
  · exact keeps_before h _ (fun _ => rfl) fun _ => trivial
  · exact keeps_tilde h
  · exact keeps_lambda h
  · exact keeps_fixedPoint h
  · exact keeps_all h
  · exact keeps_any h
  · exact keeps_ifElse h
  · exact keeps_fork h
  · exact keeps_matchOn h
  · exact keeps_useIn h
  · exact keeps_operandAndBody h (fun _ _ => rfl) fun _ _ => trivial
  · exact keeps_operandAndBody h (fun _ _ => rfl) fun _ _ => trivial
  · exact keeps_before h _ (fun _ => rfl) fun _ => trivial
  · exact keeps_before h _ (fun _ => rfl) fun _ => trivial
  · exact keeps_before h _ (fun _ => rfl) fun _ => trivial
  · exact keeps_before h _ (fun _ => rfl) fun _ => trivial
  · exact (keeps_operand h).bind fun head => keeps_suffixes h (by simp)

omit h in
/-- Nothing begins at the end of a text. -/
theorem advances_leading : (leading deep).Advances := by
  intro c
  by_cases hkind : c.kind = .eof
  · have hoperand : (operand deep).AdvancesFrom c := .look (by
      simpa [hkind, isLiteral, constant?, compound] using .unexpected _)
    exact .look (by simpa [hkind] using hoperand.bind _)
  · exact .of_takes (takes_leading deep) hkind

theorem keeps_juxtaposed? {func : TermId} (hfunc : .term func ∈ known) :
    Keeps tokens known (juxtaposed? deep func start) := by
  have hnone : Keeps tokens known (pure none : Reading (Option TermId)) := .pure (List.nil_subset _)
  refine Keeps.cursor.skip fun c => Keeps.slot.skip fun s => .ite (fun _ => hnone) fun _ => ?_
  refine (Keeps.bareName hfunc).seq fun bare => .mono ?_ (List.subset_append_right _ _)
  refine .ite (fun _ => ?_) fun _ => .ite (fun _ => ?_) fun _ => ?_
  · exact (keeps_call h hfunc).map fun _ => by simp
  · refine .ite (fun _ => hnone) fun _ => ?_
    exact (keeps_braceSuffix h hfunc).map fun _ => by simp
  · refine .ite (fun _ => ?_) fun _ => hnone
    refine (h.expr _).bind fun arg => .map (.close ?_ trivial) fun _ => by simp
    simp [Term.children, hfunc]

theorem keeps_operatorRound (min : Level) (lhs : TermId) :
    Keeps tokens (refs lhs) (operatorRound deep min start lhs) := by
  refine Keeps.cursor.skip fun c => Keeps.slot.skip fun s => ?_
  split
  · rename_i op _
    have hoperand : Keeps tokens [] (rightOperand deep op) := by
      unfold rightOperand
      split
      · exact (h.expr _).withUsage
      · exact h.expr _
    refine Keeps.advance.skip fun _ => hoperand.bind fun rhs => .map (.close ?_ ?_) fun _ => by simp
    · cases op.form <;> simp [infixTerm, Term.children]
    · cases op.form <;> trivial
  · exact .pure (by simp)

theorem keeps_climbRound (min : Level) (lhs : TermId) :
    Keeps tokens (refs lhs) (climbRound deep min start lhs) := by
  refine Keeps.cursor.skip fun c => Keeps.slot.skip fun s =>
    .ite (fun _ => .pure (by simp)) fun _ => ?_
  refine .ite (fun _ => ?_) fun _ => keeps_operatorRound h _ _
  refine (keeps_juxtaposed? h (by simp)).seq fun app => ?_
  cases app with
  | none => exact (keeps_operatorRound h _ _).mono (by simp)
  | some app => exact .pure (by simp)

theorem keeps_expression (htakes : ∀ min, (deep.expr min).Takes) (min : Level) :
    Keeps tokens known (expression deep min) := by
  refine Keeps.here.skip fun start => (keeps_leading h).bind fun lhs => ?_
  refine .loopFrom (keeps_climbRound h min) ?_ (List.subset_append_left _ _)
  rintro lhs c setting s a t rfl heof ht
  exact index_lt_of_more htakes heof ht

omit h in
theorem advances_expression (min : Level) : (expression deep min).Advances :=
  fun c => .stay (stays_cursor.bind fun _ => stays_asks _) fun _ => (advances_leading c).bind _

/-! ## Statements -/

theorem keeps_typedName : Keeps tokens known (typedName deep) := by
  refine Keeps.identifier.skip fun (name, span) => (Keeps.expect _).skip fun _ => ?_
  refine h.type.bind fun type => (Keeps.sees _).skip fun _ => ?_
  exact .ite (fun _ => .pure (by simp)) fun _ => .pure (List.nil_subset _)

omit h in
/-- The span of the name is in order. -/
theorem answers_typedName : Answers tokens known (typedName deep)
    fun found => ∀ name span type, found = some (name, span, type) → span.start ≤ span.stop := by
  rintro setting s found t hs hknown ht name span type rfl
  obtain ⟨⟨name', span'⟩, u, hu, ht⟩ := ok_of_bind ht
  have hspan := Answers.identifier setting s _ u hs hknown hu
  dsimp only at ht
  obtain ⟨_, _, -, ht⟩ := ok_of_bind ht
  obtain ⟨type', _, -, ht⟩ := ok_of_bind ht
  obtain ⟨seen, _, -, ht⟩ := ok_of_bind ht
  cases seen with
  | true =>
      cases ht
      exact hspan
  | false => cases ht

omit h in
theorem keeps_assignment {name : String} {type : Option TermId} {value : TermId}
    (hstart : start.start ≤ start.stop) (htype : refs type ⊆ known) (hvalue : .term value ∈ known) :
    Keeps tokens known (assignment name start type value) := by
  have hvar : Keeps tokens [] (addTerm (.var name) start) :=
    .addTerm hstart (List.nil_subset _) trivial
  refine hvar.bind fun var => ?_
  refine (Keeps.spanOf (by simp [hvalue])).given (.spanOf (by simp [hvalue])) fun stop hstop => ?_
  have hspan := Span.le_hull start hstop
  split
  · rename_i type
    have hmem : .term type ∈ known := htype (by simp)
    refine (Keeps.spanOf (by simp [hmem])).given (.spanOf (by simp [hmem])) fun stop' hstop' => ?_
    have htarget : Keeps tokens (refs var ++ known)
        (addTerm (.check var type) (start.hull stop')) :=
      .addTerm (Span.le_hull start hstop') (by simp [Term.children, hmem]) trivial
    refine (htarget.mono (List.subset_append_right _ _)).seq fun target => ?_
    · exact .addTerm hspan (by simp [Term.children, hvalue]) trivial
  · exact .addTerm hspan (by simp [Term.children, hvalue]) trivial

theorem keeps_binding {name : String} {type : Option TermId} (hstart : start.start ≤ start.stop)
    (htype : refs type ⊆ known) : Keeps tokens known (binding deep name start type) := by
  refine (Keeps.expect _).skip fun _ => h.term.bind fun value => (Keeps.accept _).skip fun _ => ?_
  refine Keeps.cursor.skip fun c => Keeps.slot.skip fun s => .ite (fun _ => ?_) fun _ => ?_
  · refine h.statement.bind fun body => .close ?_ trivial
    cases type with
    | none => simp [Term.children]
    | some type =>
        have hmem : .term type ∈ known := htype (by simp)
        simp [Term.children, hmem]
  · exact keeps_assignment hstart (List.subset_append_of_subset_right _ htype) (by simp)

theorem keeps_statement : Keeps tokens known (statement deep) := by
  refine Keeps.cursor.skip fun c => ?_
  split
  · refine Keeps.identifier.given .identifier fun (name, span) hspan => ?_
    exact keeps_binding h hspan (List.nil_subset _)
  · refine (Keeps.attempt .typedLet (keeps_typedName h)).given (answers_typedName.attempt nofun)
      fun found hfound => ?_
    split
    · exact keeps_binding h (hfound _ _ _ rfl) (by simp)
    · exact (h.expr _).mono (List.nil_subset _)
  · exact (h.expr _).mono (List.nil_subset _)

theorem advances_statement : (statement deep).Advances := by
  refine fun c => .look ?_
  split
  · exact Advances.identifier.bind _ c
  · exact (TriesFrom.attempt .typedLet (Advances.identifier.bind _ c)).advances
      (h.advances_expr _ c)
  · exact h.advances_expr _ c

omit h in
theorem advances_patternAtom : (patternAtom deep).Advances := by
  intro c
  by_cases hkind : c.kind = .eof
  · exact .look (by simpa [hkind] using .unexpected _)
  have hadvance : advance.AdvancesFrom c := .advance hkind
  have hliteral (k : TokenKind) : (literalPattern c.span k).AdvancesFrom c :=
    .stay (stays_literal k) fun _ => hadvance.bind _
  refine .look ?_
  dsimp only
  split
  · exact hadvance.bind _
  · refine .ite (fun _ => .look ?_) fun _ => hliteral _
    split
    · exact hadvance.bind _
    · exact .fail _
  any_goals exact hliteral _
  any_goals exact hadvance.bind _
  exact .unexpected _

omit h in
theorem advances_pattern : (pattern deep).Advances :=
  fun c => .stay (stays_cursor.bind fun _ => stays_asks _) fun _ => (advances_patternAtom c).bind _

/-- The productions of every goal are steady if the next level is. -/
theorem steady_produce (htakes : ∀ min, (deep.expr min).Takes) : (produce deep).Steady tokens where
  keeps
    | .statement => (keeps_statement h).withUsage
    | .expr min => keeps_expression h htakes min
    | .pattern => keeps_pattern h
    | .patternAtom => keeps_patternAtom h
  advances
    | .statement => (advances_statement h).within (·.withUsage .term)
    | .expr min => advances_expression min
    | .pattern => advances_pattern
    | .patternAtom => advances_patternAtom

end Productions

theorem steady_nested (tokens : Tokens) (d : Nat) : (nested d).Steady tokens := by
  induction d with
  | zero =>
      constructor
      · exact fun g => Keeps.config.skip fun _ => Keeps.here.skip fun _ => .fail _
      · exact fun g c => .stay (stays_asks _) fun _ =>
          .stay (stays_cursor.bind fun _ => stays_asks _) fun _ => .fail _
  | succ d ih => exact steady_produce ih (takes_nested_expr d)

end BendSyntax
