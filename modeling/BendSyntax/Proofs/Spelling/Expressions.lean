import BendSyntax.Proofs.Results
import BendSyntax.Proofs.Spelling.Terms

/-! Operands, expressions and statements keep trees spelled, and with them the productions of every goal at every
depth. -/

namespace BendSyntax

open Reading Grammar

variable {deep : Deeper} {start : Span} {P : Session → Prop}

theorem spelled_nameTerm {lexeme : String} (h : IsIdentifier lexeme) : (nameTerm lexeme).Spelled := by
  unfold nameTerm
  split
  · rename_i hslash
    exact ⟨lexeme, h, by simpa using hslash, rfl⟩
  · exact h

theorem spelled_constant {kind : TokenKind} {term : Term TermId PatternId} (h : constant? kind = some term) :
    term.Spelled := by
  unfold constant? at h
  split at h <;> cases h <;> trivial

section Productions

variable (h : deep.Spelling)

include h

/-! ## Operands -/

theorem spells_constructor : (Grammar.constructor deep start).Spells := by
  refine Triple.advance.bind fun _ => Triple.name.given fun _ hname => Triple.ask.bind fun _ => ?_
  refine Triple.ask.bind fun _ => .ite (fun _ => ?_) fun _ => .closeSpelled hname
  refine Triple.advance.bind fun _ => (Triple.separated _ h.inner).delimited.bind fun args => ?_
  exact (Triple.expect _).bind fun _ => .closeSpelled hname

theorem spells_symbolOrSup : (symbolOrSup deep start).Spells := by
  refine Triple.advance.bind fun _ => Triple.ask.bind fun c => Triple.ask.bind fun s => ?_
  refine .ite (fun _ => ?_) fun _ => ?_
  · exact Triple.name.given fun _ hname => .closeSpelled hname
  refine (h.expr _).within.bind fun label => (Triple.expect _).bind fun _ => ?_
  have hsides : (do
      let left ← deep.inner
      let _ ← expect (.mark .comma)
      return (left, ← deep.inner) : Reading (TermId × TermId)).Spells :=
    h.inner.bind fun _ => (Triple.expect _).bind fun _ => h.inner.bind fun _ => .pure fun _ _ => trivial
  exact hsides.delimited.bind fun _ => (Triple.expect _).bind fun _ => .closeSpelled trivial

theorem spells_hole : (hole deep start).Spells := by
  refine Triple.advance.bind fun _ => Triple.name.given fun _ hname => (Triple.expect _).bind fun _ => ?_
  refine (h.expr _).within.bind fun type => Triple.ask.bind fun _ => Triple.ask.bind fun _ => ?_
  refine .ite (fun _ => ?_) fun _ => .closeSpelled hname
  refine Triple.advance.bind fun _ => (Triple.separated _ h.inner).withUsage.delimited.bind fun ctx => ?_
  exact (Triple.expect _).bind fun _ => .closeSpelled hname

theorem spells_parentheses : (parentheses deep start).Spells := by
  refine Triple.advance.bind fun _ => (Triple.accept _).bind fun _ => ?_
  refine .ite (fun _ => .closeSpelled trivial) fun _ => h.inner.delimited.bind fun first => ?_
  refine (Triple.accept _).bind fun _ => .ite (fun _ => ?_) fun _ => ?_
  · refine (Triple.separated _ h.inner).delimited.bind fun rest => ?_
    exact (Triple.expect _).bind fun _ => .closeSpelled trivial
  · exact (Triple.expect _).bind fun _ => (Triple.widenSpelled _ _).bind fun _ => .pure fun _ _ => trivial

theorem spells_listTerm : (listTerm deep start).Spells := by
  refine Triple.advance.bind fun _ => (Triple.accept _).bind fun _ => ?_
  refine .ite (fun _ => .closeSpelled trivial) fun _ => ?_
  exact (Triple.separated _ h.inner).delimited.bind fun items => (Triple.expect _).bind fun _ => .closeSpelled trivial

omit h in
theorem spells_enumType : (enumType start).Spells := by
  have hsymbol : Triple Session.Spelled (fun _ => True) enumSymbol fun name _ => IsIdentifier name :=
    (Triple.expect _).bind fun _ => Triple.name.given fun _ hname => .pure fun _ _ => hname
  refine Triple.advance.bind fun _ => (Triple.expect _).bind fun _ => ?_
  exact (Triple.separated _ hsymbol).given fun _ hnames => (Triple.expect _).bind fun _ => .closeSpelled hnames

omit h in
theorem spells_reference : (reference start).Spells :=
  Triple.advance.bind fun _ => Triple.name.given fun _ hname => .closeSpelled hname

omit h in
theorem spells_view : (view start).Spells :=
  Triple.advance.bind fun _ => (Triple.expect _).bind fun _ => Triple.name.given fun _ hname =>
    (Triple.expect _).bind fun _ => .closeSpelled hname

theorem spells_compound (c : Cursor) : (compound deep c start).Spells := by
  unfold compound
  split
  · exact spells_constructor h
  · exact spells_symbolOrSup h
  · exact spells_hole h
  · exact spells_parentheses h
  · exact spells_listTerm h
  · exact .ite (fun _ => spells_refl) fun _ => .unexpected _
  · exact spells_enumType
  · exact spells_reference
  · exact spells_view
  · exact .unexpected _

theorem spells_operand : (operand deep).Spells := by
  refine Triple.named.given fun c hc => ?_
  refine .ite (fun hkind => ?_) fun _ => .ite (fun _ => ?_) fun _ => ?_
  · exact Triple.advance.bind fun _ => .addSpelled (spelled_nameTerm (hc hkind))
  · exact (normal_literal _).given fun _ hvalue => Triple.advance.bind fun _ => .addSpelled hvalue
  · split
    · rename_i term hterm
      exact Triple.advance.bind fun _ => .addSpelled (spelled_constant hterm)
    · exact spells_compound h c

/-! ## Expressions -/

theorem spells_leading : (leading deep).Spells := by
  refine Triple.ask.bind fun c => ?_
  dsimp only
  split
  · exact spells_before h _ fun _ => trivial
  · exact spells_before h _ fun _ => trivial
  · exact spells_tilde h
  · exact spells_lambda h
  · exact spells_fixedPoint h
  · exact spells_all h
  · exact spells_any h
  · exact spells_ifElse h
  · exact spells_fork h
  · exact spells_matchOn h
  · exact spells_useIn h
  · exact spells_operandAndBody h fun _ _ => trivial
  · exact spells_operandAndBody h fun _ _ => trivial
  · exact spells_before h _ fun _ => trivial
  · exact spells_before h _ fun _ => trivial
  · exact spells_before h _ fun _ => trivial
  · exact spells_before h _ fun _ => trivial
  · exact (spells_operand h).bind fun _ => spells_suffixes h

theorem spells_juxtaposed? (func : TermId) : (juxtaposed? deep func start).Spells := by
  have hnone : (pure none : Reading (Option TermId)).Spells := .pure fun _ _ => trivial
  refine Triple.ask.bind fun c => Triple.ask.bind fun s => .ite (fun _ => hnone) fun _ => Triple.ask.bind fun _ => ?_
  refine .ite (fun _ => .map (spells_call h)) fun _ => .ite (fun _ => ?_) fun _ => .ite (fun _ => ?_) fun _ => hnone
  · exact .ite (fun _ => hnone) fun _ => .map (spells_braceSuffix h)
  · exact (h.expr _).bind fun _ => .map (.closeSpelled trivial)

theorem spells_operatorRound (min : Level) (lhs : TermId) : (operatorRound deep min start lhs).Spells := by
  refine Triple.ask.bind fun c => Triple.ask.bind fun s => ?_
  split
  · rename_i op _
    have hoperand : (rightOperand deep op).Spells := by
      unfold rightOperand
      split
      · exact (h.expr _).withUsage
      · exact h.expr _
    refine Triple.advance.bind fun _ => hoperand.bind fun rhs => .map (.closeSpelled ?_)
    cases op.form <;> trivial
  · exact .pure fun _ _ => trivial

theorem spells_climbRound (min : Level) (lhs : TermId) : (climbRound deep min start lhs).Spells := by
  refine Triple.ask.bind fun c => Triple.ask.bind fun s => .ite (fun _ => .pure fun _ _ => trivial) fun _ => ?_
  refine .ite (fun _ => ?_) fun _ => spells_operatorRound h min lhs
  refine (spells_juxtaposed? h lhs).bind fun app => ?_
  cases app with
  | none => exact spells_operatorRound h min lhs
  | some app => exact .pure fun _ _ => trivial

theorem spells_expression (min : Level) : (expression deep min).Spells :=
  Triple.here.bind fun _ => (spells_leading h).bind fun lhs => .maintains_loop (spells_climbRound h min) lhs

/-! ## Statements -/

theorem named_typedName : Triple Session.Spelled P (typedName deep) fun found _ => ∀ x ∈ found, IsIdentifier x.1 := by
  refine Triple.name.given fun x hname => (Triple.expect _).bind fun _ => h.type.bind fun type => ?_
  refine (Triple.sees _).bind fun _ => .ite (fun _ => .pure fun _ _ => ?_) fun _ => .pure fun _ _ => by simp
  simpa using hname

omit h in
theorem spells_assignment {name : String} (hname : IsIdentifier name) {type : Option TermId} {value : TermId} :
    (assignment name start type value).Spells := by
  have hvar : (addTerm (.var name) start).Spells := .addSpelled hname
  refine hvar.bind fun var => Triple.ask.bind fun stop => ?_
  split
  · rename_i type
    refine Triple.ask.bind fun stop' => ?_
    have htarget : (addTerm (.check var type) (start.hull stop')).Spells := .addSpelled trivial
    exact htarget.bind fun _ => .addSpelled trivial
  · exact .addSpelled trivial

theorem spells_binding {name : String} (hname : IsIdentifier name) {type : Option TermId} :
    (binding deep name start type).Spells := by
  refine (Triple.expect _).bind fun _ => h.term.bind fun value => ?_
  refine (Triple.accept _).bind fun _ => Triple.ask.bind fun c => Triple.ask.bind fun s => ?_
  refine .ite (fun _ => ?_) fun _ => ?_
  · exact h.statement.bind fun _ => .closeSpelled hname
  · exact spells_assignment hname

theorem spells_statement : (statement deep).Spells := by
  refine Triple.ask.bind fun c => ?_
  split
  · exact Triple.name.given fun _ hname => spells_binding h hname
  · have htyped : Triple Session.Spelled (fun _ => True) (typedName? deep) fun found _ => ∀ x ∈ found, IsIdentifier x.1 :=
      .attempt .typedLet (named_typedName h) (by simp)
    refine htyped.given fun found hfound => ?_
    split
    · exact spells_binding h (hfound _ rfl)
    · exact h.expr _
  · exact h.expr _

/-- The productions of every goal keep trees spelled if the next level does. -/
theorem spelling_produce : (produce deep).Spelling where
  statement := (spells_statement h).withUsage
  expr min := spells_expression h min
  pattern := spells_pattern h
  patternAtom := spells_patternAtom h

end Productions

theorem spelling_nested (d : Nat) : (nested d).Spelling := by
  induction d with
  | zero => exact ⟨.refuse, fun _ => .refuse, .refuse, .refuse⟩
  | succ d ih => exact spelling_produce ih

/-! ## Accepted texts -/

theorem spells_wholeStatement (h : deep.Spelling) : (wholeStatement deep).Spells :=
  h.statement.bind fun _ => (Triple.sees _).bind fun _ => .ite (fun _ => .pure fun _ _ => trivial) fun _ =>
    .unexpected _

theorem Session.spelled_initial (source : String) : (initial (Lexing.ofText source)).Spelled where
  tree := .empty
  named _ ht := Lexing.named_of_mem ht

/-- The names of an accepted text are names. -/
theorem Expression.spelled {source : String} {config : Config} {e : Expression}
    (h : Expression.ofText source config = .ok e) : e.tree.Spelled := by
  rw [Expression.ofText, Expression.read_eq] at h
  obtain ⟨s, hrun, htree, -⟩ := Outcome.ok_of_expression h
  obtain ⟨hs, -⟩ : (Reading.onText _ config true source).settled.Spelled ∧ _ :=
    spells_wholeStatement (spelling_nested config.maxDepth) _ _ (Session.spelled_initial source) trivial
  rw [hrun] at hs
  exact htree ▸ hs.tree

end BendSyntax
