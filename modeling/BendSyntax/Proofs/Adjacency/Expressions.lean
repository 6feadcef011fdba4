import BendSyntax.Proofs.Adjacency.Terms

/-! Operands, expressions and statements keep the tree joined. An expression ends where its last
token ends, also where parentheses have widened it. -/

namespace BendSyntax

open Reading Grammar

variable {source : String} {place : Nat} {old : Tree} {deep : Deeper} {c : Cursor} {start : Span}
  {P : Session → Prop} {k : TokenKind} {head : TermId}

theorem anchors_nameTerm (lexeme : String) : (nameTerm lexeme).anchors = [] := by
  unfold nameTerm
  split <;> rfl

theorem anchors_constant {term : Term TermId PatternId} (h : constant? k = some term) :
    term.anchors = [] := by
  unfold constant? at h
  split at h <;> cases h <;> rfl

/-! ## Parentheses -/

/-- A term is the last one that was added since `old`, and does not reach beyond the last token. -/
structure Session.Latest (old : Tree) (id : TermId) (s : Session) : Prop where
  added : old.terms.size ≤ id.index
  last : id.index + 1 = s.tree.terms.size
  stop : (s.tree.span id).stop ≤ s.cursor.last.stop

theorem Session.Ends.latest {s : Session} (h : s.Ends old head) : s.Latest old head :=
  ⟨h.added, h.last, Nat.le_of_eq h.stop⟩

theorem Session.Latest.advance {s : Session} (h : s.Latest old head) (hs : s.cursor.Stands source) :
    Session.Latest old head { s with cursor := s.cursor.advance } :=
  ⟨h.added, h.last, Nat.le_trans h.stop hs.stop_le_advance⟩

namespace Triple

/-- A token that is read adds no term. -/
theorem accept_latest (k : TokenKind) : Triple (Session.Adjacent source place old)
    (Session.Latest old head) (Reading.accept k) fun _ => Session.Latest old head := by
  refine (Triple.sees_iff k).bind fun seen => .ite (fun _ => ?_) fun _ => .pure fun _ hs => hs.2
  rintro setting s hs ⟨-, hlatest⟩
  refine ⟨Invariant.advance hs, ?_⟩
  rintro _ t ⟨⟩
  exact hlatest.advance hs.cursor

theorem expect_latest (hk : k ≠ .eof) : Triple (Session.Adjacent source place old)
    (Session.Latest old head) (Reading.expect k) fun span s =>
      s.Latest old head ∧ s.cursor.last = span ∧ 0 < span.stop := by
  refine (Triple.sees_iff k).bind fun seen => .ite (fun hseen => ?_) fun _ => .unexpected _
  rintro setting s hs ⟨hkind, hlatest⟩
  refine ⟨Invariant.advance hs, ?_⟩
  rintro _ t ⟨⟩
  refine ⟨hlatest.advance hs.cursor, s.cursor.last_advance, hs.cursor.span_pos ?_⟩
  rwa [hkind.mp hseen]

/-- The last term is widened over the last token. -/
theorem widen_joined {stop : Span} (hstart : start.Passed place) :
    Triple (Session.Adjacent source place old)
      (fun s => s.Latest old head ∧ s.cursor.last = stop ∧ 0 < stop.stop)
      (Reading.widen head (start.hull stop)) fun _ => Session.Ends old head := by
  rintro setting s hs ⟨hlatest, rfl, hpos⟩
  refine ⟨⟨hs.cursor, hs.reached, hs.grown.widen hlatest.added _, hs.tree.widen hlatest.last _⟩, ?_⟩
  rintro _ t ⟨⟩
  refine ⟨hlatest.added, by simpa [Tree.widen] using hlatest.last, ?_, hpos⟩
  have hstart := Nat.le_trans hstart.le hs.reached
  simp only [Tree.span_widen _ _ (Nat.lt_of_succ_le (Nat.le_of_eq hlatest.last)), Span.hull_stop]
  rw [Nat.max_eq_right hstart, Nat.max_eq_right hlatest.stop]

end Triple

section Productions

variable (h : deep.Adjacent source)

include h

/-! ## Operands -/

theorem joinsAt_constructor (hc : c.kind = .mark .atSign) :
    (Grammar.constructor deep c.span).JoinsAt source place old c (Session.Ends old) := by
  refine .opening (by rw [hc]; nofun) fun _ hstart => Triple.identifier.bind fun _ =>
    Triple.ask.bind fun _ => Triple.ask.bind fun _ =>
      .ite (fun _ => ?_) fun _ => .close_free hstart rfl
  exact Triple.advance.bind fun _ => (Triple.separated _ h.inner.forget).delimited.bind fun _ =>
    (Triple.expect _).bind fun _ => .close_free hstart rfl

theorem joinsAt_symbolOrSup (hc : c.kind = .mark .ampersand) :
    (symbolOrSup deep c.span).JoinsAt source place old c (Session.Ends old) := by
  refine .opening (by rw [hc]; nofun) fun place' hstart => Triple.ask.bind fun _ => Triple.ask.bind fun _ =>
    .ite (fun _ => Triple.identifier.bind fun _ => .close_free hstart rfl) fun _ => ?_
  refine (h.joins _).within.bind fun _ => (Triple.expect _).bind fun _ => ?_
  have hsides : (deep.inner >>= fun left => expect (.mark .comma) >>= fun _ =>
      deep.inner >>= fun right => pure (left, right)).Joins source place' old :=
    h.inner.forget.bind fun _ => (Triple.expect _).bind fun _ => h.inner.forget.bind fun _ =>
      .pure fun _ _ => trivial
  exact hsides.anywhere.delimited.bind fun _ => (Triple.expect _).bind fun _ =>
    .close_free hstart rfl

theorem joinsAt_hole (hc : c.kind = .mark .question) :
    (hole deep c.span).JoinsAt source place old c (Session.Ends old) := by
  refine .opening (by rw [hc]; nofun) fun _ hstart => Triple.identifier.bind fun _ =>
    (Triple.expect _).bind fun _ => (h.joins _).within.bind fun _ => Triple.ask.bind fun _ =>
      Triple.ask.bind fun _ => .ite (fun _ => ?_) fun _ => .close_free hstart rfl
  refine Triple.advance.bind fun _ =>
    (Triple.separated _ h.inner.forget).withUsage.delimited.bind fun _ => ?_
  exact (Triple.expect _).bind fun _ => .close_free hstart rfl

theorem joinsAt_parentheses (hc : c.kind = .mark .leftParen) :
    (parentheses deep c.span).JoinsAt source place old c (Session.Ends old) := by
  refine .opening (by rw [hc]; nofun) fun place' hstart => (Triple.accept _).bind fun _ =>
    .ite (fun _ => .close_free hstart rfl) fun _ => ?_
  have hinner : Triple (Session.Adjacent source place' old) (fun _ => True) (delimited deep.inner)
      (Session.Latest old) := h.inner.delimited.weaken (fun _ hs => hs) fun _ _ hfirst => hfirst.latest
  refine Triple.bind hinner fun first => (Triple.accept_latest _).bind fun _ => .ite (fun _ => ?_) fun _ => ?_
  · refine (Triple.separated _ h.inner.forget).delimited.anywhere.bind fun _ => ?_
    exact (Triple.expect _).bind fun _ => .close_free hstart rfl
  · refine (Triple.expect_latest (k := .mark .rightParen) nofun).bind fun stop => ?_
    exact (Triple.widen_joined hstart).bind fun _ => .pure fun _ hfirst => hfirst

theorem joinsAt_listTerm (hc : c.kind = .mark .leftBracket) :
    (listTerm deep c.span).JoinsAt source place old c (Session.Ends old) := by
  refine .opening (by rw [hc]; nofun) fun _ hstart => (Triple.accept _).bind fun _ =>
    .ite (fun _ => .close_free hstart rfl) fun _ => ?_
  exact (Triple.separated _ h.inner.forget).delimited.bind fun _ => (Triple.expect _).bind fun _ =>
    .close_free hstart rfl

omit h in
theorem joinsAt_enumType (hc : c.kind = .word .enum) :
    (enumType c.span).JoinsAt source place old c (Session.Ends old) := by
  refine .opening (by rw [hc]; nofun) fun place' hstart => (Triple.expect _).bind fun _ => ?_
  have hsymbol : enumSymbol.Joins source place' old :=
    (Triple.expect _).bind fun _ => Triple.identifier.bind fun _ => .pure fun _ _ => trivial
  exact (Triple.separated _ hsymbol).bind fun _ => (Triple.expect _).bind fun _ =>
    .close_free hstart rfl

omit h in
theorem joinsAt_reference (hc : c.kind = .word .ref) :
    (reference c.span).JoinsAt source place old c (Session.Ends old) :=
  .opening (by rw [hc]; nofun) fun _ hstart => Triple.identifier.bind fun _ => .close_free hstart rfl

omit h in
theorem joinsAt_view (hc : c.kind = .word .view) :
    (view c.span).JoinsAt source place old c (Session.Ends old) :=
  .opening (by rw [hc]; nofun) fun _ hstart => (Triple.expect _).bind fun _ =>
    Triple.identifier.bind fun _ => (Triple.expect _).bind fun _ => .close_free hstart rfl

theorem joinsAt_compound : (compound deep c c.span).JoinsAt source place old c (Session.Ends old) := by
  unfold compound
  split
  · exact joinsAt_constructor h ‹_›
  · exact joinsAt_symbolOrSup h ‹_›
  · exact joinsAt_hole h ‹_›
  · exact joinsAt_parentheses h ‹_›
  · exact joinsAt_listTerm h ‹_›
  · exact .ite (fun _ => joinsAt_refl ‹_›) fun _ => .unexpected _
  · exact joinsAt_enumType ‹_›
  · exact joinsAt_reference ‹_›
  · exact joinsAt_view ‹_›
  · exact .unexpected _

theorem joinsAt_operand : (operand deep).JoinsAt source place old c (Session.Ends old) := by
  refine .cursor (.ite (fun hc => ?_) fun _ => .ite (fun hc => ?_) fun _ => ?_)
  · exact .leaf (by rw [hc]; nofun) (anchors_nameTerm _)
  · have hkind : c.kind ≠ .eof := fun heof => by simp [heof, isLiteral] at hc
    refine .stay (p := fun _ => True) ?_ fun _ _ => .leaf hkind rfl
    refine Triple.cursor.bind fun d => ?_
    split
    · exact .pure fun _ hs => ⟨trivial, hs.2⟩
    · exact .fail fun _ hs h => Steady.complain hs (congrArg Cursor.span h.1.symm)
  · split
    · rename_i term hterm
      have hkind : c.kind ≠ .eof := fun heof => by simp [heof, constant?] at hterm
      exact .leaf hkind (anchors_constant hterm)
    · exact joinsAt_compound h

/-! ## Expressions -/

theorem joinsAt_leading : (leading deep).JoinsAt source place old c (Session.Ends old) := by
  refine .cursor ?_
  dsimp only
  split
  · exact joinsAt_before h _ (by simp_all) fun _ => rfl
  · exact joinsAt_before h _ (by simp_all) fun _ => rfl
  · exact joinsAt_tilde h ‹_›
  · exact joinsAt_lambda h ‹_›
  · exact joinsAt_fixedPoint h ‹_›
  · exact joinsAt_all h ‹_›
  · exact joinsAt_any h ‹_›
  · exact joinsAt_ifElse h ‹_›
  · exact joinsAt_fork h ‹_›
  · exact joinsAt_matchOn h ‹_›
  · exact joinsAt_useIn h ‹_›
  · exact joinsAt_operandAndBody h (by simp_all) fun _ _ => rfl
  · exact joinsAt_operandAndBody h (by simp_all) fun _ _ => rfl
  · exact joinsAt_before h _ (by simp_all) fun _ => rfl
  · exact joinsAt_before h _ (by simp_all) fun _ => rfl
  · exact joinsAt_before h _ (by simp_all) fun _ => rfl
  · exact joinsAt_before h _ (by simp_all) fun _ => rfl
  · exact (joinsAt_operand h).bind fun _ _ hstart => ends_suffixes h hstart

theorem ends_juxtaposed? {func : TermId} (hstart : start.Passed place) :
    Triple (Session.Adjacent source place old) (Session.Ends old func) (juxtaposed? deep func start)
      fun found s => (found = none → s.Ends old func) ∧ ∀ id ∈ found, s.Ends old id := by
  have hsome {P : Session → Prop} {r : Reading TermId}
      (hr : Triple (Session.Adjacent source place old) P r (Session.Ends old)) :
      Triple (Session.Adjacent source place old) P (some <$> r)
        fun found s => (found = none → s.Ends old func) ∧ ∀ id ∈ found, s.Ends old id :=
    .map (hr.weaken (fun _ hs => hs) fun _ _ hid => by simpa using hid)
  have hnone (c : Cursor) : Triple (Session.Adjacent source place old)
      (fun s => s.cursor = c ∧ s.Ends old func) (pure none) fun (found : Option TermId) s =>
        (found = none → s.Ends old func) ∧ ∀ id ∈ found, s.Ends old id :=
    .pure fun _ hs => ⟨fun _ => hs.2, nofun⟩
  refine Triple.cursor.bind fun c => .bind Preserves.asks fun s => .ite (fun _ => hnone c) fun _ => ?_
  refine isBare_bareName.bind fun bare => .ite (fun hcall => ?_) fun _ => ?_
  · simp only [Bool.and_eq_true, decide_eq_true_eq, Bool.not_eq_true'] at hcall
    exact hsome ((ends_call h hcall.1.1 hcall.1.2 hstart).mono
      fun _ hs => ⟨hs.2.1, hs.2.2, fun _ => hs.1 hcall.2⟩)
  refine .mono (P := fun s => s.cursor = c ∧ s.Ends old func) ?_ fun _ hs => hs.2
  refine .ite (fun hbrace => ?_) fun _ => .ite (fun _ => ?_) fun _ => hnone c
  · exact .ite (fun _ => hnone c) fun _ => hsome (ends_braceSuffix h hbrace rfl hstart)
  · exact (h.joins _).anywhere.bind fun _ => hsome (.close_free hstart rfl)

theorem ends_operatorRound (min : Level) (lhs : TermId) (hstart : start.Passed place) :
    Triple (Session.Adjacent source place old) (Session.Ends old lhs) (operatorRound deep min start lhs)
      (Round.Meets (Session.Ends old) (Session.Ends old)) := by
  refine .bind Preserves.asks fun c => .bind Preserves.asks fun s => ?_
  split
  · rename_i op _
    have hoperand : (rightOperand deep op).Joins source place old := by
      unfold rightOperand
      split
      · exact (h.joins _).withUsage
      · exact h.joins _
    have hterm (rhs : TermId) : (infixTerm op.form lhs rhs).anchors = [] := by
      cases op.form <;> rfl
    exact Triple.advance.bind fun _ => hoperand.bind fun rhs =>
      ends_more (.close_free hstart (hterm rhs))
  · exact .pure fun _ hlhs => hlhs

theorem ends_climbRound (min : Level) (lhs : TermId) (hstart : start.Passed place) :
    Triple (Session.Adjacent source place old) (Session.Ends old lhs) (climbRound deep min start lhs)
      (Round.Meets (Session.Ends old) (Session.Ends old)) := by
  refine .bind Preserves.asks fun c => .bind Preserves.asks fun s =>
    .ite (fun _ => .pure fun _ hlhs => hlhs) fun _ =>
      .ite (fun _ => ?_) fun _ => ends_operatorRound h min lhs hstart
  refine (ends_juxtaposed? h hstart).bind fun app => ?_
  cases app with
  | none => exact (ends_operatorRound h min lhs hstart).mono fun _ hs => hs.1 rfl
  | some app => exact .pure fun _ hs => ⟨hs.2 _ rfl, hs.2 _ rfl⟩

theorem joinsAt_expression (min : Level) :
    (expression deep min).JoinsAt source place old c (Session.Ends old) :=
  .here ((joinsAt_leading h).bind fun lhs _ hstart =>
    Triple.loop (fun lhs => ends_climbRound h min lhs hstart) lhs)

/-! ## Statements -/

omit h in
theorem joins_assignment {name : String} {type : Option TermId} {value : TermId} :
    (assignment name start type value).Joins source place old := by
  have hterm {term : Term TermId PatternId} {span : Span} (h : term.anchors = []) :
      (addTerm term span).Joins source place old := Triple.forget (.addTerm_free h)
  refine (hterm rfl).bind fun var => Triple.ask.bind fun stop => ?_
  split
  · exact Triple.ask.bind fun _ => (hterm rfl).bind fun _ => hterm rfl
  · exact hterm rfl

theorem joins_binding {name : String} {type : Option TermId} (hstart : start.Passed place) :
    (Grammar.binding deep name start type).Joins source place old := by
  refine (Triple.expect _).bind fun _ => h.term.bind fun value => (Triple.accept _).bind fun _ =>
    Triple.ask.bind fun _ => Triple.ask.bind fun _ => .ite (fun _ => ?_) fun _ => joins_assignment
  exact h.statement.bind fun _ => (Triple.close_free hstart rfl).forget

omit h in
theorem joinsAt_identifier : identifier.JoinsAt source place old c fun name _ => name.2 = c.span :=
  .cursor <| .ite (fun hc => .advance (by rw [hc]; nofun) fun _ _ => .pure fun _ _ => rfl) fun _ =>
    .unexpected _

theorem joinsAt_typedName : (typedName deep).JoinsAt source place old c
    fun found _ => ∀ x ∈ found, x.2.1 = c.span := by
  refine joinsAt_identifier.bind fun name _ _ => .extract (fun _ hname => hname) fun hname => ?_
  refine (Triple.expect _).bind fun _ => h.type.bind fun type => (Triple.sees _).bind fun _ =>
    .ite (fun _ => .pure fun _ _ => ?_) fun _ => .pure fun _ _ => nofun
  simpa using hname

theorem joins_statement : (statement deep).Joins source place old := by
  refine Triple.cursor.bind fun c => ?_
  have hbinding {name : String} {span : Span} {type : Option TermId} :
      Triple (Session.Adjacent source place old) (fun s => span.Passed s.cursor.last.stop)
        (Grammar.binding deep name span type) fun _ _ => True :=
    .onward fun _ _ hspan => (joins_binding h hspan).anywhere
  split
  · refine Triple.bind (Triple.mono joinsAt_identifier fun _ hs => hs.1) fun name => hbinding.mono ?_
    rintro s ⟨hname, hplace⟩
    exact hname.symm ▸ hplace
  · refine .bind (Q := fun found s => ∀ x ∈ found, x.2.1.Passed s.cursor.last.stop) ?_ fun found => ?_
    · refine .attempt_of .typedLet (Triple.weaken (joinsAt_typedName h) (fun _ hs => hs.1)
        fun found s hs x hx y hy => ?_) fun _ _ _ _ _ => nofun
      cases hy
      exact (hs.1 x hx).symm ▸ hs.2
    · split
      · exact hbinding.mono fun s hs => hs _ rfl
      · exact (h.joins _).anywhere
  · exact (h.joins _).anywhere

/-- The productions of every goal keep the tree joined if the next level does. -/
theorem adjacent_produce : (produce deep).Adjacent source where
  statement := (joins_statement h).withUsage
  expr min := JoinsAt.joins fun _ => joinsAt_expression h min
  pattern := joins_pattern h
  patternAtom := joins_patternAtom h

end Productions

theorem adjacent_nested (d : Nat) : (nested d).Adjacent source := by
  induction d with
  | zero => exact ⟨.refuse, fun _ => .refuse, .refuse, .refuse⟩
  | succ d ih => exact adjacent_produce ih

end BendSyntax
