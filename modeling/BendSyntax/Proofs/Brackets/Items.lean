import BendSyntax.Proofs.Brackets.Expressions

/-! An item that begins with a keyword passes no other keyword that begins an item, whether it can
be read or not, and neither does what is skipped where it cannot be read. -/

namespace BendSyntax

open Reading Grammar

/-- The item that each keyword begins. -/
inductive Declares : TokenKind → Item TermId → Prop
  | definition (d : Def TermId) : Declares (.word .def_) (.definition d)
  | typeDef (d : TypeDef TermId) : Declares (.word .type) (.typeDef d)
  | assertion (term type : TermId) (span : Span) :
      Declares (.word .assert) (.assertion term type span)
  | proof (name : String) (type body : TermId) (span : Span) :
      Declares (.word .try_) (.proof name type body span)

variable {ts : List Token} {k : TokenKind} {start : Span}

/-! ## Tokens -/

theorem clear_advance {P : Session → Prop} (hP : ∀ s, P s → s.cursor.kind.startsItem = false) :
    Triple (Session.Clear ts) P advance fun _ _ => True :=
  fun _ s hs h => ⟨hs.advance (hP s h), fun _ _ _ => trivial⟩

theorem clear_accept (hk : k.startsItem = false) : Maintains (Session.Clear ts) (accept k) := by
  refine (Triple.sees_iff k).bind fun seen => .ite (fun hseen => ?_) fun _ => .pure fun _ _ => trivial
  refine (clear_advance fun s hs => ?_).bind fun _ => .pure fun _ _ => trivial
  rwa [hs.1.mp hseen]

theorem clear_expect (hk : k.startsItem = false) : Maintains (Session.Clear ts) (expect k) := by
  refine (Triple.sees_iff k).bind fun _ => .ite (fun hseen => ?_) fun _ => .unexpected _
  refine clear_advance fun s hs => ?_
  rwa [hs.1.mp hseen]

/-! ## Recovery -/

theorem clear_skipToItem : Maintains (Session.Clear ts) (skipToItem start) := by
  refine .maintains_loop (fun _ => Triple.kind_eq.bind fun kind => ?_) _
  refine .ite (fun _ => .pure fun _ _ => trivial) fun hkind => ?_
  refine (clear_advance fun s hs => ?_).bind fun _ => .pure fun _ _ => trivial
  simpa [hs.1] using hkind

theorem clear_errorNode : Maintains (Session.Clear ts) (errorNode start) :=
  clear_skipToItem.bind fun _ => (balances_addTerm _ _).maintains ts

theorem clear_semicolons : Maintains (Session.Clear ts) semicolons :=
  .maintains_loop (fun _ => (clear_accept rfl).bind fun _ =>
    .ite (fun _ => .pure fun _ _ => trivial) fun _ => .pure fun _ _ => trivial) ()

/-! ## Definitions -/

variable {deep : Deeper} [deep.Balanced]

theorem clear_statementOrError {describe : SyntaxError → SyntaxError}
    (hdescribe : ∀ e, (describe e).span = e.span) :
    Maintains (Session.Clear ts) (statementOrError deep describe start) :=
  .recovering hdescribe (deep.balances_statement.maintains ts) clear_errorNode

theorem clear_body : Maintains (Session.Clear ts) (body deep) :=
  Triple.here.bind fun _ => clear_statementOrError fun _ => rfl

theorem balances_typeParams : (typeParams deep).Balances := by
  have hparam : (typeParam deep).Balances :=
    balances_identifier.bind fun _ => (balances_accept rfl).bind fun _ => .ite
      (fun _ => (deep.balances_expr _).withUsage.bind fun _ => balances_pure _)
      fun _ => balances_pure _
  refine (balances_accept rfl).bind fun _ => .ite (fun _ => ?_) fun _ => balances_pure _
  exact (balances_commaList hparam).delimited.bind fun _ => balances_closeAngle.bind fun _ =>
    balances_pure _

theorem clear_params : Maintains (Session.Clear ts) (params deep) :=
  ((balances_separated _ (balances_binder deep.balances_type)).delimited.maintains ts).bind fun _ =>
    (clear_expect rfl).bind fun _ => .pure fun _ _ => trivial

theorem balances_result? : (result? deep).Balances :=
  (balances_accept rfl).bind fun _ => .ite (fun _ => deep.balances_type.map) fun _ => balances_pure _

theorem clear_definitionTail : Maintains (Session.Clear ts) (definitionTail deep) := by
  have hequation : (equationType deep).Balances :=
    deep.balances_type.bind fun _ => (balances_sees _).bind fun _ =>
      .ite (fun _ => balances_pure _) fun _ => balances_unexpected _
  refine Triple.here.bind fun _ => Triple.bind (Q := fun _ _ => True)
    (.speculate (hequation.map.maintains ts) trivial) fun found => ?_
  split
  · exact (clear_expect rfl).bind fun _ => clear_body.bind fun _ => .pure fun _ _ => trivial
  · exact (clear_statementOrError span_noDefinition).bind fun _ => .pure fun _ _ => trivial

theorem clear_definitionForm : Maintains (Session.Clear ts) (definitionForm deep) := by
  refine (clear_accept rfl).bind fun _ => .ite (fun _ => ?_) fun _ => ?_
  · exact clear_params.bind fun _ => (balances_result?.maintains ts).bind fun _ =>
      (clear_expect rfl).bind fun _ => clear_body.bind fun _ => .pure fun _ _ => trivial
  · exact (clear_expect rfl).bind fun _ => clear_definitionTail

/-! ## Items -/

/-- What is read from the keyword `k` on is the item that it begins, and behind this keyword no
other one is passed. -/
def Reading.Opening (k : TokenKind) (r : Reading (Item TermId)) : Prop :=
  ∀ setting s, s.cursor.kind = k → s.cursor.rest ≠ [] → s.cursor.eof.kind = .eof →
    (r.run setting s).settled.Clear s.cursor.advance.rest ∧
      ∀ item t, r.run setting s = .ok item t → Declares k item

theorem Reading.Opening.advance {f : Span → Reading (Item TermId)}
    (h : ∀ ts span, Triple (Session.Clear ts) (fun _ => True) (f span)
      fun item _ => Declares k item) :
    (Reading.advance >>= f).Opening k := by
  intro setting s _ hrest heof
  have hnext : s.cursor.advance.eof.kind = .eof := by
    simpa [Cursor.advance_of_rest_ne_nil hrest] using heof
  let next : Session := { s with cursor := s.cursor.advance }
  exact h _ _ setting next (@Session.Clear.start next hnext) trivial

theorem opening_definition : (definition deep).Opening (.word .def_) :=
  .advance fun ts span => (balances_identifier.maintains ts).bind fun _ =>
    (balances_typeParams.maintains ts).bind fun _ => clear_definitionForm.bind fun _ =>
      (Triple.since span).bind fun _ => .pure fun _ _ => .definition _

theorem clear_ctorCase : Maintains (Session.Clear ts) (ctorCase deep) := by
  have hfields : (within (fun _ => { Slot.free .type with fieldHeads := true })
      (collectWhile atField (binder (deep.expr .product)))).Balances :=
    .within (balances_collectWhile ((balances_asks _).bind fun _ => balances_pure _)
      (balances_binder (deep.balances_expr _)))
  exact (clear_expect rfl).bind fun start => (clear_expect rfl).bind fun _ =>
    (balances_identifier.maintains ts).bind fun _ => (clear_expect rfl).bind fun _ =>
      (hfields.maintains ts).bind fun _ => (Triple.since start).bind fun _ =>
        .pure fun _ _ => trivial

theorem clear_optionalParams : Maintains (Session.Clear ts) (optionalParams deep) :=
  (clear_accept rfl).bind fun _ => .ite (fun _ => clear_params) fun _ => .pure fun _ _ => trivial

theorem opening_typeDefinition : (typeDefinition deep).Opening (.word .type) := by
  refine .advance fun ts span => (balances_identifier.maintains ts).bind fun _ =>
    (balances_typeParams.maintains ts).bind fun _ => clear_optionalParams.bind fun _ => ?_
  have hcases : Maintains (Session.Clear ts) (collectWhile (sees (.word .case)) (ctorCase deep)) :=
    Preserves.collectWhile (Preserves.sees _) clear_ctorCase
  exact (clear_expect rfl).bind fun _ => hcases.bind fun _ => (Triple.require _ _).bind fun _ =>
    (Triple.since span).bind fun _ => .pure fun _ _ => .typeDef _

theorem opening_assertion : (assertion deep).Opening (.word .assert) :=
  .advance fun ts span => (deep.balances_term.maintains ts).bind fun _ =>
    (clear_expect rfl).bind fun _ => (deep.balances_type.maintains ts).bind fun _ =>
      (Triple.since span).bind fun _ => .pure fun _ _ => .assertion _ _ _

theorem opening_proof : (proof deep).Opening (.word .try_) := by
  refine .advance fun ts span => (balances_identifier.maintains ts).bind fun _ =>
    (clear_expect rfl).bind fun _ => (deep.balances_type.within.maintains ts).bind fun _ => ?_
  exact (clear_expect rfl).bind fun _ => (deep.balances_statement.delimited.maintains ts).bind fun _ =>
    (clear_expect rfl).bind fun _ => (Triple.since span).bind fun _ => .pure fun _ _ => .proof _ _ _ _

variable (deep) in
/-- A keyword that begins an item begins its own. -/
theorem opening_item (hk : k.startsItem = true) (heof : k ≠ .eof) : (item deep).Opening k := by
  rintro setting s rfl
  simp only [item, kind, cursor, asks, run_bind, run_pure, Outcome.andThen_ok]
  split
  · exact ‹s.cursor.kind = _› ▸ opening_definition setting s ‹_›
  · exact ‹s.cursor.kind = _› ▸ opening_typeDefinition setting s ‹_›
  · exact ‹s.cursor.kind = _› ▸ opening_assertion setting s ‹_›
  · exact ‹s.cursor.kind = _› ▸ opening_proof setting s ‹_›
  · unfold TokenKind.startsItem Keyword.startsItem at hk
    split at hk
    · split at hk <;> simp_all
    · exact absurd ‹_› heof
    · cases hk

variable (deep) in
/-- An item that begins with another token passes no such keyword. -/
theorem clear_item (setting : Setting) {s : Session} (hstarts : s.cursor.kind.startsItem = false)
    (heof : s.cursor.eof.kind = .eof) :
    ((item deep).run setting s).settled.Clear s.cursor.rest := by
  have hexpr : (Item.expr <$> deep.statement).Balances := deep.balances_statement.map
  simp only [item, kind, cursor, asks, run_bind, run_pure, Outcome.andThen_ok]
  split
  case h_5 => exact (hexpr.maintains _ setting s (.start heof) trivial).1
  all_goals simp_all [TokenKind.startsItem, Keyword.startsItem]

end BendSyntax
