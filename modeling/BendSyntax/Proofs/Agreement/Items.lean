import BendSyntax.Proofs.Agreement.Expressions

/-! Top-level items agree. An error that an item recovers from is reported, so a run that is
excused at the depth limit goes on; from there on the sessions are void. -/

namespace BendSyntax

open Reading Grammar

namespace Comparison

/-- The comparison of the same runs with another notion of void sessions. -/
def beyond (C : Comparison) (void : Session → Session → Prop) : Comparison := { C with void }

/-- Sessions are void as well once an excused run has reported that it met the limit. -/
structure Reporting (C : Comparison) (void : Session → Session → Prop) : Prop where
  recover : C.left.config.recover = C.right.config.recover
  /-- Where one text ends, the other one ends or an item begins. -/
  startsItem {c d : Cursor} : C.cursors c d → c.kind.startsItem = d.kind.startsItem
  of_void {s t : Session} : C.void s t → void s t
  onward {s t s' t' : Session} : void s t → s.Onward s' → t.Onward t' → void s' t'
  leftDiscard {s t : Session} (s₀ : Session) : void s t → void (s.discard s₀) t
  rightDiscard {s t : Session} (t₀ : Session) : void s t → void s (t.discard t₀)
  leftReport {e : SyntaxError} (s t : Session) : C.leftExcused → e.isFatal = true →
    void (s.report e) t
  rightReport {e : SyntaxError} (s t : Session) : C.rightExcused → e.isFatal = true →
    void s (t.report e)

variable {C : Comparison} {void : Session → Session → Prop} {α : Type} {Q : α → α → Prop}
  {c d : Cursor} {s t : Span}

theorem Outcomes.beyond (hvoid : C.Reporting void) {o p : Outcome α} (h : C.Outcomes Q o p) :
    (C.beyond void).Outcomes Q o p := by
  cases h with
  | ok hab hst => exact .ok hab hst
  | error he hst => exact .error he hst
  | leftTooDeep hx he => exact .leftTooDeep hx he
  | rightTooDeep hx he => exact .rightTooDeep hx he
  | void hv => exact .void (hvoid.of_void hv)

theorem Agree.beyond (hvoid : C.Reporting void) {r q : Reading α} (h : C.Agree c d r q Q) :
    (C.beyond void).Agree c d r q Q :=
  fun slot slot' s t hslot hst hs ht => (h slot slot' s t hslot hst hs ht).beyond hvoid

theorem Reporting.lawful [h : C.Lawful] (hvoid : C.Reporting void) : (C.beyond void).Lawful :=
  { h with void_onward := hvoid.onward }

/-! ## Recovery -/

section Recovery

variable (hvoid : C.Reporting void)

theorem Sessions.report {s t : Session} (h : C.Sessions s t) {e f : SyntaxError}
    (he : C.errors e f) : C.Sessions (s.report e) (t.report f) :=
  ⟨h.cursor, h.terms, h.patterns, h.diagnostics.push ⟨e, f, he, rfl, rfl⟩, h.failures⟩

theorem Sessions.discard {s t s₀ t₀ : Session} (h : C.Sessions s t) (h₀ : C.Sessions s₀ t₀) :
    C.Sessions (s.discard s₀) (t.discard t₀) :=
  ⟨h.cursor, h₀.terms.take h.terms, h₀.patterns.take h.patterns, h.diagnostics, h.failures⟩

include hvoid

theorem agree_recovering [C.Lawful] {r q handler handler' : Reading α}
    (describe : SyntaxError → SyntaxError)
    (hdescribe : ∀ e f, C.errors e f → C.errors (describe e) (describe f))
    (hfatal : ∀ e, e.isFatal = true → (describe e).isFatal = true)
    (h : (C.beyond void).Agree c d r q Q) (hhandler : (C.beyond void).Agrees handler handler' Q) :
    (C.beyond void).Agree c d (recovering describe handler r) (recovering describe handler' q) Q := by
  intro slot slot' s t hslot hst hs ht
  have hrq := h slot slot' s t hslot hst hs ht
  have hleft := handler.onward (C.left.setting slot)
  have hright := handler'.onward (C.right.setting slot')
  have hrecover : C.left.config.recover = C.right.config.recover := hvoid.recover
  change (C.beyond void).Outcomes Q (Outcome.recovered C.left.config.recover _ s _ _)
    (Outcome.recovered C.right.config.recover _ t _ _)
  rw [hrecover]
  generalize r.run _ s = o at *
  generalize q.run _ t = p at *
  cases hrq with
  | ok hab hnow => exact .ok hab hnow
  | error he hnow =>
      simp only [Outcome.recovered]
      cases C.right.config.recover with
      | true => exact hhandler.run hslot (Sessions.report (Sessions.discard hnow hst) (hdescribe _ _ he))
      | false => exact .error (hdescribe _ _ he) hnow
  | @leftTooDeep e now _ hx he =>
      cases C.right.config.recover with
      | true =>
          have hv := hvoid.leftReport (now.discard s)
            (p.recovered true describe t (handler'.run (C.right.setting slot'))).session
            hx (hfatal e he)
          exact .void (hvoid.onward hv (hleft _) (.refl _))
      | false => exact .leftTooDeep hx (hfatal e he)
  | @rightTooDeep _ e now hx he =>
      cases C.right.config.recover with
      | true =>
          have hv := hvoid.rightReport
            (o.recovered true describe s (handler.run (C.left.setting slot))).session
            (now.discard t) hx (hfatal e he)
          exact .void (hvoid.onward hv (.refl _) (hright _))
      | false => exact .rightTooDeep hx (hfatal e he)
  | void hv =>
      obtain ⟨s', hs', hos⟩ := Outcome.recovered_onward_of C.right.config.recover describe s hleft o
      obtain ⟨t', ht', hpt⟩ := Outcome.recovered_onward_of C.right.config.recover describe t hright p
      refine .void (hvoid.onward ?_ hos hpt)
      rcases hs' with rfl | rfl <;> rcases ht' with rfl | rfl
      · exact hv
      · exact hvoid.rightDiscard t hv
      · exact hvoid.leftDiscard s hv
      · exact hvoid.leftDiscard s (hvoid.rightDiscard t hv)

theorem agree_reported {r q : Reading α} (h : (C.beyond void).Agree c d r q Q) :
    (C.beyond void).Agree c d (reported r) (reported q) (Option.Rel Q) := by
  intro slot slot' s t hslot hst hs ht
  have hrq := h slot slot' s t hslot hst hs ht
  change (C.beyond void).Outcomes _ (Outcome.reported _) (Outcome.reported _)
  generalize r.run _ s = o at *
  generalize q.run _ t = p at *
  cases hrq with
  | ok hab hnow => exact .ok (.some hab) hnow
  | error he hnow => exact .ok .none (Sessions.report hnow he)
  | leftTooDeep hx he => exact .void (hvoid.leftReport _ _ hx he)
  | rightTooDeep hx he => exact .void (hvoid.rightReport _ _ hx he)
  | void hv => exact .void (hvoid.onward hv (Outcome.reported_onward o) (Outcome.reported_onward p))

end Recovery

section Lawful

variable [C.Lawful]

theorem agrees_skipToItem (hvoid : C.Reporting void) (hst : C.spans s t) :
    C.Agrees (skipToItem s) (skipToItem t) C.spans := by
  refine agrees_loop (fun s t hst c d hcd => agree_kind_bind ?_) (Lawful.spans_opening hst)
  refine agree_ite (by rw [hvoid.startsItem hcd]) (fun _ => agree_pure (.done hst)) fun hc => ?_
  have hne : c.kind ≠ .eof := fun h => hc (by rw [h]; rfl)
  exact agree_advance_bind hcd hne fun s' t' hst' =>
    agrees_pure (.more (Lawful.spans_hull hst (Lawful.marks_spans hst')))

theorem agrees_errorNode (hvoid : C.Reporting void) (hst : C.spans s t) :
    C.Agrees (errorNode s) (errorNode t) C.terms :=
  agrees_bind (agrees_skipToItem hvoid hst) fun _ _ hst => agrees_addTerm .error hst nofun

theorem agrees_skipItem (hvoid : C.Reporting void) (hcd : C.cursors c d) (hc : c.kind ≠ .eof) :
    C.Agrees (skipItem c) (skipItem d) (Item.Alike C.spans C.terms) := by
  intro c' d' hcd' slot slot' s t hslot hst hs ht
  subst hs ht
  have hwhole := Lawful.whole hcd'
  have hskip : C.Agree s.cursor.whole t.cursor.whole (skipFirst c) (skipFirst d)
      fun _ _ => True := by
    refine agree_cursor_bind (agree_ite (Lawful.index hcd hwhole) (fun hindex => ?_) fun _ => ?_)
    · exact agree_advance_bind hwhole (Lawful.index_kind hcd hcd' hindex hc) fun _ _ _ =>
        agrees_pure trivial
    · exact agree_pure trivial
  refine agree_bind hskip (f := fun _ => Item.error <$> skipToItem c.span)
    (g := fun _ => Item.error <$> skipToItem d.span) (fun _ _ _ => ?_) slot slot' _ _ hslot
    ⟨hwhole, hst.terms, hst.patterns, hst.diagnostics, hst.failures⟩ rfl rfl
  exact agrees_map (agrees_skipToItem hvoid (Lawful.span hcd)) fun _ _ hst => .error hst

theorem agrees_semicolons : C.Agrees semicolons semicolons fun _ _ => True :=
  agrees_loop (fun _ _ _ => agrees_accept_bind rfl (agrees_pure (.more trivial))
    (agrees_pure (.done trivial))) trivial

/-! ## Parts of items -/

section Levels

variable {deep deep' : Deeper} (h : C.Levels deep deep')

include h

theorem agrees_typeParam :
    C.Agrees (typeParam deep) (typeParam deep') (TypeParam.Alike C.spans C.terms) := by
  refine agrees_identifier_bind fun name s t hst => ?_
  have hst := Lawful.marks_spans hst
  refine agrees_accept_bind rfl ?_ (agrees_pure ⟨rfl, hst, .none⟩)
  exact agrees_bind (agrees_withUsage .type (h.expr .additive)) fun a b hab =>
    agrees_pure ⟨rfl, hst, .some hab⟩

theorem agrees_typeParams :
    C.Agrees (typeParams deep) (typeParams deep')
      (List.Forall₂ (TypeParam.Alike C.spans C.terms)) := by
  refine agrees_accept_bind rfl ?_ (agrees_pure .nil)
  refine agrees_bind (agrees_delimited (agrees_commaList (agrees_typeParam h))) fun ps qs hpq => ?_
  exact agrees_bind agrees_closeAngle fun _ _ _ => agrees_pure hpq

theorem agreesIn_params [deep.Balanced] {ts : List Token} (hin : C.Inside ts) :
    C.AgreesIn ts (params deep) (params deep') (List.Forall₂ (Binder.Alike C.spans C.terms)) := by
  have hbinder : (binder deep.type).Balances := balances_binder deep.balances_type
  have hbinders := agreesIn_separated hin hbinder (agrees_binder h.type)
  refine hbinders.delimited.bind (balances_separated _ hbinder).delimited fun bs cs hbs => ?_
  exact (agreesIn_expect hin).bind_agrees fun _ _ _ => agrees_pure hbs

theorem agrees_result? : C.Agrees (result? deep) (result? deep') (Option.Rel C.terms) :=
  agrees_accept_bind rfl (agrees_map h.type fun _ _ => .some) (agrees_pure .none)

theorem agrees_equationType : C.Agrees (equationType deep) (equationType deep') C.terms := by
  refine agrees_bind h.type fun a b hab => ?_
  refine agrees_sees_bind rfl (agrees_pure hab) fun c d hcd => agree_unexpected hcd _

omit h in
theorem agrees_atField : C.Agrees atField atField Eq := by
  refine agrees_cursor_bind fun c d hcd => agree_pure ?_
  simp only [← Bool.decide_and, pair_iff hcd (k := .ident) (l := .mark .colon) rfl rfl]

theorem agrees_ctorCase :
    C.Agrees (ctorCase deep) (ctorCase deep') (CtorCase.Alike C.spans C.terms) := by
  refine agrees_bind (agrees_expect rfl) fun s t hst => agrees_bind (agrees_expect rfl) fun _ _ _ => ?_
  refine agrees_identifier_bind fun tag _ _ _ => agrees_bind (agrees_expect rfl) fun _ _ _ => ?_
  refine agrees_bind (agrees_within
    (agrees_collectWhile agrees_atField (agrees_binder (h.expr .product))) fun _ _ _ => ?_)
    fun bs cs hbs => ?_
  · exact ⟨rfl, Lawful.usages_refl .type⟩
  · exact agrees_bind (agrees_since (Lawful.marks_spans hst)) fun _ _ hst =>
      agrees_pure ⟨rfl, hbs, hst⟩

theorem agrees_optionalParams [deep.Balanced] :
    C.Agrees (optionalParams deep) (optionalParams deep')
      (List.Forall₂ (Binder.Alike C.spans C.terms)) :=
  agrees_accept_opening_bind (fun _ hin => agreesIn_params h hin) (agrees_pure .nil)

theorem agree_typeDefinition [deep.Balanced] (hcd : C.cursors c d) (hc : c.kind ≠ .eof) :
    C.Agree c d (typeDefinition deep) (typeDefinition deep') (Item.Alike C.spans C.terms) := by
  refine agree_advance_bind hcd hc fun s t hst => agrees_identifier_bind fun name _ _ _ => ?_
  refine agrees_bind (agrees_typeParams h) fun ps qs hpq => ?_
  refine agrees_bind (agrees_optionalParams h) fun bs cs hbs => ?_
  refine agrees_bind (agrees_expect rfl) fun _ _ _ => ?_
  refine agrees_bind (agrees_collectWhile (agrees_sees rfl) (agrees_ctorCase h)) fun xs ys hxs => ?_
  refine agrees_bind (agrees_require (by rw [isEmpty_eq hxs]) _) fun _ _ _ => ?_
  exact agrees_bind (agrees_since (Lawful.marks_spans hst)) fun _ _ hst =>
    agrees_pure (.typeDef ⟨rfl, hpq, hbs, hxs, hst⟩)

theorem agree_assertion (hcd : C.cursors c d) (hc : c.kind ≠ .eof) :
    C.Agree c d (assertion deep) (assertion deep') (Item.Alike C.spans C.terms) := by
  refine agree_advance_bind hcd hc fun s t hst => agrees_bind h.term fun a b hab => ?_
  refine agrees_bind (agrees_expect rfl) fun _ _ _ => agrees_bind h.type fun a' b' hab' => ?_
  exact agrees_bind (agrees_since (Lawful.marks_spans hst)) fun _ _ hst =>
    agrees_pure (.assertion hab hab' hst)

theorem agree_proof (hcd : C.cursors c d) (hc : c.kind ≠ .eof) :
    C.Agree c d (proof deep) (proof deep') (Item.Alike C.spans C.terms) := by
  refine agree_advance_bind hcd hc fun s t hst => agrees_identifier_bind fun name _ _ _ => ?_
  refine agrees_bind (agrees_expect rfl) fun _ _ _ => ?_
  refine agrees_bind (agrees_within h.type fun slot slot' hslot => ?_) fun a b hab => ?_
  · exact ⟨congrArg (fun s : Slot => { s with noLooseBrace := true }) hslot.flags, hslot.usage⟩
  · refine agrees_bind (agrees_expect rfl) fun _ _ _ => ?_
    refine agrees_bind (agrees_delimited h.statement) fun a' b' hab' => ?_
    refine agrees_bind (agrees_expect rfl) fun _ _ _ => ?_
    exact agrees_bind (agrees_since (Lawful.marks_spans hst)) fun _ _ hst =>
      agrees_pure (.proof name hab hab' hst)

end Levels

end Lawful

/-! ## Items -/

section Items

variable [C.Lawful] [C.Retractable] {deep deep' : Deeper} (h : C.Levels deep deep')
  (hvoid : C.Reporting void)

include h hvoid

omit [C.Retractable] in
theorem agrees_statementOrError {describe : SyntaxError → SyntaxError}
    (hdescribe : ∀ e f, C.errors e f → C.errors (describe e) (describe f))
    (hfatal : ∀ e, e.isFatal = true → (describe e).isFatal = true) (hst : C.spans s t) :
    (C.beyond void).Agrees (statementOrError deep describe s) (statementOrError deep' describe t)
      C.terms :=
  fun c d hcd => agree_recovering hvoid describe hdescribe hfatal
    ((h.statement c d hcd).beyond hvoid)
    fun c d hcd => (agrees_errorNode hvoid hst c d hcd).beyond hvoid

omit [C.Retractable] in
theorem agrees_body : (C.beyond void).Agrees (body deep) (body deep') C.terms :=
  haveI := hvoid.lawful
  agrees_bind agrees_here fun _ _ hst =>
    agrees_statementOrError h hvoid (fun _ _ he => he) (fun _ he => he) hst

omit [C.Retractable] h hvoid in
theorem noDefinition_fatal {e : SyntaxError} (he : e.isFatal = true) :
    (noDefinition e).isFatal = true := by
  simp [noDefinition, he]

theorem agrees_definitionTail :
    (C.beyond void).Agrees (definitionTail deep) (definitionTail deep')
      (DefForm.Alike C.spans C.terms) := by
  have := hvoid.lawful
  refine agrees_bind agrees_here fun s t hst c d hcd => ?_
  have htype : C.Agrees (some <$> equationType deep) (some <$> equationType deep')
      (Option.Rel C.terms) :=
    agrees_map (agrees_equationType h) fun _ _ => .some
  refine agree_bind ((agree_speculate (htype c d hcd)).beyond hvoid) fun x y hxy => ?_
  cases hxy with
  | some hxy =>
      refine agrees_bind (agrees_expect rfl) fun _ _ _ => ?_
      exact agrees_bind (agrees_body h hvoid) fun a b hab => agrees_pure (.equation hxy hab)
  | none =>
      refine agrees_bind (agrees_statementOrError h hvoid (fun _ _ => Lawful.noDefinition)
        (fun _ => noDefinition_fatal) hst) fun a b hab => ?_
      exact agrees_pure (.nullary hab)

theorem agrees_definitionForm [deep.Balanced] :
    (C.beyond void).Agrees (definitionForm deep) (definitionForm deep')
      (DefForm.Alike C.spans C.terms) := by
  have := hvoid.lawful
  have h' : (C.beyond void).Levels deep deep' := fun g c d hcd => (h g c d hcd).beyond hvoid
  refine agrees_accept_opening_bind (fun ts hin => ?_) ?_
  · refine (agreesIn_params h' hin).bind_agrees fun bs cs hbs => ?_
    refine agrees_bind (agrees_result? h') fun x y hxy => ?_
    refine agrees_bind (agrees_expect rfl) fun _ _ _ => ?_
    exact agrees_bind (agrees_body h hvoid) fun a b hab => agrees_pure (.full hbs hxy hab)
  · exact agrees_bind (agrees_expect rfl) fun _ _ _ => agrees_definitionTail h hvoid

theorem agree_definition [deep.Balanced] (hcd : C.cursors c d) (hc : c.kind ≠ .eof) :
    (C.beyond void).Agree c d (definition deep) (definition deep')
      (Item.Alike C.spans C.terms) := by
  have := hvoid.lawful
  have h' : (C.beyond void).Levels deep deep' := fun g c d hcd => (h g c d hcd).beyond hvoid
  refine agree_advance_bind (C := C.beyond void) hcd hc fun s t hst => ?_
  refine agrees_identifier_bind fun name _ _ _ => ?_
  refine agrees_bind (agrees_typeParams h') fun ps qs hpq => ?_
  refine agrees_bind (agrees_definitionForm h hvoid) fun f g hfg => ?_
  exact agrees_bind (agrees_since (Lawful.marks_spans hst)) fun _ _ hst =>
    agrees_pure (.definition ⟨rfl, hpq, hfg, hst⟩)

/-- In front of the end of the text no item is read. -/
theorem agree_item [deep.Balanced] (hcd : C.cursors c d) (hc : c.kind ≠ .eof) :
    (C.beyond void).Agree c d (item deep) (item deep') (Item.Alike C.spans C.terms) := by
  have := hvoid.lawful
  have h' : (C.beyond void).Levels deep deep' := fun g c d hcd => (h g c d hcd).beyond hvoid
  have hdefault : (C.beyond void).Agree c d (Item.expr <$> deep.statement)
      (Item.expr <$> deep'.statement) (Item.Alike C.spans C.terms) :=
    agree_map (h'.statement c d hcd) fun _ _ => .expr
  have hdefinition := agree_definition h hvoid hcd hc
  have htype := agree_typeDefinition h' hcd hc
  have hassertion := agree_assertion h' hcd hc
  have hproof := agree_proof h' hcd hc
  refine agree_kind_bind ?_
  have hkinds := Lawful.kind hcd
  generalize c.kind = k at hkinds hc
  generalize d.kind = l at hkinds
  cases hkinds with
  | same =>
      cases k with
      | word w =>
          cases w with
          | def_ => exact hdefinition
          | type => exact htype
          | assert => exact hassertion
          | try_ => exact hproof
          | _ => exact hdefault
      | _ => exact hdefault
  | _ => exact absurd rfl hc

theorem agree_itemRound [deep.Balanced] (hcd : C.cursors c d) (hc : c.kind ≠ .eof)
    {as bs is js : Array (Item TermId)} (his : Grown (Item.Alike C.spans C.terms) as bs is js) :
    (C.beyond void).Agree c d (itemRound deep is) (itemRound deep' js)
      (Round.Rel (Grown (Item.Alike C.spans C.terms) as bs)) := by
  have := hvoid.lawful
  have hd : d.kind ≠ .eof := by
    have hkinds := Lawful.kind hcd
    generalize c.kind = k at hkinds hc
    generalize d.kind = l at hkinds
    cases hkinds with
    | same => exact hc
    | _ => nofun
  refine agree_cursor_bind ?_
  rw [if_neg hc, if_neg hd]
  have hitem := agree_recovering hvoid id (fun _ _ he => he) (fun _ he => he)
    (agree_item h hvoid hcd hc) fun c' d' hcd' => (agrees_skipItem hvoid hcd hc c' d' hcd').beyond hvoid
  refine agree_bind (agree_reported hvoid hitem) fun x y hxy => ?_
  cases hxy with
  | none => exact agrees_pure (.done his)
  | some hxy => exact agrees_bind agrees_semicolons fun _ _ _ => agrees_pure (.more (his.push hxy))

/-- The items that follow agree if the end of one text corresponds to the end of the other. -/
theorem agrees_items [deep.Balanced] (hend : ∀ c d, C.cursors c d → c.kind = .eof → d.kind = .eof)
    {as bs is js : Array (Item TermId)} (his : Grown (Item.Alike C.spans C.terms) as bs is js) :
    (C.beyond void).Agrees (loop (itemRound deep) is) (loop (itemRound deep') js)
      (Grown (Item.Alike C.spans C.terms) as bs) := by
  have := hvoid.lawful
  refine agrees_loop (fun is js his c d hcd => ?_) his
  by_cases hc : c.kind = .eof
  · refine agree_cursor_bind ?_
    rw [if_pos hc, if_pos (hend c d hcd hc)]
    exact agree_pure (.done his)
  · exact agree_itemRound h hvoid hcd hc his

theorem agrees_sourceFile [deep.Balanced] (hend : ∀ c d, C.cursors c d → c.kind = .eof → d.kind = .eof) :
    (C.beyond void).Agrees (sourceFile deep) (sourceFile deep')
      (List.Forall₂ (Item.Alike C.spans C.terms)) := by
  have := hvoid.lawful
  refine agrees_bind (agrees_items h hvoid hend (.start _ #[] #[])) fun is js his => agrees_pure ?_
  obtain ⟨k, l, hk, hl, hkl⟩ := his
  simpa [hk, hl] using hkl

end Items

end Comparison

end BendSyntax
