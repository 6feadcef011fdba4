import BendSyntax.Proofs.Layout.Texts

/-! A run that recovers from errors beside one that does not. Both go through the same sessions until
an error comes up: where the run without recovery stops with it, the other one has reported it. -/

namespace BendSyntax

open Reading Grammar Owner

/-! ## Two runs of which one recovers -/

namespace Comparison

/-- Two runs on a text of which only the left one recovers from errors. -/
def stopping (l : Lexing) (depth : Nat) : Comparison :=
  sameText l.tokens ⟨⟨depth, true⟩, true, .empty, l.diagnostics.toArray⟩
    ⟨⟨depth, false⟩, true, .empty, l.diagnostics.toArray⟩ Eq Eq Eq False False fun _ _ => False

section Stopping

variable {l : Lexing} {depth : Nat}

instance : (stopping l depth).Lawful :=
  sameText_lawful (fun _ => rfl) (fun h h' => by rw [h, h']) (fun h => by rw [h])
    (fun _ => rfl) fun h _ _ => h.elim

instance : (stopping l depth).Retractable := ⟨fun h _ => h.elim, fun h _ => h.elim⟩

instance : (stopping l depth).Recalling := sameText_recalling rfl

theorem stopping_levels (l : Lexing) (depth d : Nat) :
    (stopping l depth).Levels (nested d) (nested d) := by
  induction d with
  | zero => exact fun g => agrees_refuse fun hcd => congrArg _ hcd.2.1.span
  | succ d ih => exact agrees_produce ih.supports

theorem stopping_terms : (stopping l depth).terms = Eq := sameText_terms rfl rfl

/-- Corresponding sessions are the same session. -/
theorem stopping_sessions {s t : Session} (h : (stopping l depth).Sessions s t) : s = t := by
  obtain ⟨htree, hdiagnostics⟩ := sameText_sessions h rfl rfl rfl
  have hcursor : t.cursor = s.cursor := by
    have hlast : s.cursor.last = t.cursor.last := h.cursor.2.2
    rw [h.cursor.2.1.eq_setLast, ← hlast]
  have hfailures : s.failures = t.failures := h.failures
  cases s
  cases t
  simp_all

end Stopping

end Comparison

/-! ## Where the run without recovery stops -/

section Stops

variable (l : Lexing) (depth : Nat)

/-- A session that both runs come to. -/
structure Session.Shared (s : Session) : Prop where
  sessions : (Comparison.stopping l depth).Sessions s s
  sound : s.Sound

/-- An end that both runs come to from `s`, with nothing reported. -/
def Outcome.Shared {α : Type} (s : Session) : Outcome α → Prop
  | .ok _ t => t.Shared l depth ∧ s.Grows t
  | .error _ t => t.cursor.Orderly ∧ s.Grows t

/-- How a reading from `s` ends with recovery where it ends as the second outcome without: alike,
or it goes on where the error of the second outcome has been reported. -/
inductive Outcome.Stops {α : Type} (s : Session) : Outcome α → Outcome α → Prop
  | shared {o} : o.Shared l depth s → Stops s o o
  | reported {e a t u} : s.Grows t → u.diagnostics = s.diagnostics.push e.toDiagnostic →
      Stops s (.ok a u) (.error e t)

/-- From a session on, a reading stops without recovery where it reports its first error with
recovery. -/
def StopsAt {α : Type} (slot : Slot) (s : Session) (r : Reading α) : Prop :=
  s.Shared l depth →
    (r.run ⟨⟨depth, true⟩, true, slot⟩ s).Stops l depth s (r.run ⟨⟨depth, false⟩, true, slot⟩ s)

/-- A reading that stops without recovery where it reports its first error with recovery. -/
abbrev Stops {α : Type} (r : Reading α) : Prop := ∀ slot s, StopsAt l depth slot s r

variable {l depth} {α β : Type} {slot : Slot} {s t : Session} {r : Reading α} {f : α → Reading β}
  {Q : α → α → Prop}

theorem Outcome.Stops.trans {o p : Outcome α} (hst : s.Grows t) (h : o.Stops l depth t p) :
    o.Stops l depth s p := by
  cases h with
  | shared ho =>
      refine .shared ?_
      cases o with
      | ok a u => exact ho.imp_right hst.trans
      | error e u => exact ho.imp_right hst.trans
  | reported hgrows hreport => exact .reported (hst.trans hgrows) (hst.diagnostics ▸ hreport)

/-- Nothing is reported by a reading that agrees with and without recovery. -/
theorem shared_of_agree (slot : Slot) (h : (Comparison.stopping l depth).Agree s.cursor s.cursor r r Q)
    (hQ : ∀ {a b}, Q a b → a = b) (hquiet : Quiet r) (hs : s.Shared l depth) :
    (r.run ⟨⟨depth, true⟩, true, slot⟩ s).Shared l depth s ∧
      r.run ⟨⟨depth, false⟩, true, slot⟩ s = r.run ⟨⟨depth, true⟩, true, slot⟩ s := by
  have hagree := h slot slot s s ⟨rfl, rfl⟩ hs.sessions rfl rfl
  have hleft := hquiet ⟨⟨depth, true⟩, true, slot⟩ s hs.sound (Nat.le_refl _) trivial
  change Comparison.Outcomes _ _ (r.run ⟨⟨depth, true⟩, true, slot⟩ s)
    (r.run ⟨⟨depth, false⟩, true, slot⟩ s) at hagree
  generalize r.run ⟨⟨depth, true⟩, true, slot⟩ s = o at hagree hleft ⊢
  generalize r.run ⟨⟨depth, false⟩, true, slot⟩ s = p at hagree ⊢
  cases hagree with
  | ok hab htu =>
      obtain rfl := hQ hab
      obtain rfl := Comparison.stopping_sessions htu
      exact ⟨⟨⟨htu, hleft.1⟩, hleft.2.1⟩, rfl⟩
  | error he htu =>
      obtain rfl := he
      obtain rfl := Comparison.stopping_sessions htu
      exact ⟨⟨hleft.1, hleft.2.1⟩, rfl⟩
  | leftTooDeep hx _ => exact hx.elim
  | rightTooDeep hx _ => exact hx.elim
  | void hv => exact hv.elim

namespace StopsAt

theorem of_agree (h : (Comparison.stopping l depth).Agree s.cursor s.cursor r r Q)
    (hQ : ∀ {a b}, Q a b → a = b) (hquiet : Quiet r) : StopsAt l depth slot s r := by
  intro hs
  obtain ⟨hshared, hright⟩ := shared_of_agree slot h hQ hquiet hs
  rw [hright]
  exact .shared hshared

theorem bind (h : (Comparison.stopping l depth).Agree s.cursor s.cursor r r Q)
    (hQ : ∀ {a b}, Q a b → a = b) (hquiet : Quiet r)
    (hf : ∀ a t, r.run ⟨⟨depth, true⟩, true, slot⟩ s = .ok a t → StopsAt l depth slot t (f a)) :
    StopsAt l depth slot s (r >>= f) := by
  intro hs
  obtain ⟨hshared, hright⟩ := shared_of_agree slot h hQ hquiet hs
  rw [run_bind, run_bind, hright]
  cases hr : r.run ⟨⟨depth, true⟩, true, slot⟩ s with
  | ok a t =>
      obtain ⟨ht, hgrows⟩ := hr ▸ hshared
      exact (hf a t hr ht).trans hgrows
  | error e t =>
      rw [hr] at hshared
      exact .shared hshared

theorem here_bind {f : Span → Reading β} (h : StopsAt l depth slot s (f s.cursor.span)) :
    StopsAt l depth slot s (here >>= f) := h

/-- Goes on with what is known from the session. -/
theorem andAsks (h : StopsAt l depth slot s r) (g : α → Session → β) :
    StopsAt l depth slot s (r >>= fun a => asks fun _ => g a) := by
  intro hs
  have hr := h hs
  rw [run_bind, run_bind]
  generalize r.run ⟨⟨depth, true⟩, true, slot⟩ s = o at hr ⊢
  generalize r.run ⟨⟨depth, false⟩, true, slot⟩ s = p at hr ⊢
  cases hr with
  | shared ho =>
      cases o with
      | ok a t => exact .shared ho
      | error e t => exact .shared ho
  | reported hgrows hreport => exact .reported hgrows hreport

end StopsAt

namespace Stops

theorem of_agrees (h : (Comparison.stopping l depth).Agrees r r Q) (hQ : ∀ {a b}, Q a b → a = b)
    (hquiet : Quiet r) : Stops l depth r :=
  fun _ s hs => StopsAt.of_agree (h s.cursor s.cursor hs.sessions.cursor) hQ hquiet hs

theorem bind (h : (Comparison.stopping l depth).Agrees r r Q) (hQ : ∀ {a b}, Q a b → a = b)
    (hquiet : Quiet r) (hf : ∀ a, Stops l depth (f a)) : Stops l depth (r >>= f) :=
  fun _ s hs => StopsAt.bind (h s.cursor s.cursor hs.sessions.cursor) hQ hquiet
    (fun a t _ => hf a _ t) hs

theorem map {g : α → β} (h : Stops l depth r) : Stops l depth (g <$> r) :=
  fun slot s => (h slot s).andAsks fun a _ => g a

end Stops

/-- Readings whose nodes are not looked at. -/
theorem quiet_of_adds {o : α → List Held} (h : Adds r o) : Quiet r := by
  intro setting s hs hb hk
  have hr := h setting s hs hb hk
  cases hrun : r.run setting s with
  | ok a t =>
      rw [hrun] at hr
      exact ⟨hr.1, hr.2.1, trivial⟩
  | error e t =>
      rw [hrun] at hr
      exact hr

/-! ## Items -/

section Items

variable {d : Nat}

/-- The error of a statement is what the run without recovery stops with. -/
theorem stops_statementOrError {describe : SyntaxError → SyntaxError} :
    StopsAt l depth slot s (statementOrError (nested d) describe s.cursor.span) := by
  intro hs
  have hlays := quiet_of_adds (laysOut_nested d).statement
  obtain ⟨hshared, hright⟩ := shared_of_agree slot
    ((Comparison.stopping_levels l depth d).statement _ _ hs.sessions.cursor)
    (fun h => by rwa [Comparison.stopping_terms] at h) hlays hs
  change Outcome.Stops l depth s
    (((nested d).statement.run ⟨⟨depth, true⟩, true, slot⟩ s).recovered true describe s _)
    (((nested d).statement.run ⟨⟨depth, false⟩, true, slot⟩ s).recovered false describe s _)
  rw [hright]
  cases hr : (nested d).statement.run ⟨⟨depth, true⟩, true, slot⟩ s with
  | ok a t =>
      rw [hr] at hshared
      exact .shared hshared
  | error e t =>
      rw [hr] at hshared
      obtain ⟨ht, hgrows⟩ := hshared
      obtain ⟨region, c, hskip, -⟩ := run_skipToItem s.cursor.span ⟨⟨depth, true⟩, true, slot⟩
        ((t.discard s).report (describe e)) ht.toAhead
      have herror : ∃ id u, (errorNode s.cursor.span).run ⟨⟨depth, true⟩, true, slot⟩
          ((t.discard s).report (describe e)) = .ok id u ∧
            u.diagnostics = s.diagnostics.push (describe e).toDiagnostic := by
        rw [errorNode, run_bind, hskip]
        exact ⟨_, _, rfl, congrArg (·.push (describe e).toDiagnostic) hgrows.diagnostics⟩
      obtain ⟨id, u, hu, hreport⟩ := herror
      change Outcome.Stops l depth s ((errorNode s.cursor.span).run _ _) (.error (describe e) t)
      rw [hu]
      exact .reported hgrows hreport

theorem stops_body : Stops l depth (body (nested d)) :=
  fun _ _ => stops_statementOrError

theorem quiet_typeDefinition : Quiet (typeDefinition (nested d)) := by
  have h := laysOut_nested d
  have hparams : Quiet (optionalParams (nested d)) :=
    .skip (quiet_accept _) fun _ => .ite (fun _ => quiet_of_adds (places_params h)) fun _ => quiet_pure _
  refine quiet_advance.skip fun _ => quiet_identifier.skip fun _ => ?_
  refine .skip (quiet_of_adds (places_typeParams h)) fun _ => .skip hparams fun _ => ?_
  refine .skip (quiet_expect _) fun _ => ?_
  refine .skip (quiet_of_adds (adds_collectWhile (quiet_sees _) (places_ctorCase h))) fun _ => ?_
  exact .skip (quiet_require _ _) fun _ => .skip (quiet_since _) fun _ => quiet_pure _

theorem quiet_assertion : Quiet (assertion (nested d)) := by
  have h := laysOut_nested d
  refine quiet_advance.skip fun _ => .skip (quiet_of_adds h.term) fun _ => ?_
  refine .skip (quiet_expect _) fun _ => .skip (quiet_of_adds h.type) fun _ => ?_
  exact .skip (quiet_since _) fun _ => quiet_pure _

theorem quiet_proof : Quiet (proof (nested d)) := by
  have h := laysOut_nested d
  refine quiet_advance.skip fun _ => quiet_identifier.skip fun _ => .skip (quiet_expect _) fun _ => ?_
  refine .skip (quiet_of_adds h.type.within) fun _ => .skip (quiet_expect _) fun _ => ?_
  refine .skip (quiet_of_adds h.statement.delimited) fun _ => .skip (quiet_expect _) fun _ => ?_
  exact .skip (quiet_since _) fun _ => quiet_pure _

theorem stops_definitionTail : Stops l depth (definitionTail (nested d)) := by
  intro slot s
  refine StopsAt.here_bind fun hs => ?_
  have hplaces := places_equationType (laysOut_nested d)
  have htype : Adds (speculate (some <$> equationType (nested d))) loose :=
    adds_speculate (hplaces.map fun _ => rfl) rfl
  have hagrees := Comparison.agrees_equationType (Comparison.stopping_levels l depth d)
  rw [Comparison.stopping_terms] at hagrees
  have hagree := Comparison.agree_speculate (Comparison.agree_map (hagrees _ _ hs.sessions.cursor)
    (f := some) (g := some) fun _ _ => .some)
  refine StopsAt.bind hagree rel_eq (quiet_of_adds htype) (fun found t ht => ?_) hs
  cases found with
  | some type =>
      exact Stops.bind (Comparison.agrees_expect rfl) id (quiet_expect _)
        (fun _ => stops_body.map) slot t
  | none =>
      rw [← (stays_of_speculate ht).1]
      exact stops_statementOrError.andAsks fun id _ => DefForm.nullary id

theorem stops_definitionForm : Stops l depth (definitionForm (nested d)) := by
  have h := Comparison.stopping_levels l depth d
  have hplaces := laysOut_nested d
  have hinside (ts : List Token) : (Comparison.stopping l depth).Inside ts :=
    fun _ _ hcd _ => by rw [hcd.2.1.kind]
  have hparams := Comparison.Agrees.of_within fun ts => Comparison.agreesIn_params h (hinside ts)
  have hresult := Comparison.agrees_result? h
  rw [Comparison.stopping_terms] at hparams hresult
  refine .bind (Comparison.agrees_accept rfl) id (quiet_accept _) fun opens => ?_
  cases opens with
  | true =>
      refine .bind hparams (forall₂_eq Binder.Alike.eq) (quiet_of_adds (places_params hplaces))
        fun params => ?_
      refine .bind hresult rel_eq (quiet_of_adds (places_result? hplaces)) fun result => ?_
      exact .bind (Comparison.agrees_expect rfl) id (quiet_expect _) fun _ => stops_body.map
  | false =>
      exact .bind (Comparison.agrees_expect rfl) id (quiet_expect _) fun _ => stops_definitionTail

theorem stopsAt_definition (hkind : s.cursor.kind ≠ .eof) :
    StopsAt l depth slot s (definition (nested d)) := by
  intro hs
  have hplaces := laysOut_nested d
  have hparams := Comparison.agrees_typeParams
    (Comparison.stopping_levels l depth d)
  rw [Comparison.stopping_terms] at hparams
  refine StopsAt.bind (Comparison.agree_advance hs.sessions.cursor hkind) id quiet_advance
    (fun start t _ => ?_) hs
  refine Stops.bind Comparison.agrees_identifier (fun {a b} h => Prod.ext h.name h.marks)
    quiet_identifier (fun name => ?_) slot t
  refine .bind hparams (forall₂_eq TypeParam.Alike.eq)
    (quiet_of_adds (places_typeParams hplaces)) fun typeParams => ?_
  exact fun slot s => (stops_definitionForm slot s).andAsks fun form t =>
    Item.definition ⟨name.1, typeParams, form, start.hull t.cursor.last⟩

theorem stopsAt_item (hkind : s.cursor.kind ≠ .eof) :
    StopsAt l depth slot s (Grammar.item (nested d)) := by
  intro hs
  have h := Comparison.stopping_levels l depth d
  have hst := hs.sessions.cursor
  have htype := Comparison.agree_typeDefinition h hst hkind
  have hassertion := Comparison.agree_assertion h hst hkind
  have hproof := Comparison.agree_proof h hst hkind
  have hstatement := h.statement _ _ hst
  rw [Comparison.stopping_terms] at htype hassertion hproof hstatement
  simp only [item, Reading.kind, Reading.cursor, asks, run_bind, run_pure, Outcome.andThen_ok]
  split
  · exact stopsAt_definition hkind hs
  · exact StopsAt.of_agree htype Item.Alike.eq quiet_typeDefinition hs
  · exact StopsAt.of_agree hassertion Item.Alike.eq quiet_assertion hs
  · exact StopsAt.of_agree hproof Item.Alike.eq quiet_proof hs
  · exact (StopsAt.of_agree hstatement id (quiet_of_adds (laysOut_nested d).statement)).andAsks
      (fun id _ => Item.expr id) hs

/-- An item is read by both runs, or the recovering run marks what could not be read where the
other one stops. -/
theorem stops_recovering (slot : Slot) (hs : s.Shared l depth) (hkind : s.cursor.kind ≠ .eof) :
    let r := recovering id (skipItem s.cursor) (Grammar.item (nested d))
    (∃ item t, r.run ⟨⟨depth, true⟩, true, slot⟩ s = .ok item t ∧
      r.run ⟨⟨depth, false⟩, true, slot⟩ s = .ok item t ∧ t.Shared l depth ∧ s.Grows t) ∨
    ∃ item u e t, r.run ⟨⟨depth, true⟩, true, slot⟩ s = .ok item u ∧
      r.run ⟨⟨depth, false⟩, true, slot⟩ s = .error e t ∧ s.Grows t ∧
      u.diagnostics = s.diagnostics.push e.toDiagnostic := by
  intro r
  have hitem : Outcome.Stops l depth s ((Grammar.item (nested d)).run ⟨⟨depth, true⟩, true, slot⟩ s)
      ((Grammar.item (nested d)).run ⟨⟨depth, false⟩, true, slot⟩ s) := stopsAt_item hkind hs
  have hleft : r.run ⟨⟨depth, true⟩, true, slot⟩ s =
      ((Grammar.item (nested d)).run ⟨⟨depth, true⟩, true, slot⟩ s).recovered true id s
        ((skipItem s.cursor).run ⟨⟨depth, true⟩, true, slot⟩) := rfl
  have hright : r.run ⟨⟨depth, false⟩, true, slot⟩ s =
      ((Grammar.item (nested d)).run ⟨⟨depth, false⟩, true, slot⟩ s).recovered false id s
        ((skipItem s.cursor).run ⟨⟨depth, false⟩, true, slot⟩) := rfl
  rw [hleft, hright]
  generalize (Grammar.item (nested d)).run ⟨⟨depth, true⟩, true, slot⟩ s = o at hitem ⊢
  generalize (Grammar.item (nested d)).run ⟨⟨depth, false⟩, true, slot⟩ s = p at hitem ⊢
  cases hitem with
  | reported hgrows hreport => exact .inr ⟨_, _, _, _, rfl, rfl, hgrows, hreport⟩
  | shared ho =>
      cases o with
      | ok item t => exact .inl ⟨item, t, rfl, rfl, ho⟩
      | error e t =>
          obtain ⟨ht, hgrows⟩ := ho
          obtain ⟨region, c, hskip, -⟩ := run_skipItem ⟨⟨depth, true⟩, true, slot⟩
            (t := (t.discard s).report e) ht s.cursor
          refine .inr ⟨_, _, e, t, hskip, rfl, hgrows, ?_⟩
          exact congrArg (·.push e.toDiagnostic) hgrows.diagnostics

end Items

end Stops

end BendSyntax
