import BendSyntax.Proofs.Layout.Extents

/-! Where items end, no half of a token has been read. Expressions stop in front of a second half
of a `>>` only where comparisons bind too loosely for them, and no item ends with such an
expression. -/

namespace BendSyntax

open Reading Grammar Owner

/-- A cursor that does not stand inside a token, unless it is behind the text. -/
def Cursor.Outside (c : Cursor) : Prop :=
  c.eof.kind = .eof → c.split = true → c.token.kind ≠ .mark .shiftRight

namespace Cursor

variable {c : Cursor}

theorem Ahead.split_of_outside (h : c.Ahead) (hc : c.Outside) : c.split = false := by
  cases hsplit : c.split with
  | false => rfl
  | true => exact absurd (h.split hsplit) (hc h.eof_kind hsplit)

namespace Outside

theorem of_split (h : c.split = false) : c.Outside := by
  intro _ hsplit
  rw [h] at hsplit
  cases hsplit

theorem advance (c : Cursor) : c.advance.Outside := by
  intro heof hsplit hkind
  unfold Cursor.advance at heof hsplit hkind
  split at hsplit
  · cases hsplit
  · rename_i hrest
    simp_all [token]

/-- Half of a `>>` does not begin an item. -/
theorem of_startsItem (h : c.kind.startsItem = true) : c.Outside := by
  intro _ hsplit hkind
  simp [kind, hsplit, hkind, TokenKind.startsItem] at h

/-- Half of a `>>` is a comparison. -/
theorem of_settled {s : Slot} {min : Level} (hmin : min ≤ Level.comparison) (h : c.Settled s min) :
    c.Outside := by
  intro _ hsplit hkind
  have hgreater : c.kind = .mark .greater := by simp [kind, hsplit, hkind]
  rcases h with hhead | ⟨hnone, -⟩
  · simp [atHead, atCaseHead, atFieldHead, caseHead?, hgreater] at hhead
  · have hop : operator? c s min = some (.leftOp .gt .comparison) :=
      operator?_eq_some.mpr ⟨by rw [hgreater]; rfl, hmin, fun hform => by cases hform⟩
    rw [hop] at hnone
    cases hnone

end Outside

end Cursor

namespace Reading

variable {α β : Type} {r : Reading α} {f : α → Reading β}

/-- A reading behind which the cursor does not stand inside a token. -/
def EndsOutside (r : Reading α) : Prop :=
  ∀ setting s a t, r.run setting s = .ok a t → t.cursor.Outside

/-- A reading that does not go inside a token. -/
def StaysOutside (r : Reading α) : Prop :=
  ∀ setting s a t, s.cursor.Outside → r.run setting s = .ok a t → t.cursor.Outside

theorem Stays.outside (h : r.Stays) : r.StaysOutside :=
  fun setting s a t hs ht => (h setting s a t ht).symm ▸ hs

namespace EndsOutside

theorem stays (h : r.EndsOutside) : r.StaysOutside := fun setting s a t _ ht => h setting s a t ht

theorem bind (hf : ∀ a, (f a).EndsOutside) : (r >>= f).EndsOutside := by
  intro setting s b t ht
  obtain ⟨a, u, -, ht⟩ := ok_of_bind ht
  exact hf a setting u b t ht

theorem seq (h : r.EndsOutside) (hf : ∀ a, (f a).StaysOutside) : (r >>= f).EndsOutside := by
  intro setting s b t ht
  obtain ⟨a, u, hu, ht⟩ := ok_of_bind ht
  exact hf a setting u b t (h setting s a u hu) ht

theorem ite {p : Prop} [Decidable p] {q : Reading α} (hr : r.EndsOutside) (hq : q.EndsOutside) :
    (if p then r else q).EndsOutside := by
  split
  · exact hr
  · exact hq

theorem within {change : Slot → Slot} (h : r.EndsOutside) : (Reading.within change r).EndsOutside :=
  fun _ s => h _ s

theorem withUsage {usage : Usage} (h : r.EndsOutside) :
    (Reading.withUsage usage r).EndsOutside := h.within

theorem advance : Reading.advance.EndsOutside := by
  rintro setting s a t ⟨⟩
  exact .advance _

theorem unexpected (what : String) : (Reading.unexpected what : Reading α).EndsOutside :=
  bind fun _ _ _ _ _ h => nomatch h

theorem expect (kind : TokenKind) : (Reading.expect kind).EndsOutside :=
  bind fun _ => .ite .advance (.unexpected _)

theorem recovering {describe : SyntaxError → SyntaxError} {handler : Reading α} (h : r.EndsOutside)
    (hhandler : handler.EndsOutside) : (Reading.recovering describe handler r).EndsOutside := by
  intro setting s a t ht
  change (r.run setting s).recovered _ describe s _ = _ at ht
  cases hr : r.run setting s with
  | ok b u =>
      rw [hr] at ht
      cases ht
      exact h setting s _ _ hr
  | error e u =>
      rw [hr] at ht
      simp only [Outcome.recovered] at ht
      split at ht
      · exact hhandler _ _ _ _ ht
      · cases ht

end EndsOutside

namespace StaysOutside

theorem bind (h : r.StaysOutside) (hf : ∀ a, (f a).StaysOutside) : (r >>= f).StaysOutside := by
  intro setting s b t hs ht
  obtain ⟨a, u, hu, ht⟩ := ok_of_bind ht
  exact hf a setting u b t (h setting s a u hs hu) ht

theorem asks (g : Setting → Session → α) : (Reading.asks g).StaysOutside := (stays_asks g).outside

theorem ite {p : Prop} [Decidable p] {q : Reading α} (hr : r.StaysOutside) (hq : q.StaysOutside) :
    (if p then r else q).StaysOutside := by
  split
  · exact hr
  · exact hq

theorem within {change : Slot → Slot} (h : r.StaysOutside) :
    (Reading.within change r).StaysOutside := fun _ s => h _ s

theorem accept (kind : TokenKind) : (Reading.accept kind).StaysOutside :=
  .bind (stays_kind.bind fun _ => stays_asks _).outside fun _ =>
    .ite (EndsOutside.advance.stays.bind fun _ => asks _) (asks _)

theorem loop {step : α → Reading (Round α)} (h : ∀ a, (step a).StaysOutside) (a : α) :
    (Reading.loop step a).StaysOutside := by
  intro setting s b t hs ht
  change runLoop step setting a s = .ok b t at ht
  fun_induction runLoop with
  | case1 a s c now hstep =>
      cases ht
      exact h a _ _ _ _ hs hstep
  | case2 a s c now hstep hlt ih => exact ih (h a _ _ _ _ hs hstep) ht
  | case3 a s c now hstep hge =>
      cases ht
      exact h a _ _ _ _ hs hstep
  | case4 a s e now hstep => cases ht

theorem collectWhile {more : Reading Bool} (hmore : more.StaysOutside) (h : r.StaysOutside) :
    (Reading.collectWhile more r).StaysOutside := by
  refine .bind (.loop (fun items => hmore.bind fun b => .ite ?_ (asks _)) _) fun _ => asks _
  exact h.bind fun _ => asks _

end StaysOutside

/-- The last round of a loop ends where the loop does. -/
theorem EndsOutside.loop {step : α → Reading (Round α)} (h : ∀ a, (step a).EndsOutside) (a : α) :
    (Reading.loop step a).EndsOutside := by
  intro setting s b t ht
  change runLoop step setting a s = .ok b t at ht
  fun_induction runLoop with
  | case1 a s c now hstep =>
      cases ht
      exact h a _ _ _ _ hstep
  | case2 a s c now hstep hlt ih => exact ih ht
  | case3 a s c now hstep hge =>
      cases ht
      exact h a _ _ _ _ hstep
  | case4 a s e now hstep => cases ht

end Reading

section Productions

variable {deep : Deeper}

theorem stays_addTerm (term : Term TermId PatternId) (span : Span) : (addTerm term span).Stays := by
  rintro setting s id t ⟨⟩
  rfl

theorem stays_close (start : Span) (term : Term TermId PatternId) : (close start term).Stays :=
  .bind (stays_cursor.bind fun _ => stays_asks _) fun _ => stays_addTerm _ _

theorem stays_spanOf (id : TermId) : (spanOf id).Stays := by
  rintro setting s span t ⟨⟩
  rfl

theorem stays_assignment (name : String) (start : Span) (type : Option TermId) (value : TermId) :
    (assignment name start type value).Stays := by
  refine .bind (stays_addTerm _ _) fun var => .bind (stays_spanOf _) fun stop => ?_
  cases type with
  | none => exact stays_addTerm _ _
  | some type =>
      exact .bind (stays_spanOf _) fun _ => .bind (stays_addTerm _ _) fun _ => stays_addTerm _ _

theorem endsOutside_skipToItem (start : Span) : (skipToItem start).EndsOutside := by
  refine .loop (fun region setting s x t h => ?_) _
  change (if s.cursor.kind.startsItem then (pure (Round.done region) : Reading _)
    else advance >>= fun span => pure (Round.more (region.hull span))).run setting s = _ at h
  split at h
  · cases h
    exact .of_startsItem ‹_›
  · cases h
    exact .advance _

/-- Expressions that may hold comparisons, and statements. -/
structure Deeper.EndOutside (deep : Deeper) : Prop where
  statement : deep.statement.EndsOutside
  expr : ∀ min ≤ Level.comparison, (deep.expr min).EndsOutside

variable (h : deep.EndOutside)

include h

theorem endsOutside_type : deep.type.EndsOutside := (h.expr .product (by decide)).withUsage

theorem endsOutside_binding (name : String) (start : Span) (type : Option TermId) :
    (Grammar.binding deep name start type).EndsOutside := by
  have hvalue : deep.term.EndsOutside := (h.expr .check (by decide)).withUsage
  refine .bind fun _ => hvalue.seq fun value => .bind (.accept _) fun _ => .bind (.asks _) fun _ =>
    .bind (.asks _) fun _ => .ite ?_ (stays_assignment _ _ _ _).outside
  exact (h.statement.seq fun body => (stays_close _ _).outside).stays

theorem endsOutside_statement : (statement deep).EndsOutside := by
  refine .bind fun c => ?_
  split
  · exact .bind fun _ => endsOutside_binding h _ _ _
  · refine .bind fun found => ?_
    split
    · exact endsOutside_binding h _ _ _
    · exact h.expr _ (by decide)
  · exact h.expr _ (by decide)

theorem endsOutside_statementOrError (describe : SyntaxError → SyntaxError) (start : Span) :
    (statementOrError deep describe start).EndsOutside :=
  .recovering h.statement ((endsOutside_skipToItem start).seq fun _ => (stays_addTerm _ _).outside)

theorem endsOutside_definitionForm : (definitionForm deep).EndsOutside := by
  have hbody : (body deep).EndsOutside := .bind fun _ => endsOutside_statementOrError h _ _
  refine .bind fun opens => .ite ?_ (.bind fun _ => .bind fun start => .bind fun found => ?_)
  · exact .bind fun _ => .bind fun _ => .bind fun _ => hbody.seq fun _ => .asks _
  · cases found with
    | some type => exact .bind fun _ => hbody.seq fun _ => .asks _
    | none => exact (endsOutside_statementOrError h _ _).seq fun _ => .asks _

theorem endsOutside_ctorCase : (ctorCase deep).EndsOutside := by
  have hfield : (binder (deep.expr .product)).EndsOutside :=
    .bind fun _ => .bind fun _ => (h.expr _ (by decide)).seq fun _ => .asks _
  refine .bind fun start => .bind fun _ => .bind fun _ => (EndsOutside.expect _).seq fun _ => ?_
  exact .bind (.within (.collectWhile (.bind (.asks _) fun _ => .asks _) hfield.stays)) fun _ =>
    .bind (.bind (.asks _) fun _ => .asks _) fun _ => .asks _

theorem endsOutside_item : (Grammar.item deep).EndsOutside := by
  have hsince (start : Span) : (since start).StaysOutside := .bind (.asks _) fun _ => .asks _
  refine .bind fun kind => ?_
  split
  · refine .bind fun start => .bind fun _ => .bind fun _ =>
      (endsOutside_definitionForm h).seq fun _ => ?_
    exact .bind (hsince _) fun _ => .asks _
  · refine .bind fun start => .bind fun _ => .bind fun _ => .bind fun _ => ?_
    refine (EndsOutside.expect _).seq fun _ =>
      .bind (.collectWhile ?_ (endsOutside_ctorCase h).stays) fun _ => ?_
    · exact .bind (.bind (.asks _) fun _ => .asks _) fun _ => .asks _
    · exact .bind (.ite (.asks _) (EndsOutside.unexpected _).stays) fun _ =>
        .bind (hsince _) fun _ => .asks _
  · refine .bind fun start => .bind fun _ => .bind fun _ => (endsOutside_type h).seq fun _ => ?_
    exact .bind (hsince _) fun _ => .asks _
  · refine .bind fun start => .bind fun _ => .bind fun _ => .bind fun _ => .bind fun _ =>
      .bind fun _ => ?_
    exact (EndsOutside.expect _).seq fun _ => .bind (hsince _) fun _ => .asks _
  · exact h.statement.seq fun _ => .asks _

end Productions

theorem endOutside_nested (d : Nat) : (nested d).EndOutside := by
  have hexpr (d : Nat) : ∀ min ≤ Level.comparison, ((nested d).expr min).EndsOutside := by
    intro min hmin setting s id t ht heof
    obtain ⟨-, -, -, -, heq⟩ := (onward_of_ok ht).cursor
    exact Cursor.Outside.of_settled hmin (settles_nested d min setting s id t (heq ▸ heof) ht) heof
  induction d with
  | zero =>
      have hrefuse : (nested 0).statement.EndsOutside := fun _ _ _ _ ht => nomatch ht
      exact ⟨hrefuse, hexpr 0⟩
  | succ d ih =>
      have hstatement : (nested (d + 1)).statement.EndsOutside :=
        (endsOutside_statement ih).withUsage
      exact ⟨hstatement, hexpr _⟩

end BendSyntax
