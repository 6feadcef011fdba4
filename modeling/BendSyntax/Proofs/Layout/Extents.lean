import BendSyntax.Proofs.Layout.Items

/-! How much of the text items cover. All tokens between the place where an item begins and the
place where it ends lie in its span, except for semicolons behind an assignment. -/

namespace BendSyntax

open Reading Grammar Owner

/-- A span from the next token on, in which all tokens up to a later session end, semicolons
apart. -/
structure Session.Spans (s t : Session) (span : Span) : Prop where
  start : span.start ≤ s.cursor.span.start
  stop : ∀ x ∈ s.cursor.rest,
    x ∈ t.cursor.rest ∨ x.kind = .mark .semicolon ∨ x.span.stop ≤ span.stop

namespace Session

variable {s t u : Session} {start span : Span} {id : TermId}

theorem Closes.spans (h : t.Closes start id) (hst : s.cursor.Before t.cursor)
    (hstart : start.start ≤ s.cursor.span.start) : s.Spans t (t.tree.span id) where
  start := Nat.le_trans h.start hstart
  stop x hx := (hst.passed x hx).imp_right fun hpassed => .inr (Nat.le_trans hpassed h.stop)

end Session

/-- Only a semicolon is passed where one may stand. -/
theorem passed_semicolon {setting : Setting} {s t : Session} {b : Bool} (hs : s.cursor.Ahead)
    (h : (accept (.mark .semicolon)).run setting s = .ok b t) :
    ∀ x ∈ s.cursor.rest, x ∈ t.cursor.rest ∨ x.kind = .mark .semicolon := by
  change (if decide (s.cursor.kind = .mark .semicolon) = true then _ else _ : Reading Bool).run
    setting s = _ at h
  intro x hx
  split at h
  · rename_i hkind
    cases h
    have hkind : s.cursor.kind = .mark .semicolon := by simpa using hkind
    have hsplit : s.cursor.split = false := by
      cases hsplit : s.cursor.split with
      | false => rfl
      | true => simp [Cursor.kind, hsplit, hs.split hsplit] at hkind
    obtain ⟨y, ys, hrest⟩ := List.exists_cons_of_ne_nil (List.ne_nil_of_mem hx)
    rw [hrest, List.mem_cons] at hx
    rcases hx with rfl | hx
    · rw [Cursor.kind_of_not_split hsplit, Cursor.token_of_cons hrest] at hkind
      exact .inr hkind
    · exact .inl (by simpa [Cursor.advance, hrest] using hx)
  · cases h
    exact .inl hx

section Statements

variable {deep : Deeper} {setting : Setting} {s t : Session} {start : Span} {id : TermId}

theorem span_of_addTerm {term : Term TermId PatternId} {span : Span}
    (h : (addTerm term span).run setting s = .ok id t) :
    t.cursor = s.cursor ∧ t.tree.span id = span := by
  cases h
  exact ⟨rfl, by simp [Tree.span]⟩

/-- An assignment reaches from its name to the end of its value. -/
theorem span_of_assignment {name : String} {type : Option TermId} {value : TermId}
    (hvalue : value.index < s.tree.terms.size)
    (h : (assignment name start type value).run setting s = .ok id t) :
    t.cursor = s.cursor ∧ (t.tree.span id).start ≤ start.start ∧
      (s.tree.span value).stop ≤ (t.tree.span id).stop := by
  obtain ⟨var, u, hu, h⟩ := ok_of_bind h
  obtain ⟨stop, v, hv, h⟩ := ok_of_bind h
  cases hv
  have hcursor := (span_of_addTerm hu).1
  have hstop : (s.tree.span value).stop ≤ (u.tree.span value).stop := by
    have hcontains := (onward_of_ok hu).tree.spans value hvalue
    simp only [Span.contains, Bool.and_eq_true, decide_eq_true_eq] at hcontains
    exact hcontains.2
  cases type with
  | none =>
      obtain ⟨hcursor', hspan⟩ := span_of_addTerm h
      refine ⟨hcursor'.trans hcursor, ?_, ?_⟩ <;> rw [hspan]
      · simp
      · exact Nat.le_trans hstop (Nat.le_max_right _ _)
  | some type =>
      obtain ⟨stop', w, hw, h⟩ := ok_of_bind h
      cases hw
      obtain ⟨target, w, hw, h⟩ := ok_of_bind h
      obtain ⟨hcursor', hspan⟩ := span_of_addTerm h
      refine ⟨(hcursor'.trans (span_of_addTerm hw).1).trans hcursor, ?_, ?_⟩ <;> rw [hspan]
      · simp
      · exact Nat.le_trans hstop (Nat.le_max_right _ _)

variable (hlays : deep.LaysOut) (htops : deep.Tops)

include hlays htops

/-- A binding with a body reaches to the last token, and one without a body to the end of its
value, behind which there may be a semicolon. -/
theorem spans_of_binding {u : Session} {name : String} {type : Option TermId} (hs : s.Sound)
    (hst : u.cursor.Before s.cursor) (hstart : start.start ≤ u.cursor.span.start)
    (h : (Grammar.binding deep name start type).run setting s = .ok id t) :
    u.Spans t (t.tree.span id) := by
  obtain ⟨span, s₁, h₁, h⟩ := ok_of_bind h
  obtain ⟨hs₁, hgrows₁, -⟩ := h₁ ▸ quiet_expect _ setting s hs (Nat.le_refl _) trivial
  obtain ⟨value, s₂, h₂, h⟩ := ok_of_bind h
  obtain ⟨hs₂, hgrows₂, -⟩ := h₂ ▸ adds_term hlays setting s₁ hs₁ (Nat.le_refl _) trivial
  have hvalue := (htops _ _ _ value s₂ h₂ value rfl).2
  obtain ⟨semicolon, s₃, h₃, h⟩ := ok_of_bind h
  obtain ⟨hs₃, hgrows₃, -⟩ := h₃ ▸ quiet_accept _ setting s₂ hs₂ (Nat.le_refl _) trivial
  have hbefore := (hst.trans hgrows₁.cursor).trans hgrows₂.cursor
  rw [run_cursor_slot] at h
  split at h
  · obtain ⟨body, s₄, h₄, h⟩ := ok_of_bind h
    obtain ⟨-, hgrows₄, -⟩ := h₄ ▸ hlays.statement setting s₃ hs₃ (Nat.le_refl _) trivial
    have hcloses := (Tops.close (.letIn name type value body) setting s₄ id t h id rfl).2
    have hcursor : t.cursor = s₄.cursor := (span_of_addTerm h).1
    refine hcloses.spans ?_ hstart
    rw [hcursor]
    exact (hbefore.trans hgrows₃.cursor).trans hgrows₄.cursor
  · have htree := tree_accept h₃
    have hmem : value.index < s₃.tree.terms.size := by
      rw [htree]
      exact Nat.lt_of_lt_of_eq (Nat.lt_succ_self _) hvalue.top
    obtain ⟨hcursor, hlower, hupper⟩ := span_of_assignment hmem h
    rw [htree] at hupper
    refine ⟨Nat.le_trans hlower hstart, fun x hx => ?_⟩
    rw [hcursor]
    rcases hbefore.passed x hx with hrest | hpassed
    · exact (passed_semicolon hs₂.cursor.toAhead h₃ x hrest).imp_right .inl
    · exact .inr (.inr (Nat.le_trans hpassed (Nat.le_trans hvalue.stop hupper)))

omit htops in
/-- A name with its type is behind a binding, and without a value nothing is. -/
theorem of_typedName? {name : String} {span : Span} {type : TermId} (hs : s.Sound)
    (h : (typedName? deep).run setting s = .ok (some (name, span, type)) t) :
    t.Sound ∧ s.Grows t ∧ span = s.cursor.span := by
  have hattempt :=
    adds_attempt .typedLet (adds_typedName hlays) rfl setting s hs (Nat.le_refl _) trivial
  obtain ⟨ht, hgrows, -⟩ := h ▸ hattempt
  exact ⟨ht, hgrows, (placed_typedName hlays hs (ok_of_attempt h)).1⟩

/-- The tokens of a statement lie in its span, but for a semicolon behind an assignment. -/
theorem spans_of_statement (hs : s.Sound) (h : (statement deep).run setting s = .ok id t) :
    s.Spans t (t.tree.span id) := by
  have hexpr {s u : Session} (hs : s.Sound) (hus : u.cursor = s.cursor)
      (h : (deep.expr .assignment).run setting s = .ok id t) : u.Spans t (t.tree.span id) := by
    obtain ⟨-, hgrows, -⟩ := h ▸ hlays.looseExpr _ setting s hs (Nat.le_refl _) trivial
    have hcloses := (htops _ _ _ id t h id rfl).2
    exact hcloses.spans (hus ▸ hgrows.cursor) (hus ▸ Nat.le_refl _)
  simp only [statement, Reading.cursor, asks, run_bind, Outcome.andThen_ok] at h
  split at h
  · obtain ⟨⟨name, span⟩, u, hu, h⟩ := ok_of_bind h
    obtain ⟨rfl, rfl⟩ := eq_of_identifier hu
    exact spans_of_binding hlays htops (sound_advance hs) hs.cursor.before_advance (Nat.le_refl _) h
  · obtain ⟨found, u, hu, h⟩ := ok_of_bind h
    cases found with
    | some typed =>
        obtain ⟨name, span, type⟩ := typed
        obtain ⟨husound, hgrows, rfl⟩ := of_typedName? hlays hs hu
        exact spans_of_binding hlays htops husound hgrows.cursor (Nat.le_refl _) h
    | none =>
        have hattempt := adds_attempt .typedLet (adds_typedName hlays) rfl setting s hs
          (Nat.le_refl _) trivial
        obtain ⟨husound, -, -⟩ := hu ▸ hattempt
        exact hexpr husound (stays_of_attempt hu).1.symm h
  · exact hexpr hs rfl h

end Statements

theorem spans_nested_statement (d : Nat) {setting : Setting} {s t : Session} {id : TermId}
    (hs : s.Sound) (h : (nested d).statement.run setting s = .ok id t) :
    s.Spans t (t.tree.span id) := by
  cases d with
  | zero => cases h
  | succ d => exact spans_of_statement (laysOut_nested d) (tops_nested d) hs h

/-! ## Items -/

/-- A reading of an item that begins with a keyword: its span reaches from there to the last token
that was read. -/
def SpansFrom (start : Span) (r : Reading (Item TermId)) : Prop :=
  ∀ setting s item t, r.run setting s = .ok item t →
    ∀ p : Program, p.itemSpan item = start.hull t.cursor.last

namespace SpansFrom

variable {α : Type} {start : Span} {r : Reading α}

theorem bind {f : α → Reading (Item TermId)} (hf : ∀ a, SpansFrom start (f a)) :
    SpansFrom start (r >>= f) := by
  intro setting s item t h
  obtain ⟨a, u, -, h⟩ := ok_of_bind h
  exact hf a setting u item t h

theorem since {mk : Span → Item TermId} (h : ∀ span (p : Program), p.itemSpan (mk span) = span) :
    SpansFrom start (since start >>= fun span => pure (mk span)) := by
  rintro setting s item t ⟨⟩ p
  exact h _ p

/-- The keyword is the first token. -/
theorem advance {setting : Setting} {s t : Session} {item : Item TermId}
    {f : Span → Reading (Item TermId)} (hf : SpansFrom s.cursor.span (f s.cursor.span))
    (h : (Reading.advance >>= f).run setting s = .ok item t) (p : Program) :
    p.itemSpan item = s.cursor.span.hull t.cursor.last :=
  hf setting { s with cursor := s.cursor.advance } item t h p

end SpansFrom

/-- An item is a statement, or its span reaches from its keyword to the last token. -/
theorem span_of_item {deep : Deeper} {setting : Setting} {s t : Session} {item : Item TermId}
    (h : (Grammar.item deep).run setting s = .ok item t) :
    (∃ id, item = .expr id ∧ deep.statement.run setting s = .ok id t) ∨
      s.cursor.kind.startsItem = true ∧
        ∀ p : Program, p.itemSpan item = s.cursor.span.hull t.cursor.last := by
  simp only [Grammar.item, Reading.kind, Reading.cursor, asks, run_bind, run_pure,
    Outcome.andThen_ok] at h
  split at h
  · rename_i hkind
    refine .inr ⟨by rw [hkind]; rfl, SpansFrom.advance ?_ h⟩
    exact .bind fun _ => .bind fun _ => .bind fun _ => .since fun _ _ => rfl
  · rename_i hkind
    refine .inr ⟨by rw [hkind]; rfl, SpansFrom.advance ?_ h⟩
    exact .bind fun _ => .bind fun _ => .bind fun _ => .bind fun _ => .bind fun _ => .bind fun _ =>
      .since fun _ _ => rfl
  · rename_i hkind
    refine .inr ⟨by rw [hkind]; rfl, SpansFrom.advance ?_ h⟩
    exact .bind fun _ => .bind fun _ => .bind fun _ => .since fun _ _ => rfl
  · rename_i hkind
    refine .inr ⟨by rw [hkind]; rfl, SpansFrom.advance ?_ h⟩
    exact .bind fun _ => .bind fun _ => .bind fun _ => .bind fun _ => .bind fun _ => .bind fun _ =>
      .since fun _ _ => rfl
  · obtain ⟨id, v, hv, h⟩ := ok_of_bind h
    cases h
    exact .inl ⟨id, rfl, hv⟩

end BendSyntax
