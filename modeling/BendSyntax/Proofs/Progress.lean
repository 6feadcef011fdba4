import BendSyntax.Grammar.Items

/-! An item is read from at least one token, and with recovery it is always read: an error item
stands for what cannot be read. Reading items therefore goes on to the end of the text. -/

namespace BendSyntax

open Reading Grammar

variable {config : Config} {α β : Type}

/-! ## Readings that do not fail -/

def Sure (config : Config) (r : Reading α) : Prop :=
  ∀ remembers slot s, ∃ a t, r.run ⟨config, remembers, slot⟩ s = .ok a t

namespace Sure

theorem pure (a : α) : Sure config (Pure.pure a : Reading α) := fun _ _ s => ⟨a, s, rfl⟩

theorem advance : Sure config advance := fun _ _ _ => ⟨_, _, rfl⟩

theorem asks (f : Setting → Session → α) : Sure config (asks f) := fun _ _ _ => ⟨_, _, rfl⟩

theorem bind {r : Reading α} {f : α → Reading β} (h : Sure config r)
    (hf : ∀ a, Sure config (f a)) : Sure config (r >>= f) := by
  intro remembers slot s
  obtain ⟨a, t, ht⟩ := h remembers slot s
  obtain ⟨b, u, hu⟩ := hf a remembers slot t
  exact ⟨b, u, by rw [run_bind, ht, Outcome.andThen_ok, hu]⟩

theorem ite {c : Prop} [Decidable c] {r r' : Reading α} (h : Sure config r)
    (h' : Sure config r') : Sure config (if c then r else r') := by
  split
  · exact h
  · exact h'

theorem kind : Sure config kind := (asks _).bind fun _ => pure _

theorem accept (kind : TokenKind) : Sure config (accept kind) :=
  (Sure.kind.bind fun _ => pure _).bind fun _ => ite (advance.bind fun _ => pure _) (pure _)

theorem loop {step : α → Reading (Round α)} (h : ∀ a, Sure config (step a)) (a : α) :
    Sure config (loop step a) := by
  intro remembers slot s
  change ∃ b t, runLoop step _ a s = .ok b t
  fun_induction runLoop with
  | case1 a s c now hstep => exact ⟨c, now, rfl⟩
  | case2 a s c now hstep hlt ih => exact ih
  | case3 a s c now hstep hge => exact ⟨c, now, rfl⟩
  | case4 a s e now hstep =>
      obtain ⟨b, t, ht⟩ := h a remembers slot s
      rw [ht] at hstep
      cases hstep

theorem reported (r : Reading α) : Sure config (reported r) := by
  intro remembers slot s
  change ∃ a t, (r.run _ s).reported = .ok a t
  cases r.run ⟨config, remembers, slot⟩ s <;> exact ⟨_, _, rfl⟩

theorem skipToItem (start : Span) : Sure config (skipToItem start) :=
  loop (fun _ => kind.bind fun _ => ite (pure _) (advance.bind fun _ => pure _)) _

theorem skipItem (first : Cursor) : Sure config (skipItem first) := by
  have hskip : Sure config (skipFirst first) :=
    (asks _).bind fun _ => ite (advance.bind fun _ => pure _) (pure _)
  have hrest := hskip.bind fun _ => (skipToItem first.span).bind fun region =>
    pure (.error region : Item TermId)
  exact fun remembers slot s => hrest remembers slot { s with cursor := s.cursor.whole }

theorem recovering {describe : SyntaxError → SyntaxError} {handler r : Reading α}
    (h : Sure config handler) (hrecover : config.recover = true) :
    Sure config (recovering describe handler r) := by
  intro remembers slot s
  change ∃ a t, (r.run _ s).recovered config.recover describe s _ = .ok a t
  cases r.run ⟨config, remembers, slot⟩ s with
  | ok a t => exact ⟨a, t, rfl⟩
  | error e t =>
      rw [hrecover]
      exact h remembers slot _

theorem semicolons : Sure config semicolons :=
  loop (fun _ => (accept _).bind fun _ => ite (pure _) (pure _)) ()

theorem itemRound (deep : Deeper) (items : Array (Item TermId)) :
    Sure config (itemRound deep items) := by
  refine (asks _).bind fun c => ite (pure _) ((reported _).bind fun item => ?_)
  cases item with
  | none => exact pure _
  | some item => exact semicolons.bind fun _ => pure _

theorem sourceFile (deep : Deeper) : Sure config (sourceFile deep) :=
  (loop (itemRound deep) #[]).bind fun _ => pure _

end Sure

/-! ## Readings that take a token -/

namespace Cursor

theorem Reaches.index_le {c d : Cursor} (h : c.Reaches d) : c.index ≤ d.index := by
  obtain ⟨n, -, -, hindex, -⟩ := h
  omega

theorem advance_of_rest_ne_nil {c : Cursor} (h : c.rest ≠ []) :
    c.advance = ⟨c.rest.tail, c.eof, c.index + 1, false, c.span⟩ := by
  unfold advance
  split <;> simp_all

theorem kindAt_advance {c : Cursor} (h : c.rest ≠ []) (n : Nat) :
    c.advance.kindAt n = c.kindAt (n + 1) := by
  rw [advance_of_rest_ne_nil h]
  cases n with
  | zero =>
      rw [kindAt, kind_of_not_split rfl, ← tokenAt_zero]
      simp [kindAt, tokenAt, List.getElem?_tail]
  | succ n => simp [kindAt, tokenAt, List.getElem?_tail]

theorem tightAt_one {c : Cursor} (h : c.rest ≠ []) : c.tightAt 1 = c.advance.isTight := by
  rw [advance_of_rest_ne_nil h, isTight, ← tokenAt_zero]
  simp [tightAt, tokenAt, List.getElem?_tail]

theorem index_advance {c : Cursor} (h : c.rest ≠ []) : c.advance.index = c.index + 1 := by
  rw [advance_of_rest_ne_nil h]

/-- Behind a token less remains. -/
theorem Reaches.remaining_lt {c d : Cursor} (h : c.Reaches d) (hlt : c.index < d.index) :
    d.remaining < c.remaining := by
  obtain ⟨n, hn, hrest, hindex, -⟩ := h
  simp only [remaining, hrest, List.length_drop]
  split <;> split <;> omega

end Cursor

namespace Outcome

variable {before t : Session} {o : Outcome (Option α)}

/-- What has an answer is not retracted. -/
theorem eq_of_retracted {a : α} (h : o.retracted before = .ok (some a) t) :
    o = .ok (some a) t := by
  cases o with
  | ok x u =>
      cases x with
      | none => cases h
      | some b => exact h
  | error e u =>
      simp only [retracted] at h
      split at h <;> cases h

/-- Without an answer the session has gone back. -/
theorem eq_rewind_of_retracted (h : o.retracted before = .ok none t) :
    t = o.session.rewind before := by
  cases o with
  | ok x u =>
      cases x with
      | none =>
          cases h
          rfl
      | some b => cases h
  | error e u =>
      simp only [retracted] at h
      split at h <;> cases h
      rfl

/-- Behind a test that could be made the session has gone back. -/
theorem eq_rewind_of_tested {β : Type} {o : Outcome β} {b : Bool}
    (h : o.tested before = .ok b t) : t = o.session.rewind before := by
  cases o with
  | ok x u =>
      cases h
      rfl
  | error e u =>
      simp only [tested] at h
      split at h <;> cases h
      rfl

end Outcome

namespace Reading

theorem onward_of_ok {r : Reading α} {setting : Setting} {s t : Session} {a : α}
    (h : r.run setting s = .ok a t) : s.Onward t := by
  have honward := r.onward setting s
  rwa [h] at honward

/-- A reading in two parts succeeds if both of them do. -/
theorem ok_of_bind {r : Reading α} {f : α → Reading β} {setting : Setting} {s u : Session} {b : β}
    (h : (r >>= f).run setting s = .ok b u) :
    ∃ a t, r.run setting s = .ok a t ∧ (f a).run setting t = .ok b u := by
  rw [run_bind] at h
  cases hr : r.run setting s with
  | ok a t =>
      rw [hr] at h
      exact ⟨a, t, rfl, h⟩
  | error e t =>
      rw [hr] at h
      cases h

/-- What is speculated on and comes to nothing leaves the cursor where it is, and no terms. -/
theorem stays_of_speculate {r : Reading (Option α)} {setting : Setting} {s t : Session}
    (h : (speculate r).run setting s = .ok none t) :
    t.cursor = s.cursor ∧ t.tree.terms.size = s.tree.terms.size := by
  rw [Outcome.eq_rewind_of_retracted h]
  exact ⟨rfl, (r.onward setting s).tree.size_rewind⟩

/-- An attempt that has an answer was not passed over. -/
theorem ok_of_attempt {what : Attempt} {r : Reading (Option α)} {setting : Setting} {s t : Session}
    {a : α} (h : (attempt what r).run setting s = .ok (some a) t) :
    r.run setting s = .ok (some a) t := by
  rw [run_attempt] at h
  dsimp only at h
  split at h
  · cases h
  · cases hr : (r.run setting s).retracted s with
    | ok x u =>
        rw [hr] at h
        cases x with
        | none => cases h
        | some b =>
            cases h
            exact Outcome.eq_of_retracted hr
    | error e u =>
        rw [hr] at h
        cases h

/-- An attempt that comes to nothing leaves the cursor where it is, and no terms. -/
theorem stays_of_attempt {what : Attempt} {r : Reading (Option α)} {setting : Setting}
    {s t : Session} (h : (attempt what r).run setting s = .ok none t) :
    t.cursor = s.cursor ∧ t.tree.terms.size = s.tree.terms.size := by
  rw [run_attempt] at h
  dsimp only at h
  split at h
  · cases h
    exact ⟨rfl, rfl⟩
  · cases hr : (r.run setting s).retracted s with
    | ok x u =>
        rw [hr] at h
        cases x with
        | none =>
            obtain ⟨hcursor, hsize⟩ :=
              stays_of_speculate (show (speculate r).run setting s = _ from hr)
            cases h
            exact ⟨hcursor, hsize⟩
        | some b => cases h
    | error e u =>
        rw [hr] at h
        cases h

/-- A reading that was not reported has its answer. -/
theorem ok_of_reported {r : Reading α} {setting : Setting} {s t : Session} {a : α}
    (h : (reported r).run setting s = .ok (some a) t) : r.run setting s = .ok a t := by
  change (r.run setting s).reported = _ at h
  cases hr : r.run setting s with
  | ok b u =>
      rw [hr] at h
      cases h
      rfl
  | error e u =>
      rw [hr] at h
      cases h

/-- In front of a token, a reading that succeeds takes at least this token. -/
def Takes (r : Reading α) : Prop :=
  ∀ setting s a t, s.cursor.rest ≠ [] → r.run setting s = .ok a t → s.cursor.index < t.cursor.index

/-- A reading that does not move. -/
def Stays (r : Reading α) : Prop :=
  ∀ setting s a t, r.run setting s = .ok a t → t.cursor = s.cursor

theorem stays_asks (f : Setting → Session → α) : (asks f).Stays := by
  rintro setting s a t ⟨⟩
  rfl

theorem stays_fail (e : SyntaxError) : (fail e : Reading α).Stays := by
  rintro setting s a t ⟨⟩

theorem Stays.bind {r : Reading α} {f : α → Reading β} (h : r.Stays) (hf : ∀ a, (f a).Stays) :
    (r >>= f).Stays := by
  intro setting s b u hu
  rw [run_bind] at hu
  cases hr : r.run setting s with
  | ok a t =>
      rw [hr] at hu
      exact (hf a setting t b u hu).trans (h setting s a t hr)
  | error e t => simp [hr] at hu

theorem takes_fail (e : SyntaxError) : (fail e : Reading α).Takes := by
  rintro setting s a t - ⟨⟩

theorem takes_advance : advance.Takes := by
  rintro setting s a t hs ⟨⟩
  simp [Cursor.index_advance hs]

/-- Whatever is read behind a token. -/
theorem Takes.bind {r : Reading α} (h : r.Takes) (f : α → Reading β) : (r >>= f).Takes := by
  intro setting s b u hs hu
  rw [run_bind] at hu
  cases hr : r.run setting s with
  | ok a t =>
      rw [hr] at hu
      exact Nat.lt_of_lt_of_le (h setting s a t hs hr) (onward_of_ok hu).cursor.index_le
  | error e t => simp [hr] at hu

theorem Takes.behind {r : Reading α} {f : α → Reading β} (h : r.Stays) (hf : ∀ a, (f a).Takes) :
    (r >>= f).Takes := by
  intro setting s b u hs hu
  rw [run_bind] at hu
  cases hr : r.run setting s with
  | ok a t =>
      rw [hr] at hu
      have hcursor := h setting s a t hr
      rw [← hcursor] at hs ⊢
      exact hf a setting t b u hs hu
  | error e t => simp [hr] at hu

theorem Takes.ite {p : Prop} [Decidable p] {r q : Reading α} (hr : r.Takes) (hq : q.Takes) :
    (if p then r else q).Takes := by
  split
  · exact hr
  · exact hq

theorem Takes.within {r : Reading α} (h : r.Takes) (change : Slot → Slot) :
    (within change r).Takes :=
  fun setting s a t hs ht => h { setting with slot := change setting.slot } s a t hs ht

theorem stays_cursor : cursor.Stays := stays_asks _

theorem stays_kind : kind.Stays := stays_cursor.bind fun _ => stays_asks _

theorem takes_unexpected (what : String) : (unexpected what : Reading α).Takes :=
  .behind stays_cursor fun _ => takes_fail _

theorem takes_expect (k : TokenKind) : (expect k).Takes :=
  .behind (stays_kind.bind fun _ => stays_asks _) fun _ => .ite takes_advance (takes_unexpected _)

theorem takes_identifier : identifier.Takes :=
  .behind stays_cursor fun _ => .ite (takes_advance.bind _) (takes_unexpected _)

/-- An attempt takes a token, or it comes to nothing and leaves the cursor where it is. -/
theorem Takes.attempt {what : Attempt} {r : Reading (Option α)} (h : r.Takes) (setting : Setting)
    (s t : Session) (x : Option α) (hs : s.cursor.rest ≠ [])
    (ht : (attempt what r).run setting s = .ok x t) :
    s.cursor.index < t.cursor.index ∨ x = none ∧ t.cursor = s.cursor := by
  cases x with
  | none => exact .inr ⟨rfl, (stays_of_attempt ht).1⟩
  | some a => exact .inl (h setting s _ t hs (ok_of_attempt ht))

theorem Takes.attempt_bind {what : Attempt} {r : Reading (Option α)} {f : Option α → Reading β}
    (h : r.Takes) (hf : (f none).Takes) : (Reading.attempt what r >>= f).Takes := by
  intro setting s b u hs hu
  rw [run_bind] at hu
  cases hr : (Reading.attempt what r).run setting s with
  | ok x t =>
      rw [hr] at hu
      rcases Takes.attempt h setting s t x hs hr with hlt | ⟨rfl, hcursor⟩
      · exact Nat.lt_of_lt_of_le hlt (onward_of_ok hu).cursor.index_le
      · rw [← hcursor] at hs ⊢
        exact hf setting t b u hs hu
  | error e t => simp [hr] at hu

end Reading

/-! ## Productions -/

section Productions

variable (deep : Deeper) (start : Span)

theorem stays_literal (k : TokenKind) : (literal k).Stays := by
  refine stays_cursor.bind fun c => ?_
  split
  · exact stays_asks _
  · exact stays_fail _

theorem takes_operand : (operand deep).Takes := by
  refine .behind stays_cursor fun c => .ite (takes_advance.bind _) ?_
  refine .ite (.behind (stays_literal _) fun _ => takes_advance.bind _) ?_
  split
  · exact takes_advance.bind _
  · unfold compound
    split
    · exact takes_advance.bind _
    · exact takes_advance.bind _
    · exact takes_advance.bind _
    · exact takes_advance.bind _
    · exact takes_advance.bind _
    · exact .ite (.behind (stays_cursor.bind fun _ => stays_asks _) fun _ => takes_advance.bind _)
        (takes_unexpected _)
    · exact takes_advance.bind _
    · exact takes_advance.bind _
    · exact takes_advance.bind _
    · exact takes_unexpected _

theorem takes_leading : (leading deep).Takes := by
  refine .behind stays_cursor fun c => ?_
  dsimp only
  split
  case h_18 => exact (takes_operand deep).bind _
  case h_8 => exact (takes_advance.bind _).bind _
  case h_9 => exact (takes_advance.bind _).bind _
  all_goals exact takes_advance.bind _

theorem takes_expression (min : Level) : (expression deep min).Takes :=
  .behind (stays_cursor.bind fun _ => stays_asks _) fun _ => (takes_leading deep).bind _

theorem takes_refuse : (refuse : Reading α).Takes :=
  .behind (stays_asks _) fun _ => .behind (stays_cursor.bind fun _ => stays_asks _) fun _ =>
    takes_fail _

theorem takes_nested_expr (d : Nat) (min : Level) : (nested d (.expr min)).Takes := by
  cases d with
  | zero => exact takes_refuse
  | succ d => exact takes_expression (nested d) min

theorem takes_statement (d : Nat) : (statement (nested d)).Takes := by
  refine .behind stays_cursor fun c => ?_
  split
  · exact takes_identifier.bind _
  · exact .attempt_bind (takes_identifier.bind _) (takes_nested_expr d _)
  · exact takes_nested_expr d _

theorem takes_nested_statement (d : Nat) : (nested d).statement.Takes := by
  cases d with
  | zero => exact takes_refuse
  | succ d => exact (takes_statement d).within (·.withUsage .term)

theorem takes_item (d : Nat) : (item (nested d)).Takes := by
  refine .behind stays_kind fun k => ?_
  split
  · exact takes_advance.bind _
  · exact takes_advance.bind _
  · exact takes_advance.bind _
  · exact takes_advance.bind _
  · exact (takes_nested_statement d).bind _

end Productions

/-! ## Rounds -/

theorem runLoop_done {step : α → Reading (Round α)} {setting : Setting} {a b : α} {s t : Session}
    (h : (step a).run setting s = .ok (.done b) t) : runLoop step setting a s = .ok b t := by
  rw [runLoop, h]

theorem runLoop_more {step : α → Reading (Round α)} {setting : Setting} {a b : α} {s t : Session}
    (h : (step a).run setting s = .ok (.more b) t)
    (hlt : t.cursor.remaining < s.cursor.remaining) :
    runLoop step setting a s = runLoop step setting b t := by
  rw [runLoop, h]
  exact if_pos hlt

theorem run_itemRound (deep : Deeper) (setting : Setting) (s : Session)
    (items : Array (Item TermId)) : (itemRound deep items).run setting s =
      (if s.cursor.kind = .eof then (pure (.done items) : Reading (Round _)) else
        reported (recovering id (skipItem s.cursor) (Grammar.item deep)) >>= fun x =>
          match x with
          | some item => semicolons >>= fun _ => pure (.more (items.push item))
          | none => pure (.done items)).run setting s := rfl

/-- At the end of a text there are no more items. -/
theorem itemRound_done {deep : Deeper} {setting : Setting} {s : Session}
    (hkind : s.cursor.kind = .eof) (items : Array (Item TermId)) :
    (itemRound deep items).run setting s = .ok (.done items) s := by
  rw [run_itemRound, if_pos hkind]
  rfl

section Rounds

variable (setting : Setting) {s : Session} (hs : s.cursor.rest ≠ [])

include hs

theorem index_lt_skipFirst {t : Session} (hst : s.cursor.Reaches t.cursor) :
    ∃ u, (skipFirst s.cursor).run setting t = .ok () u ∧ s.cursor.index < u.cursor.index := by
  have hrun : (skipFirst s.cursor).run setting t =
      (if t.cursor.index = s.cursor.index then advance >>= fun _ => pure () else pure ()).run
        setting t := rfl
  rw [hrun]
  by_cases hindex : t.cursor.index = s.cursor.index
  · rw [if_pos hindex]
    obtain ⟨n, hn, hrest, hindex', -⟩ := hst
    obtain rfl : n = 0 := by omega
    have hne : t.cursor.rest ≠ [] := by simpa [hrest] using hs
    exact ⟨{ t with cursor := t.cursor.advance }, rfl, by simp [Cursor.index_advance hne, hindex]⟩
  · rw [if_neg hindex]
    exact ⟨t, rfl, Nat.lt_of_le_of_ne hst.index_le (Ne.symm hindex)⟩

/-- Where an item could not be read, reading goes on behind its first token. -/
theorem index_lt_skipItem {t u : Session} (hst : s.Onward t) {a : Item TermId}
    (hu : (skipItem s.cursor).run setting t = .ok a u) : s.cursor.index < u.cursor.index := by
  obtain ⟨v, hv, hlt⟩ := index_lt_skipFirst setting hs (t := { t with cursor := t.cursor.whole })
    (hst.cursor.trans (.whole _))
  have hrest : (Item.error <$> skipToItem s.cursor.span).run setting v = .ok a u := by
    rw [← hu]
    change _ = ((skipFirst s.cursor).run setting { t with cursor := t.cursor.whole }).andThen _
    rw [hv]
    rfl
  exact Nat.lt_of_lt_of_le hlt (onward_of_ok hrest).cursor.index_le

theorem index_lt_recovering (d : Nat) {a : Item TermId} {t : Session}
    (ht : (recovering id (skipItem s.cursor) (item (nested d))).run setting s = .ok a t) :
    s.cursor.index < t.cursor.index := by
  have honward := (item (nested d)).onward setting s
  change ((item (nested d)).run setting s).recovered setting.config.recover id s _ = .ok a t at ht
  cases hr : (item (nested d)).run setting s with
  | ok b u =>
      rw [hr] at ht
      cases ht
      exact takes_item d setting s _ _ hs hr
  | error e u =>
      rw [hr] at ht honward
      cases hrecover : setting.config.recover with
      | true =>
          rw [hrecover] at ht
          exact index_lt_skipItem setting hs (honward.discard.trans (.report _ _)) ht
      | false =>
          rw [hrecover] at ht
          cases ht

/-- With recovery, every round in front of a token reads an item and goes onward. -/
theorem itemRound_more (hkind : s.cursor.kind ≠ .eof) (hrecover : setting.config.recover = true)
    (d : Nat) (items : Array (Item TermId)) :
    ∃ item t, (itemRound (nested d) items).run setting s = .ok (.more (items.push item)) t ∧
      t.cursor.remaining < s.cursor.remaining := by
  have hitem : Sure setting.config
      (recovering id (skipItem s.cursor) (Grammar.item (nested d))) :=
    (Sure.skipItem s.cursor).recovering hrecover
  have hsemicolons : Sure setting.config semicolons := Sure.semicolons
  obtain ⟨item, t, ht⟩ := hitem setting.remembers setting.slot s
  obtain ⟨⟨⟩, u, hu⟩ := hsemicolons setting.remembers setting.slot t
  have hround : (itemRound (nested d) items).run setting s = .ok (.more (items.push item)) u := by
    have hreported : (reported (recovering id (skipItem s.cursor)
        (Grammar.item (nested d)))).run setting s = .ok (some item) t :=
      congrArg Outcome.reported ht
    rw [run_itemRound, if_neg hkind, run_bind, hreported, Outcome.andThen_ok, run_bind]
    exact congrArg (Outcome.andThen · _) hu
  refine ⟨item, u, hround, (onward_of_ok hround).cursor.remaining_lt ?_⟩
  exact Nat.lt_of_lt_of_le (index_lt_recovering setting hs d ht) (onward_of_ok hu).cursor.index_le

end Rounds

end BendSyntax
