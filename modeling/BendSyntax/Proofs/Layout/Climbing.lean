import BendSyntax.Proofs.Progress

/-! Where an expression ends: neither an argument nor an operator can follow there. An operator
behind it is one that binds less tightly, and whoever reads on there meets the same. -/

namespace BendSyntax

open Reading Grammar

/-! ## Where an expression ends -/

/-- Whether an argument can follow by juxtaposition, whatever the function. -/
def Cursor.juxtaposes (c : Cursor) (s : Slot) : Bool :=
  !s.noJuxtapose &&
    if c.kind = .mark .leftBrace then !s.noLooseBrace && c.bracesOperand s else c.startsArgument s

/-- Whether an expression whose operators bind at `min` or more tightly ends here. -/
def Cursor.Settled (c : Cursor) (s : Slot) (min : Level) : Prop :=
  c.atHead s = true ∨
    operator? c s min = none ∧ (min ≤ Level.application → c.juxtaposes s = false)

theorem operator?_eq_some {c : Cursor} {s : Slot} {min : Level} {op : Infix} :
    operator? c s min = some op ↔
      Infix.ofKind? c.kind = some op ∧ min ≤ op.level ∧ (op.form = .sigma → s.noDot = false) := by
  unfold operator?
  cases Infix.ofKind? c.kind with
  | none => simp
  | some op' => grind

/-- An operator that follows where an expression ended binds less tightly. -/
theorem Cursor.Settled.level_lt {c : Cursor} {s : Slot} {min least : Level} {op : Infix}
    (h : c.Settled s least) (hhead : c.atHead s = false) (hop : operator? c s min = some op) :
    op.level < least := by
  rcases h with hhead' | ⟨hnone, -⟩
  · rw [hhead] at hhead'
    cases hhead'
  · obtain ⟨hkind, -, hdot⟩ := operator?_eq_some.mp hop
    refine Nat.lt_of_not_le fun hle => ?_
    rw [operator?_eq_some.mpr ⟨hkind, hle, hdot⟩] at hnone
    cases hnone

section Rounds

variable {deep : Deeper} {min : Level} {start : Span} {lhs func : TermId} {setting : Setting}
  {s t : Session}

theorem run_juxtaposed? (deep : Deeper) (func : TermId) (start : Span) (setting : Setting)
    (s : Session) : (juxtaposed? deep func start).run setting s =
      (if setting.slot.noJuxtapose then pure none
      else if s.cursor.kind = .mark .leftParen && !s.cursor.isTight && s.tree.isBareName func then
        some <$> call deep func start false
      else if s.cursor.kind = .mark .leftBrace then
        if setting.slot.noLooseBrace || !s.cursor.bracesOperand setting.slot then pure none
        else some <$> braceSuffix deep func start s.cursor.isTight
      else if s.cursor.startsArgument setting.slot then
        deep.expr .suffix >>= fun arg => some <$> close start (.app func arg)
      else pure none).run setting s := by
  simp only [juxtaposed?, Reading.cursor, Reading.slot, bareName, asksTerm, asks, run_bind,
    Outcome.andThen_ok]
  split
  · rfl
  · rw [run_bind, Outcome.andThen_ok]

theorem run_climbRound (deep : Deeper) (min : Level) (start : Span) (lhs : TermId)
    (setting : Setting) (s : Session) : (climbRound deep min start lhs).run setting s =
      (if s.cursor.atHead setting.slot then pure (.done lhs)
      else if min ≤ Level.application then
        juxtaposed? deep lhs start >>= fun x =>
          match x with
          | some app => pure (.more app)
          | none => operatorRound deep min start lhs
      else operatorRound deep min start lhs).run setting s := rfl

theorem run_operatorRound (deep : Deeper) (min : Level) (start : Span) (lhs : TermId)
    (setting : Setting) (s : Session) : (operatorRound deep min start lhs).run setting s =
      (match operator? s.cursor setting.slot min with
      | some op =>
          advance >>= fun _ => rightOperand deep op >>= fun rhs =>
            Round.more <$> close start (infixTerm op.form lhs rhs)
      | none => pure (.done lhs)).run setting s := rfl

/-- Where no argument follows, juxtaposition declines. -/
theorem run_juxtaposed?_of_not (hhead : s.cursor.atHead setting.slot = false)
    (hjuxtaposes : s.cursor.juxtaposes setting.slot = false) :
    (juxtaposed? deep func start).run setting s = .ok none s := by
  rw [run_juxtaposed?]
  simp only [Cursor.juxtaposes, Bool.and_eq_false_iff, Bool.not_eq_false'] at hjuxtaposes
  by_cases hno : setting.slot.noJuxtapose = true
  · rw [if_pos hno]
    rfl
  · have hnext := hjuxtaposes.resolve_left hno
    rw [if_neg hno]
    by_cases hbrace : s.cursor.kind = .mark .leftBrace
    · have hdeclines :
        (setting.slot.noLooseBrace || !s.cursor.bracesOperand setting.slot) = true := by
        rw [if_pos hbrace] at hnext
        cases hloose : setting.slot.noLooseBrace <;> simp_all
      simp only [hbrace, hdeclines, if_true]
      rfl
    · rw [if_neg hbrace] at hnext
      have hparen : s.cursor.kind ≠ .mark .leftParen := fun hparen => by
        simp [Cursor.startsArgument, hhead, hparen, Cursor.opensArgument] at hnext
      simp only [hparen, hbrace, hnext, decide_false, Bool.false_and, Bool.false_eq_true, if_false]
      rfl

/-- Where an argument follows, it is read. -/
theorem juxtaposes_of_none (h : (juxtaposed? deep func start).run setting s = .ok none t) :
    s.cursor.juxtaposes setting.slot = false ∧ t = s := by
  rw [run_juxtaposed?] at h
  have hsome {r : Reading TermId} (h : (some <$> r).run setting s = .ok none t) : False := by
    change (r.run setting s).andThen _ = _ at h
    cases hr : r.run setting s <;> rw [hr] at h <;> cases h
  split at h
  · cases h
    simp_all [Cursor.juxtaposes]
  · split at h
    · exact (hsome h).elim
    · split at h
      · split at h
        · rename_i hdeclines
          cases h
          cases hloose : setting.slot.noLooseBrace <;> simp_all [Cursor.juxtaposes]
        · exact (hsome h).elim
      · split at h
        · rw [run_bind] at h
          cases hr : (deep.expr .suffix).run setting s <;> rw [hr] at h <;> cases h
        · cases h
          simp_all [Cursor.juxtaposes]

/-- Where the expression is settled, the loop behind an operand ends. -/
theorem Cursor.Settled.run_climbRound (h : s.cursor.Settled setting.slot min) :
    (climbRound deep min start lhs).run setting s = .ok (.done lhs) s := by
  rw [BendSyntax.run_climbRound]
  cases hhead : s.cursor.atHead setting.slot with
  | true => rfl
  | false =>
      obtain ⟨hnone, hjuxtaposes⟩ := h.resolve_left (by simp [hhead])
      have hoperator : (operatorRound deep min start lhs).run setting s = .ok (.done lhs) s := by
        rw [run_operatorRound, hnone]
        rfl
      rw [if_neg Bool.false_ne_true]
      split
      · rename_i hle
        rw [run_bind, run_juxtaposed?_of_not hhead (hjuxtaposes hle)]
        exact hoperator
      · exact hoperator

/-- The loop behind an operand ends where the expression is settled. -/
theorem settled_of_done {b : TermId}
    (h : (climbRound deep min start lhs).run setting s = .ok (.done b) t) :
    b = lhs ∧ t = s ∧ s.cursor.Settled setting.slot min := by
  have hoperator {s : Session}
      (h : (operatorRound deep min start lhs).run setting s = .ok (.done b) t) :
      b = lhs ∧ t = s ∧ operator? s.cursor setting.slot min = none := by
    rw [run_operatorRound] at h
    split at h
    · rename_i op _
      simp only [run_bind, Reading.advance, Outcome.andThen_ok] at h
      cases hr : (rightOperand deep op).run setting { s with cursor := s.cursor.advance } <;>
        rw [hr] at h <;> cases h
    · cases h
      exact ⟨rfl, rfl, ‹_›⟩
  rw [run_climbRound] at h
  split at h
  · cases h
    exact ⟨rfl, rfl, .inl ‹_›⟩
  · split at h
    · obtain ⟨app?, u, hr, hround⟩ := ok_of_bind h
      cases app? with
      | some app => cases hround
      | none =>
          obtain ⟨hjuxtaposes, rfl⟩ := juxtaposes_of_none hr
          obtain ⟨rfl, rfl, hnone⟩ := hoperator hround
          exact ⟨rfl, rfl, .inr ⟨hnone, fun _ => hjuxtaposes⟩⟩
    · obtain ⟨rfl, rfl, hnone⟩ := hoperator h
      exact ⟨rfl, rfl, .inr ⟨hnone, fun hle => absurd hle ‹_›⟩⟩

/-! ## Rounds take tokens -/

theorem Cursor.kind_of_rest_nil {c : Cursor} (heof : c.eof.kind = .eof) (hrest : c.rest = []) :
    c.kind = .eof := by
  simp [Cursor.kind, token, hrest, heof]

theorem takes_braceSuffix (tight : Bool) :
    (braceSuffix deep func start tight).Takes := by
  refine .behind stays_cursor fun c => .ite (Takes.bind ?_ _) (Takes.attempt_bind ?_ ?_)
  · exact .behind (stays_cursor.bind fun _ => stays_asks _) fun _ => takes_advance.bind _
  · exact takes_advance.bind _
  · exact (takes_expect _).bind _

variable (hdeep : ∀ min, (deep.expr min).Takes) (heof : s.cursor.eof.kind = .eof)

include hdeep heof

theorem index_lt_of_juxtaposed {app : TermId}
    (h : (juxtaposed? deep func start).run setting s = .ok (some app) t) :
    s.cursor.index < t.cursor.index := by
  have hsome {r : Reading TermId} (hr : r.Takes) (hkind : s.cursor.kind ≠ .eof)
      (h : (some <$> r).run setting s = .ok (some app) t) : s.cursor.index < t.cursor.index :=
    (hr.bind _) setting s _ t (mt (Cursor.kind_of_rest_nil heof) hkind) h
  rw [run_juxtaposed?] at h
  split at h
  · cases h
  · split at h
    · exact hsome (takes_advance.bind _) (by simp_all) h
    · split at h
      · split at h
        · cases h
        · exact hsome (takes_braceSuffix _) (by simp_all) h
      · split at h
        · rename_i harg
          refine (hdeep .suffix).bind _ setting s _ t (mt (Cursor.kind_of_rest_nil heof) ?_) h
          intro hkind
          simp [Cursor.startsArgument, hkind, Cursor.opensArgument] at harg
        · cases h

omit hdeep in
theorem index_lt_of_operatorRound {b : TermId}
    (h : (operatorRound deep min start lhs).run setting s = .ok (.more b) t) :
    s.cursor.index < t.cursor.index := by
  rw [run_operatorRound] at h
  split at h
  · rename_i op hop
    have hkind : s.cursor.kind ≠ .eof := fun hkind => by
      have hnone := (operator?_eq_some.mp hop).1
      rw [hkind] at hnone
      cases hnone
    exact takes_advance.bind _ setting s _ t (mt (Cursor.kind_of_rest_nil heof) hkind) h
  · cases h

/-- A round that goes on has taken a token. -/
theorem index_lt_of_more {b : TermId}
    (h : (climbRound deep min start lhs).run setting s = .ok (.more b) t) :
    s.cursor.index < t.cursor.index := by
  rw [run_climbRound] at h
  split at h
  · cases h
  · split at h
    · rw [run_bind] at h
      match hr : (juxtaposed? deep lhs start).run setting s with
      | .ok (some app) u =>
          rw [hr] at h
          cases h
          exact index_lt_of_juxtaposed hdeep heof hr
      | .error e u =>
          rw [hr] at h
          cases h
      | .ok none u =>
          rw [hr] at h
          obtain ⟨-, rfl⟩ := juxtaposes_of_none hr
          exact index_lt_of_operatorRound heof h
    · exact index_lt_of_operatorRound heof h

theorem settled_of_loop {b : TermId}
    (h : (loop (climbRound deep min start) lhs).run setting s = .ok b t) :
    t.cursor.Settled setting.slot min := by
  change runLoop _ setting lhs s = .ok b t at h
  fun_induction runLoop with
  | case1 a s c now hstep =>
      cases h
      obtain ⟨-, rfl, hsettled⟩ := settled_of_done hstep
      exact hsettled
  | case2 a s c now hstep hlt ih =>
      obtain ⟨-, -, -, -, hnow⟩ := (onward_of_ok hstep).cursor
      exact ih (hnow ▸ heof) h
  | case3 a s c now hstep hge =>
      have hindex := index_lt_of_more hdeep heof hstep
      exact absurd ((onward_of_ok hstep).cursor.remaining_lt hindex) hge
  | case4 a s e now hstep => cases h

end Rounds

/-- Expressions end where they are settled. -/
def Deeper.Settles (deep : Deeper) : Prop :=
  ∀ min setting s id t, s.cursor.eof.kind = .eof → (deep.expr min).run setting s = .ok id t →
    t.cursor.Settled setting.slot min

theorem settles_nested (d : Nat) : (nested d).Settles := by
  intro min setting s id t heof h
  cases d with
  | zero => cases h
  | succ d =>
      change ((leading (nested d)).run setting s).andThen _ = .ok id t at h
      cases hr : (leading (nested d)).run setting s with
      | ok lhs u =>
          rw [hr] at h
          obtain ⟨-, -, -, -, hu⟩ := (onward_of_ok hr).cursor
          exact settled_of_loop (takes_nested_expr d) (hu ▸ heof) h
      | error e u =>
          rw [hr] at h
          cases h

end BendSyntax
