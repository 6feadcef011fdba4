import BendSyntax.Proofs.Enclosed

/-! What is read without operators of assignment is an operand: it assigns nothing itself. Read with
these operators, it goes on behind the first of them. -/

namespace BendSyntax

open Reading Grammar

/-! ## Operands assign nothing -/

/-- Nothing is asked of sessions. -/
instance : Invariant fun _ : Session => True where
  advance _ := trivial
  halve _ _ := trivial
  whole _ := trivial
  complain _ _ := trivial
  restate _ _ := trivial
  remember _ _ := trivial
  rewind _ _ _ := trivial
  discard _ _ _ := trivial

/-- A term of the tree that binds and assigns nothing. -/
def Tree.IsOperand (t : Tree) (id : TermId) : Prop := ∃ term ∈ t.term? id, term.assigns = false

theorem Tree.IsOperand.assigns {t : Tree} {id : TermId} (h : t.IsOperand id) : t.assigns id = false := by
  obtain ⟨term, hterm, hassigns⟩ := h
  rw [Tree.assigns, hterm]
  exact hassigns

theorem lasting_isOperand (id : TermId) : Lasting fun s => s.tree.IsOperand id :=
  fun _ _ honward ⟨term, hterm, hassigns⟩ => ⟨term, honward.tree.term? hterm, hassigns⟩

/-- From sessions where `P` holds, the answer of a reading is an operand. -/
abbrev NamesOperand (P : Session → Prop) (r : Reading TermId) : Prop :=
  Triple (fun _ => True) P r fun id s => s.tree.IsOperand id

/-- Behind an operand a round goes on with an operand. -/
abbrev KeepsOperand (head : TermId) (r : Reading (Round TermId)) : Prop :=
  Triple (fun _ => True) (fun s => s.tree.IsOperand head) r
    (Round.Meets (fun id s => s.tree.IsOperand id) fun id s => s.tree.IsOperand id)

section Operands

variable {α : Type} {P : Session → Prop} {deep : Deeper} {start : Span} {head : TermId}
  {r : Reading TermId} {term : Term TermId PatternId}

theorem maintains_nothing (r : Reading α) : Triple (fun _ => True) P r fun _ _ => True :=
  fun _ _ _ _ => ⟨trivial, fun _ _ _ => trivial⟩

/-- Whatever is read first, the last part of a reading gives its answer. -/
theorem namesOperand_bind {r : Reading α} {f : α → Reading TermId}
    (hf : ∀ a, NamesOperand (fun _ => True) (f a)) : NamesOperand P (r >>= f) :=
  (maintains_nothing r).bind hf

theorem namesOperand_addTerm (hterm : term.assigns = false) : NamesOperand P (addTerm term start) := by
  intro setting s _ _
  refine ⟨trivial, ?_⟩
  rintro id t ⟨⟩
  exact ⟨term, Tree.term?_addTerm _ _, hterm⟩

theorem namesOperand_close (hterm : term.assigns = false) : NamesOperand P (close start term) :=
  (Triple.since start).bind fun _ => namesOperand_addTerm hterm

theorem keepsOperand_done (head : TermId) : KeepsOperand head (pure (.done head)) :=
  .pure fun _ hhead => hhead

theorem keepsOperand_more (h : NamesOperand (fun _ => True) r) : KeepsOperand head (Round.more <$> r) :=
  .map (h.weaken (fun _ _ => trivial) fun _ _ hid => ⟨hid, hid⟩)

/-- A round that may decline goes on with what it has come to, or else with `head`. -/
theorem keepsOperand_orElse {r : Reading (Option TermId)} {f : Reading (Round TermId)}
    (h : Triple (fun _ => True) (fun _ => True) r fun found s => ∀ id ∈ found, s.tree.IsOperand id)
    (hf : KeepsOperand head f) :
    KeepsOperand head (r >>= fun found => match found with
      | some id => pure (.more id)
      | none => f) := by
  refine .acrossWith (lasting_isOperand head) h fun found => ?_
  cases found with
  | none => exact hf.mono fun _ hs => hs.2
  | some id => exact .pure fun _ hs => ⟨hs.1 id rfl, hs.1 id rfl⟩

theorem namesOperand_some (h : NamesOperand P r) :
    Triple (fun _ => True) P (some <$> r) fun found s => ∀ id ∈ found, s.tree.IsOperand id := by
  refine .map (h.weaken (fun _ hP => hP) fun id s hid => ?_)
  rintro _ ⟨⟩
  exact hid

/-! ### Suffixes -/

theorem namesOperand_call (deep : Deeper) (head : TermId) (start : Span) (tight : Bool) :
    NamesOperand P (call deep head start tight) :=
  namesOperand_bind fun _ => namesOperand_bind fun _ => namesOperand_close rfl

theorem namesOperand_braceSuffix (deep : Deeper) (head : TermId) (start : Span) (tight : Bool) :
    NamesOperand P (braceSuffix deep head start tight) := by
  refine namesOperand_bind fun _ =>
    .ite (fun _ => namesOperand_bind fun _ => namesOperand_close rfl) fun _ =>
      namesOperand_bind fun found => ?_
  split
  · exact namesOperand_close rfl
  · exact namesOperand_bind fun _ => namesOperand_bind fun _ => namesOperand_bind fun _ =>
      namesOperand_close rfl

theorem namesOperand_generic? (deep : Deeper) (head : TermId) (start : Span) :
    Triple (fun _ => True) P (generic? deep head start)
      fun found s => ∀ id ∈ found, s.tree.IsOperand id := by
  refine (maintains_nothing _).bind fun found => ?_
  split
  · exact namesOperand_some (namesOperand_close rfl)
  · exact namesOperand_some (namesOperand_close rfl)
  · exact .pure fun _ _ => nofun

theorem keepsOperand_suffixRound (deep : Deeper) (start : Span) (head : TermId) :
    KeepsOperand head (suffixRound deep start head) := by
  have hlasting := lasting_isOperand head
  refine .across hlasting .ask fun c => .across hlasting .ask fun slot =>
    .ite (fun _ => keepsOperand_done head) fun _ => ?_
  split
  · exact keepsOperand_more (namesOperand_call deep head start true)
  · refine .across hlasting (maintains_nothing _) fun bare =>
      .ite (fun _ => ?_) fun _ => keepsOperand_done head
    exact keepsOperand_orElse (namesOperand_generic? deep head start) (keepsOperand_done head)
  · refine .ite (fun _ => ?_) fun _ => keepsOperand_done head
    exact .across hlasting (maintains_nothing _) fun _ => .across hlasting (maintains_nothing _) fun _ =>
      keepsOperand_more (namesOperand_close rfl)
  · exact .ite (fun _ => keepsOperand_more (namesOperand_braceSuffix deep head start true)) fun _ =>
      keepsOperand_done head
  · exact keepsOperand_done head

theorem namesOperand_suffixes (deep : Deeper) (start : Span) (head : TermId) :
    NamesOperand (fun s => s.tree.IsOperand head) (suffixes deep start head) :=
  Triple.loop (I := fun id s => s.tree.IsOperand id) (keepsOperand_suffixRound deep start) head

/-! ### Operands -/

/-- Without operators of assignment, operands are read. -/
def Deeper.NamesOperands (deep : Deeper) : Prop := NamesOperand (fun _ => True) (deep.expr .check)

theorem namesOperand_parentheses (hdeep : deep.NamesOperands) (start : Span) :
    NamesOperand P (parentheses deep start) := by
  refine namesOperand_bind fun _ => namesOperand_bind fun _ =>
    .ite (fun _ => namesOperand_close rfl) fun _ => ?_
  refine .bind (Q := fun first s => s.tree.IsOperand first) hdeep.delimited.anywhere fun first => ?_
  have hlasting := lasting_isOperand first
  refine .across hlasting (maintains_nothing _) fun _ => .ite (fun _ => ?_) fun _ => ?_
  · exact namesOperand_bind fun _ => namesOperand_bind fun _ => namesOperand_close rfl
  · exact .across hlasting (maintains_nothing _) fun _ => .across hlasting (maintains_nothing _) fun _ =>
      .pure fun _ hfirst => hfirst

theorem assigns_nameTerm (lexeme : String) : (nameTerm lexeme).assigns = false := by
  unfold nameTerm
  split <;> rfl

theorem assigns_constant {k : TokenKind} {term : Term TermId PatternId} (h : constant? k = some term) :
    term.assigns = false := by
  unfold constant? at h
  split at h <;> cases h <;> rfl

theorem namesOperand_operand (hdeep : deep.NamesOperands) : NamesOperand P (operand deep) := by
  refine namesOperand_bind fun c => .ite (fun _ => ?_) fun _ => .ite (fun _ => ?_) fun _ => ?_
  · exact namesOperand_bind fun _ => namesOperand_addTerm (assigns_nameTerm c.lexeme)
  · exact namesOperand_bind fun _ => namesOperand_bind fun _ => namesOperand_addTerm rfl
  · cases hconstant : constant? c.kind with
    | some term =>
        exact namesOperand_bind fun _ => namesOperand_addTerm (assigns_constant hconstant)
    | none =>
        simp only [compound]
        split
        · refine namesOperand_bind fun _ => namesOperand_bind fun _ => namesOperand_bind fun _ =>
            namesOperand_bind fun _ => .ite (fun _ => ?_) fun _ => namesOperand_close rfl
          exact namesOperand_bind fun _ => namesOperand_bind fun _ => namesOperand_bind fun _ =>
            namesOperand_close rfl
        · refine namesOperand_bind fun _ => namesOperand_bind fun _ => namesOperand_bind fun _ =>
            .ite (fun _ => ?_) fun _ => ?_
          · exact namesOperand_bind fun _ => namesOperand_close rfl
          · exact namesOperand_bind fun _ => namesOperand_bind fun _ => namesOperand_bind fun _ =>
              namesOperand_bind fun _ => namesOperand_close rfl
        · refine namesOperand_bind fun _ => namesOperand_bind fun _ => namesOperand_bind fun _ =>
            namesOperand_bind fun _ => namesOperand_bind fun _ => namesOperand_bind fun _ =>
              .ite (fun _ => ?_) fun _ => namesOperand_close rfl
          exact namesOperand_bind fun _ => namesOperand_bind fun _ => namesOperand_bind fun _ =>
            namesOperand_close rfl
        · exact namesOperand_parentheses hdeep _
        · refine namesOperand_bind fun _ => namesOperand_bind fun _ =>
            .ite (fun _ => namesOperand_close rfl) fun _ => ?_
          exact namesOperand_bind fun _ => namesOperand_bind fun _ => namesOperand_close rfl
        · refine .ite (fun _ => ?_) fun _ => .unexpected _
          exact namesOperand_bind fun _ => namesOperand_bind fun _ => namesOperand_bind fun _ =>
            namesOperand_bind fun _ => namesOperand_close rfl
        · exact namesOperand_bind fun _ => namesOperand_bind fun _ => namesOperand_bind fun _ =>
            namesOperand_bind fun _ => namesOperand_close rfl
        · exact namesOperand_bind fun _ => namesOperand_bind fun _ => namesOperand_close rfl
        · exact namesOperand_bind fun _ => namesOperand_bind fun _ => namesOperand_bind fun _ =>
            namesOperand_bind fun _ => namesOperand_close rfl
        · exact .unexpected _

theorem namesOperand_leading (hdeep : deep.NamesOperands) : NamesOperand P (leading deep) := by
  have hbefore {start : Span} {min : Level} {term : TermId → Term TermId PatternId}
      (hterm : ∀ id, (term id).assigns = false) : NamesOperand (fun _ => True) (before deep start min term) :=
    namesOperand_bind fun _ => namesOperand_bind fun id => namesOperand_close (hterm id)
  refine namesOperand_bind fun c => ?_
  dsimp only
  split
  · exact hbefore fun _ => rfl
  · exact hbefore fun _ => rfl
  · refine namesOperand_bind fun _ => namesOperand_bind fun _ => namesOperand_bind fun _ =>
      namesOperand_bind fun _ => .ite (fun _ => ?_) fun _ => namesOperand_close rfl
    exact namesOperand_bind fun _ => namesOperand_close rfl
  · refine namesOperand_bind fun _ => namesOperand_bind fun _ => .ite (fun _ => ?_) fun _ => ?_
    · exact namesOperand_bind fun _ => namesOperand_close rfl
    · exact namesOperand_bind fun _ => namesOperand_bind fun _ => namesOperand_bind fun _ =>
        namesOperand_close rfl
  · exact namesOperand_bind fun _ => namesOperand_bind fun _ => namesOperand_bind fun _ =>
      namesOperand_bind fun _ => namesOperand_close rfl
  · exact namesOperand_bind fun _ => namesOperand_bind fun _ => namesOperand_bind fun _ =>
      namesOperand_close rfl
  · exact namesOperand_bind fun _ => namesOperand_bind fun _ => namesOperand_bind fun _ =>
      namesOperand_close rfl
  · exact namesOperand_bind fun _ => namesOperand_bind fun _ => namesOperand_close rfl
  · exact namesOperand_bind fun _ => namesOperand_bind fun _ => namesOperand_bind fun _ =>
      namesOperand_close rfl
  · exact namesOperand_bind fun _ => namesOperand_bind fun _ => namesOperand_bind fun _ =>
      namesOperand_bind fun _ => namesOperand_bind fun _ => namesOperand_bind fun _ =>
        namesOperand_close rfl
  · exact namesOperand_bind fun _ => namesOperand_bind fun _ => namesOperand_bind fun _ =>
      namesOperand_bind fun _ => namesOperand_bind fun _ => namesOperand_bind fun _ =>
        namesOperand_close rfl
  · exact namesOperand_bind fun _ => namesOperand_bind fun _ => namesOperand_bind fun _ =>
      namesOperand_bind fun _ => namesOperand_close rfl
  · exact namesOperand_bind fun _ => namesOperand_bind fun _ => namesOperand_bind fun _ =>
      namesOperand_bind fun _ => namesOperand_close rfl
  · exact hbefore fun _ => rfl
  · exact hbefore fun _ => rfl
  · exact hbefore fun _ => rfl
  · exact hbefore fun _ => rfl
  · exact (namesOperand_operand hdeep).bind fun head => namesOperand_suffixes deep c.span head

/-! ### Operators -/

theorem assigns_infixTerm {k : TokenKind} {op : Infix} (hop : Infix.ofKind? k = some op)
    (hlevel : Level.check ≤ op.level) (lhs rhs : TermId) : (infixTerm op.form lhs rhs).assigns = false := by
  unfold Infix.ofKind? at hop
  split at hop
  · unfold Infix.ofSymbol? at hop
    split at hop <;> cases hop <;> first | rfl | exact absurd hlevel (by decide)
  all_goals cases hop <;> rfl

theorem keepsOperand_climbRound (deep : Deeper) (start : Span) (lhs : TermId) :
    KeepsOperand lhs (climbRound deep .check start lhs) := by
  have hlasting := lasting_isOperand lhs
  have hround : KeepsOperand lhs (operatorRound deep .check start lhs) := by
    refine .across hlasting .ask fun c => .across hlasting .ask fun slot => ?_
    split
    · rename_i op hop
      obtain ⟨hkind, hlevel, -⟩ := operator?_eq_some.mp hop
      exact .across hlasting (maintains_nothing _) fun _ => .across hlasting (maintains_nothing _) fun rhs =>
        keepsOperand_more (namesOperand_close (assigns_infixTerm hkind hlevel lhs rhs))
    · exact keepsOperand_done lhs
  refine .across hlasting .ask fun c => .across hlasting .ask fun slot =>
    .ite (fun _ => keepsOperand_done lhs) fun _ => ?_
  rw [if_pos (by decide)]
  refine keepsOperand_orElse ?_ hround
  have hnone {P : Session → Prop} : Triple (fun _ => True) P (pure none : Reading (Option TermId))
      fun found s => ∀ id ∈ found, s.tree.IsOperand id := .pure fun _ _ => nofun
  refine Triple.ask.bind fun c => Triple.ask.bind fun slot => .ite (fun _ => hnone) fun _ => ?_
  refine (maintains_nothing _).bind fun bare => .ite (fun _ => ?_) fun _ => .ite (fun _ => ?_) fun _ =>
    .ite (fun _ => ?_) fun _ => hnone
  · exact namesOperand_some (namesOperand_call deep lhs start false)
  · exact .ite (fun _ => hnone) fun _ => namesOperand_some (namesOperand_braceSuffix deep lhs start c.isTight)
  · exact (maintains_nothing _).bind fun _ => namesOperand_some (namesOperand_close rfl)

theorem namesOperands_nested (d : Nat) : (nested d).NamesOperands := by
  induction d with
  | zero => exact .refuse
  | succ d ih =>
      exact Triple.here.bind fun start => (namesOperand_leading ih).bind fun lhs =>
        Triple.loop (I := fun id s => s.tree.IsOperand id) (keepsOperand_climbRound (nested d) start) lhs

end Operands

/-! ## Where an operand ends in front of an assignment -/

/-- The operators of assignment. -/
def TokenKind.assigns (k : TokenKind) : Prop := k = .mark .equals ∨ k = .mark .colonEq

section Rounds

variable {deep : Deeper} {setting : Setting} {s t u : Session} {id lhs : TermId} {start : Span} {k : TokenKind}

theorem level_of_not_assigns {op : Infix} (hkind : ¬k.assigns) (hop : Infix.ofKind? k = some op) :
    Level.check ≤ op.level := by
  by_contra hlevel
  have hform := form_of_level hop (Nat.lt_of_not_le hlevel)
  unfold Infix.ofKind? at hop
  split at hop
  · unfold Infix.ofSymbol? at hop
    split at hop <;> cases hop <;>
      first | exact hkind (.inl rfl) | exact hkind (.inr rfl) | exact hlevel (by decide)
  all_goals cases hop <;> exact hlevel (by decide)

/-- In front of no operator of assignment, rounds with and without assignments are the same. -/
theorem climbRound_of_not_assigns (hkind : ¬s.cursor.kind.assigns) :
    (climbRound deep .check start lhs).run setting s =
      (climbRound deep .assignment start lhs).run setting s := by
  have hoperator : operator? s.cursor setting.slot .check = operator? s.cursor setting.slot .assignment := by
    refine Option.ext fun op => ?_
    rw [operator?_eq_some, operator?_eq_some]
    refine and_congr_right fun hop => and_congr_left fun _ => ?_
    exact iff_of_true (level_of_not_assigns hkind hop)
      (Nat.le_trans (by decide) (level_of_not_assigns hkind hop))
  have hround (t : Session) (ht : t = s) : (operatorRound deep .check start lhs).run setting t =
      (operatorRound deep .assignment start lhs).run setting t := by
    rw [ht, run_operatorRound, run_operatorRound, hoperator]
  rw [run_climbRound, run_climbRound]
  split
  · rfl
  · rw [if_pos (by decide), if_pos (by decide), run_bind, run_bind]
    cases happ : (juxtaposed? deep lhs start).run setting s with
    | error e t => rfl
    | ok found t =>
        cases found with
        | none => exact hround t (juxtaposes_of_none happ).2
        | some app => rfl

/-- In front of an operator of assignment, an operand without assignments ends. -/
theorem climbRound_of_assigns (hkind : s.cursor.kind.assigns) :
    (climbRound deep .check start lhs).run setting s = .ok (.done lhs) s := by
  refine Cursor.Settled.run_climbRound (.inr ⟨?_, fun _ => ?_⟩) <;>
    rcases hkind with hkind | hkind <;>
    simp [operator?, hkind, Infix.ofKind?, Infix.ofSymbol?, Infix.rightOp, Level.assignment, Level.check,
      Cursor.juxtaposes, Cursor.startsArgument, Cursor.opensArgument]

/-- Where rounds with assignments come to an assignment, rounds without them end in front of its operator. -/
theorem loop_check_of_assigns (hlhs : s.tree.IsOperand lhs)
    (h : (loop (climbRound deep .assignment start) lhs).run setting s = .ok id u)
    (hassigns : u.tree.assigns id = true) :
    ∃ id' u', (loop (climbRound deep .check start) lhs).run setting s = .ok id' u' ∧
      u'.cursor.kind.assigns := by
  change runLoop _ setting lhs s = .ok id u at h
  change ∃ id' u', runLoop _ setting lhs s = .ok id' u' ∧ _
  have hoperand {P : Prop} (h : u.tree.IsOperand id) : P := by
    rw [h.assigns] at hassigns
    cases hassigns
  fun_induction runLoop (climbRound deep .assignment start) setting lhs s with
  | case1 lhs s b t hround =>
      cases h
      rw [← (settled_of_done hround).2.1, ← (settled_of_done hround).1] at hlhs
      exact hoperand hlhs
  | case2 lhs s b t hround hlt ih =>
      by_cases hkind : s.cursor.kind.assigns
      · exact ⟨lhs, s, runLoop_done (climbRound_of_assigns hkind), hkind⟩
      · rw [← climbRound_of_not_assigns hkind] at hround
        rw [runLoop_more hround hlt]
        exact ih ((keepsOperand_climbRound deep start lhs setting s trivial hlhs).2 _ _ hround).1 h
  | case3 lhs s b t hround hlt =>
      by_cases hkind : s.cursor.kind.assigns
      · exact ⟨lhs, s, runLoop_done (climbRound_of_assigns hkind), hkind⟩
      · cases h
        rw [← climbRound_of_not_assigns hkind] at hround
        exact hoperand ((keepsOperand_climbRound deep start lhs setting s trivial hlhs).2 _ _ hround).2
  | case4 lhs s e t hround => cases h

/-- An operand that is read with assignments is read without them, up to its end if it assigns nothing and
else up to an operator of assignment. -/
theorem run_check_of_assignment {d : Nat} (heof : s.cursor.eof.kind = .eof)
    (h : ((nested (d + 1)).expr .assignment).run setting s = .ok id u) :
    if u.tree.assigns id then
      ∃ id' u', ((nested (d + 1)).expr .check).run setting s = .ok id' u' ∧ u'.cursor.kind.assigns
    else ((nested (d + 1)).expr .check).run setting s = .ok id u := by
  obtain ⟨lhs, t, hleading, hloop⟩ := leading_of_expr h
  obtain ⟨-, -, -, -, heq⟩ := (onward_of_ok hleading).cursor
  have hrun : ((nested (d + 1)).expr .check).run setting s =
      (loop (climbRound (nested d) .check s.cursor.span) lhs).run setting t := by
    change ((leading (nested d)).run _ s).andThen _ = _
    rw [hleading]
    rfl
  rw [hrun]
  split
  · rename_i hassigns
    have hoperand : NamesOperand (fun _ => True) (leading (nested d)) :=
      namesOperand_leading (namesOperands_nested d)
    exact loop_check_of_assigns ((hoperand setting s trivial trivial).2 _ _ hleading) hloop hassigns
  · rename_i hassigns
    exact loop_check_of_assignment (settles_nested d) (heq ▸ heof) hloop (by simpa using hassigns)

end Rounds

end BendSyntax
