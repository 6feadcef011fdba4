import BendSyntax.Proofs.Chain.Blocks
import BendSyntax.Proofs.Containment
import BendSyntax.Proofs.Formula.Reading
import BendSyntax.Proofs.Lexing.Enclosed

/-! Parentheses are transparent: a text that is an expression, and no binding, is the same expression
between parentheses, one level deeper. On its own the text is read as a statement, and behind it
the text ends; between parentheses it is read as an operand without assignments, and behind it
stands a parenthesis. -/

namespace BendSyntax

open Reading Grammar

/-- Terms that bind a name or assign to it. They are statements rather than operands. -/
def Term.assigns {τ π : Type} : Term τ π → Bool
  | .letIn .. => true
  | .op2 .assign _ _ => true
  | .op2 .define _ _ => true
  | _ => false

/-- Whether the term at a place of a tree binds a name or assigns to it. -/
def Tree.assigns (t : Tree) (id : TermId) : Bool := (t.term? id).any Term.assigns

section Readings

variable {deep : Deeper} {setting : Setting} {s u : Session} {id lhs : TermId} {start : Span}

/-! ## Statements that are no bindings -/

theorem assigns_close {term : Term TermId PatternId} (hterm : term.assigns = true)
    (h : (close start term).run setting s = .ok id u) :
    u.tree.assigns id = true ∧ u.cursor = s.cursor := by
  have hid : u.tree.term? id = some term := by
    cases h
    exact Tree.term?_addTerm _ _
  cases h
  exact ⟨by rw [Tree.assigns, hid]; exact hterm, rfl⟩

theorem assigns_addTerm {term : Term TermId PatternId} (hterm : term.assigns = true)
    (h : (addTerm term start).run setting s = .ok id u) : u.tree.assigns id = true := by
  have hid : u.tree.term? id = some term := by
    cases h
    exact Tree.term?_addTerm _ _
  rw [Tree.assigns, hid]
  exact hterm

theorem assigns_assignment {name : String} {type : Option TermId} {value : TermId}
    (h : (assignment name start type value).run setting s = .ok id u) : u.tree.assigns id = true := by
  unfold assignment at h
  obtain ⟨var, s₁, -, h⟩ := ok_of_bind h
  obtain ⟨stop, s₂, -, h⟩ := ok_of_bind h
  cases type with
  | none => exact assigns_addTerm rfl h
  | some type =>
      obtain ⟨span, s₃, -, h⟩ := ok_of_bind h
      obtain ⟨target, s₄, -, h⟩ := ok_of_bind h
      exact assigns_addTerm rfl h

theorem assigns_binding {name : String} {type : Option TermId}
    (h : (binding deep name start type).run setting s = .ok id u) : u.tree.assigns id = true := by
  unfold binding at h
  obtain ⟨-, s₁, -, h⟩ := ok_of_bind h
  obtain ⟨value, s₂, -, h⟩ := ok_of_bind h
  obtain ⟨-, s₃, -, h⟩ := ok_of_bind h
  obtain ⟨c, s₄, -, h⟩ := ok_of_bind h
  obtain ⟨slot, s₅, -, h⟩ := ok_of_bind h
  split at h
  · obtain ⟨body, s₆, -, h⟩ := ok_of_bind h
    exact (assigns_close rfl h).1
  · exact assigns_assignment h

/-- A name with a colon behind it is no expression: the text goes on behind the name. -/
theorem kind_of_run_name {d : Nat} (hkind : s.cursor.kind = .ident)
    (hcolon : s.cursor.kindAt 1 = .mark .colon) (heof : s.cursor.eof.kind = .eof)
    (h : ((nested d).expr .assignment).run setting s = .ok id u) : u.cursor.kind = .mark .colon := by
  cases d with
  | zero => cases h
  | succ d =>
      have hrest : s.cursor.rest ≠ [] :=
        Cursor.rest_ne_nil heof (by rw [hkind]; rfl)
      have hnext : s.next.cursor.kind = .mark .colon :=
        (Cursor.kindAt_advance hrest 0).trans hcolon
      change ((leading (nested d)).run setting s).andThen (fun lhs =>
        (loop (climbRound (nested d) .assignment s.cursor.span) lhs).run setting) = .ok id u at h
      have hoperand : ∃ head tree, (operand (nested d)).run setting s =
          .ok head { s.next with tree } := by
        simp only [operand, Reading.cursor, asks, run_bind, Outcome.andThen_ok, hkind, if_true]
        exact ⟨_, _, rfl⟩
      obtain ⟨head, tree, hoperand⟩ := hoperand
      have hsuffixes : (suffixes (nested d) s.cursor.span head).run setting { s.next with tree } =
          .ok head { s.next with tree } := by
        refine runLoop_done ?_
        simp only [suffixRound, Reading.cursor, Reading.slot, asks, run_bind, Outcome.andThen_ok, hnext]
        split <;> rfl
      have hsettled : s.next.cursor.Settled setting.slot .assignment :=
        .inr ⟨by simp [operator?, hnext, Infix.ofKind?, Infix.ofSymbol?],
          fun _ => by simp [Cursor.juxtaposes, hnext, Cursor.startsArgument, Cursor.opensArgument]⟩
      have hloop : (loop (climbRound (nested d) .assignment s.cursor.span) head).run setting
          { s.next with tree } = .ok head { s.next with tree } := by
        refine runLoop_done (Cursor.Settled.run_climbRound ?_)
        exact hsettled
      rw [run_leading_operand _ _ (by simp [hkind]), hoperand, Outcome.andThen_ok, hsuffixes,
        Outcome.andThen_ok, hloop] at h
      cases h
      exact hnext

/-- A whole text that is no binding is read as an expression. -/
theorem run_statement_of_not_assigns {d : Nat} (heof : s.cursor.eof.kind = .eof)
    (h : (statement (nested d)).run setting s = .ok id u) (hassigns : u.tree.assigns id = false)
    (hend : u.cursor.kind = .eof) : ((nested d).expr .assignment).run setting s = .ok id u := by
  simp only [statement, Reading.cursor, asks, run_bind, Outcome.andThen_ok] at h
  split at h
  · obtain ⟨⟨name, span⟩, s₁, -, h⟩ := ok_of_bind h
    rw [assigns_binding h] at hassigns
    cases hassigns
  · rename_i hkind hcolon
    obtain ⟨found, s₁, hfound, h⟩ := ok_of_bind h
    cases found with
    | some found =>
        rw [assigns_binding h] at hassigns
        cases hassigns
    | none =>
        have hcursor : s₁.cursor = s.cursor := (stays_of_attempt hfound).1
        have hcolon' := kind_of_run_name (hcursor ▸ hkind) (hcursor ▸ hcolon) (hcursor ▸ heof) h
        rw [hend] at hcolon'
        cases hcolon'
  · exact h

/-! ## Expressions that are no assignments -/

theorem form_of_level {k : TokenKind} {op : Infix} (hop : Infix.ofKind? k = some op)
    (hlevel : op.level < Level.check) :
    op = .rightOp .assign .assignment ∨ op = .rightOp .define .assignment := by
  unfold Infix.ofKind? at hop
  split at hop
  · unfold Infix.ofSymbol? at hop
    split at hop <;> cases hop <;>
      first | exact .inl rfl | exact .inr rfl | exact absurd hlevel (by decide)
  all_goals cases hop <;> exact absurd hlevel (by decide)

theorem Cursor.Settled.check {c : Cursor} {slot : Slot} (h : c.Settled slot .assignment) :
    c.Settled slot .check := by
  refine h.imp_right fun ⟨hnone, hjuxtaposes⟩ => ⟨?_, fun _ => hjuxtaposes (by decide)⟩
  cases hop : operator? c slot .check with
  | none => rfl
  | some op =>
      obtain ⟨hkind, hlevel, hdot⟩ := operator?_eq_some.mp hop
      have hsome : operator? c slot .assignment = some op :=
        operator?_eq_some.mpr ⟨hkind, Nat.le_of_succ_le hlevel, hdot⟩
      rw [hsome] at hnone
      cases hnone

/-- An operator that is taken with assignments is taken without them, or it assigns and nothing
follows its right operand. -/
theorem operatorRound_check {t : Session} {b : TermId} (hdeep : deep.Settles)
    (heof : s.cursor.eof.kind = .eof)
    (h : (operatorRound deep .assignment start lhs).run setting s = .ok (.more b) t) :
    (operatorRound deep .check start lhs).run setting s = .ok (.more b) t ∨
      t.tree.assigns b = true ∧ t.cursor.Settled setting.slot .assignment := by
  rw [run_operatorRound] at h ⊢
  split at h
  · rename_i op hop
    obtain ⟨hkind, -, hdot⟩ := operator?_eq_some.mp hop
    by_cases hlevel : op.level < Level.check
    · right
      obtain ⟨span, s₁, hadvance, h⟩ := ok_of_bind h
      obtain ⟨rhs, s₂, hrhs, h⟩ := ok_of_bind h
      obtain ⟨c, s₃, hclose, h⟩ := ok_of_bind h
      cases h
      have hassigns : (infixTerm op.form lhs rhs).assigns = true := by
        rcases form_of_level hkind hlevel with rfl | rfl <;> rfl
      obtain ⟨hassigned, hcursor⟩ := assigns_close hassigns hclose
      refine ⟨hassigned, hcursor ▸ ?_⟩
      have heof₁ : s₁.cursor.eof.kind = .eof := by
        obtain ⟨-, -, -, -, heq⟩ := (onward_of_ok hadvance).cursor
        rw [heq, heof]
      rcases form_of_level hkind hlevel with rfl | rfl <;>
        exact hdeep .assignment setting s₁ rhs s₂ heof₁ hrhs
    · left
      rw [operator?_eq_some.mpr ⟨hkind, Nat.le_of_not_lt hlevel, hdot⟩]
      exact h
  · cases h

theorem climbRound_check {t : Session} {b : TermId} (hdeep : deep.Settles)
    (heof : s.cursor.eof.kind = .eof)
    (h : (climbRound deep .assignment start lhs).run setting s = .ok (.more b) t) :
    (climbRound deep .check start lhs).run setting s = .ok (.more b) t ∨
      t.tree.assigns b = true ∧ t.cursor.Settled setting.slot .assignment := by
  rw [run_climbRound] at h ⊢
  split at h
  · cases h
  · rename_i hhead
    rw [if_neg hhead]
    rw [if_pos (by decide)] at h ⊢
    obtain ⟨app?, s₁, happ, hround⟩ := ok_of_bind h
    rw [run_bind, happ]
    cases app? with
    | some app => exact .inl hround
    | none =>
        obtain ⟨-, rfl⟩ := juxtaposes_of_none happ
        exact operatorRound_check hdeep heof hround

/-- Where no operator of assignment is taken, rounds with and without assignments are the same. -/
theorem loop_check_of_assignment (hdeep : deep.Settles) (heof : s.cursor.eof.kind = .eof)
    (h : (loop (climbRound deep .assignment start) lhs).run setting s = .ok id u)
    (hassigns : u.tree.assigns id = false) :
    (loop (climbRound deep .check start) lhs).run setting s = .ok id u := by
  change runLoop _ setting lhs s = .ok id u at h
  change runLoop _ setting lhs s = .ok id u
  have hassigned {P : Prop} (h : u.tree.assigns id = true) : P := by
    rw [hassigns] at h
    cases h
  fun_induction runLoop (climbRound deep .assignment start) setting lhs s with
  | case1 lhs s b t hround =>
      cases h
      obtain ⟨rfl, rfl, hsettled⟩ := settled_of_done hround
      exact runLoop_done hsettled.check.run_climbRound
  | case2 lhs s b t hround hlt ih =>
      obtain ⟨-, -, -, -, heq⟩ := (onward_of_ok hround).cursor
      rcases climbRound_check hdeep heof hround with hround' | ⟨hb, hsettled⟩
      · rw [runLoop_more hround' hlt]
        exact ih (heq ▸ heof) h
      · rw [runLoop_done hsettled.run_climbRound] at h
        cases h
        exact hassigned hb
  | case3 lhs s b t hround hlt =>
      cases h
      rcases climbRound_check hdeep heof hround with hround' | ⟨hb, -⟩
      · rw [runLoop, hround']
        exact if_neg hlt
      · exact hassigned hb
  | case4 lhs s e t hround => cases h


theorem leading_of_expr {d : Nat} {min : Level}
    (h : ((nested (d + 1)).expr min).run setting s = .ok id u) :
    ∃ lhs t, (leading (nested d)).run setting s = .ok lhs t ∧
      (loop (climbRound (nested d) min s.cursor.span) lhs).run setting t = .ok id u := by
  change (expression (nested d) min).run setting s = .ok id u at h
  unfold expression at h
  obtain ⟨start, s₀, hstart, h⟩ := ok_of_bind h
  cases hstart
  exact ok_of_bind h

/-- A whole text that is no binding and assigns nothing is read as an operand without assignments. -/
theorem run_check_of_statement {d : Nat} (heof : s.cursor.eof.kind = .eof)
    (h : (nested d).statement.run setting s = .ok id u) (hassigns : u.tree.assigns id = false)
    (hend : u.cursor.kind = .eof) :
    ∃ n, d = n + 2 ∧ ((nested (n + 1)).expr .check).run
      { setting with slot := setting.slot.withUsage .term } s = .ok id u := by
  match d with
  | 0 => cases h
  | 1 =>
      have hexpr := run_statement_of_not_assigns heof h hassigns hend
      cases hexpr
  | n + 2 =>
      refine ⟨n, rfl, ?_⟩
      obtain ⟨lhs, s₁, hleading, hloop⟩ :=
        leading_of_expr (run_statement_of_not_assigns heof h hassigns hend)
      obtain ⟨-, -, -, -, heq⟩ := (onward_of_ok hleading).cursor
      change ((leading (nested n)).run _ s).andThen _ = _
      rw [hleading]
      exact loop_check_of_assignment (settles_nested n) (heq ▸ heof) hloop hassigns

/-! ## The first token of a text -/

theorem kind_of_run_expr {d : Nat} {min : Level}
    (h : ((nested (d + 1)).expr min).run setting s = .ok id u) :
    s.cursor.kind ≠ .eof ∧ s.cursor.kind ≠ .mark .rightParen := by
  obtain ⟨lhs, t, h, -⟩ := leading_of_expr h
  constructor <;> intro hkind <;>
    simp only [leading, operand, compound, Reading.cursor, asks, run_bind, Outcome.andThen_ok, hkind,
      reduceCtorEq, if_false, isLiteral, Bool.false_eq_true, constant?, unexpected] at h <;>
    cases h

variable {t : Token} {ts : List Token} {eof : Token} {ds : List Diagnostic} (b : Bool)

theorem run_operand_spacing (h : (operand deep).run setting (initial ⟨⟨t :: ts, eof⟩, ds⟩) = .ok id u) :
    (operand deep).run setting (initial ⟨⟨{ t with spaced := b } :: ts, eof⟩, ds⟩) = .ok id u := by
  have hkind (t : Token) : (initial ⟨⟨t :: ts, eof⟩, ds⟩).cursor.kind = t.kind := rfl
  unfold operand at h ⊢
  simp only [cursor, asks, run_bind, Outcome.andThen_ok, hkind] at h ⊢
  split_ifs at h ⊢
  · exact h
  · have hliteral : (initial ⟨⟨{ t with spaced := b } :: ts, eof⟩, ds⟩).cursor.token.literal? =
        (initial ⟨⟨t :: ts, eof⟩, ds⟩).cursor.token.literal? := rfl
    unfold literal at h ⊢
    simp only [cursor, asks, run_bind, Outcome.andThen_ok] at h ⊢
    rw [hliteral]
    cases hvalue : (initial ⟨⟨t :: ts, eof⟩, ds⟩).cursor.token.literal? with
    | some value =>
        simp only [hvalue] at h ⊢
        exact h
    | none =>
        simp only [hvalue] at h
        cases h
  · cases hconstant : constant? t.kind with
    | some term =>
        simp only [hconstant] at h ⊢
        exact h
    | none =>
        simp only [hconstant] at h ⊢
        have hrefl : (initial ⟨⟨{ t with spaced := b } :: ts, eof⟩, ds⟩).cursor.atRefl =
            (initial ⟨⟨t :: ts, eof⟩, ds⟩).cursor.atRefl := rfl
        unfold compound at h ⊢
        simp only [hkind, hrefl] at h ⊢
        split at h
        case h_10 => cases h
        all_goals
          rename_i hcompound
          simp only [hcompound]
        case h_6 =>
          split_ifs at h ⊢
          · exact h
          · cases h
        all_goals exact h

/-- Whether the first token of a text counts as spaced does not matter. -/
theorem run_leading_spacing (h : (leading deep).run setting (initial ⟨⟨t :: ts, eof⟩, ds⟩) = .ok id u) :
    (leading deep).run setting (initial ⟨⟨{ t with spaced := b } :: ts, eof⟩, ds⟩) = .ok id u := by
  have hkind (t : Token) : (initial ⟨⟨t :: ts, eof⟩, ds⟩).cursor.kind = t.kind := rfl
  unfold leading at h ⊢
  simp only [cursor, asks, run_bind, Outcome.andThen_ok, hkind] at h ⊢
  split at h
  case h_18 hnone =>
    obtain ⟨head, v, hhead, hrest⟩ := ok_of_bind h
    have hsame := run_operand_spacing b hhead
    rw [run_bind, hsame]
    exact hrest
  all_goals
    rename_i hfront
    simp only [hfront]
    exact h

theorem run_expr_spacing {d : Nat} {min : Level}
    (h : ((nested (d + 1)).expr min).run setting (initial ⟨⟨t :: ts, eof⟩, ds⟩) = .ok id u) :
    ((nested (d + 1)).expr min).run setting (initial ⟨⟨{ t with spaced := b } :: ts, eof⟩, ds⟩) =
      .ok id u := by
  obtain ⟨lhs, s₁, hleading, hloop⟩ := leading_of_expr h
  change ((leading (nested d)).run setting _).andThen _ = _
  rw [run_leading_spacing b hleading]
  exact hloop

/-! ## Between parentheses -/

/-- What is read behind a parenthesis, up to the one that closes it at the end of the text, is a
statement with them. -/
theorem run_statement_enclosed {d : Nat} (hslot : setting.slot = .free .term)
    (hkind : s.cursor.kind = .mark .leftParen)
    (hinner : ((nested (d + 1)).expr .check).run setting s.next = .ok id u) (hu : u.Before [t])
    (ht : t.kind = .mark .rightParen) :
    ∃ v, (nested (d + 3)).statement.run setting s = .ok id v ∧ v.Before [] ∧
      v.tree = u.tree.widen id (s.cursor.span.hull u.cursor.span) := by
  let v : Session := { u.next with tree := u.tree.widen id (s.cursor.span.hull u.cursor.span) }
  have hv : v.Before [] := hu.next.setTree _
  obtain ⟨config, remembers, slot⟩ := setting
  obtain rfl : slot = .free .term := hslot
  have hread : (delimited (nested (d + 1)).inner).run ⟨config, remembers, .free .term⟩ s.next =
      .ok id u := hinner
  have hparentheses : (parentheses (nested (d + 1)) s.cursor.span).run
      ⟨config, remembers, .free .term⟩ s = .ok id v := by
    rw [run_parentheses (kind_of_run_expr hinner).2 hread, Session.Before.run_accept_of_ne (by simp [hu.kind, ht])]
    change ((expect (.mark .rightParen)).run _ u).andThen _ = _
    rw [hu.run_expect ht]
    rfl
  have hleading : (leading (nested (d + 1))).run ⟨config, remembers, .free .term⟩ s = .ok id v := by
    rw [run_leading_parentheses _ _ hkind, hparentheses]
    exact run_suffixes (nested (d + 1)) _ id (.stop .eof) hv
  exact ⟨v, run_statement_leading (by simp [hkind]) .eof hleading hv, hv, rfl⟩

/-- What is read of a text up to its end is read again behind a parenthesis, up to the one that
closes it. -/
theorem run_check_enclosed {d : Nat} {config : Config} (config' : Config) (a : Token)
    {b eof' : Token} {us : List Token}
    (heof : eof.kind = .eof) (heof' : eof'.kind = .eof) (hkinds : ∀ t ∈ ts, t.kind ≠ .eof)
    (hb : b.kind = .mark .rightParen) (hshift : List.Forall₂ (Token.Shifted 1) ts us)
    (h : ((nested d).expr .check).run (Reading.setting config true) (initial ⟨⟨ts, eof⟩, []⟩) =
      .ok id s) (hend : s.cursor.kind = .eof) (hclean : s.diagnostics = #[]) :
    ∃ id' u, ((nested d).expr .check).run (Reading.setting config' true)
        (initial ⟨⟨a :: (us ++ [b]), eof'⟩, []⟩).next = .ok id' u ∧ u.Before [b] ∧
      id'.index = id.index ∧ s.tree.Within u.tree 0 0 := by
  let text : Tokens := ⟨ts, eof⟩
  let start : Session := (initial ⟨⟨a :: (us ++ [b]), eof'⟩, []⟩).next
  let C : Comparison := .further text config config' #[] 1 1 [b] .empty #[]
  -- Where the text ends, all parentheses that it opens are closed.
  have hrest : s.cursor.rest = [] := by
    obtain ⟨n, -, hdrop, -⟩ := (onward_of_ok h).cursor
    exact Cursor.rest_eq_nil (fun t ht => hkinds t (List.mem_of_mem_drop (hdrop ▸ ht))) hend
  have hopened : opened 0 ts = some 0 := by
    obtain ⟨w, hw, hopen⟩ := ((nested d).balances_expr .check).open_of_ok heof (.start _) h
    rw [hrest, List.append_nil] at hw
    rw [← hopen, ← hw]
    rfl
  have htail : text.EndsBefore [b] :=
    ⟨by simp [hb, TokenKind.endsText], fun _ => hopened, fun _ h => by cases h⟩
  have hstart : C.Sessions (initial ⟨text, []⟩) start :=
    { cursor := ⟨.start heof, ⟨us, rfl, hshift⟩, rfl, rfl, heof'⟩
      terms := .start _ _ _
      patterns := .start _ _ _
      diagnostics := .start _ _ _
      failures := ⟨fun _ _ _ _ => rfl, fun _ hf => by cases hf⟩ }
  have hagree : C.Outcomes C.terms
      (((nested d).expr .check).run (Reading.setting config true) (initial ⟨text, []⟩))
      (((nested d).expr .check).run (Reading.setting config' true) start) :=
    (Comparison.further_levels htail d).expr .check _ _ hstart.cursor (.free .term) (.free .term)
      _ _ ⟨rfl, rfl⟩ hstart rfl rfl
  rw [h] at hagree
  generalize hright : ((nested d).expr .check).run (Reading.setting config' true) start = o at hagree
  cases hagree with
  | @ok _ id' _ u hid hnow =>
      obtain ⟨hon, hfurther⟩ := hnow.cursor
      obtain ⟨vs, hvs, hshifted⟩ := hfurther.rest
      rw [hrest, List.forall₂_nil_left_iff] at hshifted
      refine ⟨id', u, rfl, ⟨⟨⟨[], .nil, ?_⟩, hfurther.eof, ?_⟩, ?_⟩, ?_, Comparison.further_within hnow⟩
      · rw [hvs, hshifted]
      · rw [hfurther.split, hon.split_of_rest hrest]
      · obtain ⟨reports, hleft, hright⟩ := hnow.diagnostics.size
        rw [hclean] at hleft
        exact Array.eq_empty_of_size_eq_zero (hright.trans hleft.symm)
      · rw [Comparison.further_terms] at hid
        simpa [Tree.empty] using hid
  | rightTooDeep hx => exact hx.elim
  | void hv => exact hv.elim

end Readings

/-! ## Texts -/

namespace Expression

variable {source : String} {config : Config} {e : Expression}

/-- Parentheses are transparent: a text that is an expression, but binds and assigns nothing, is
the same expression between parentheses, if these may go one level deeper. -/
theorem parentheses_transparent (h : ofText source config = .ok e) (hassigns : e.tree.assigns e.root = false) :
    ∃ e', ofText ("(" ++ source ++ "\n)") { config with maxDepth := config.maxDepth + 1 } = .ok e' ∧
      e'.dump = e.dump := by
  have hforest := read_forest h
  unfold ofText at h ⊢
  rw [read_eq] at h ⊢
  unfold onText at h ⊢
  obtain ⟨s, hrun, htree, hclean⟩ := Outcome.ok_of_expression h
  obtain ⟨hstatement, hend⟩ := run_wholeStatement.mp hrun
  rw [← htree] at hassigns
  have heof : (Lexing.ofText source).tokens.eof.kind = .eof := Lexing.eof_kind_onward _ _ _
  have heof' : (Lexing.ofText ("(" ++ source ++ "\n)")).tokens.eof.kind = .eof :=
    Lexing.eof_kind_onward _ _ _
  have hkinds : ∀ t ∈ (Lexing.ofText source).tokens.body, t.kind ≠ .eof :=
    fun _ => Lexing.kind_of_mem_body
  obtain ⟨n, hdepth, hcheck⟩ := run_check_of_statement heof hstatement hassigns hend
  obtain ⟨maxDepth, recover⟩ := config
  obtain rfl : maxDepth = n + 2 := hdepth
  -- The text alone.
  have hlexical : (Lexing.ofText source).diagnostics = [] := by
    have hprefix := (onward_of_ok hcheck).diagnostics
    rw [hclean] at hprefix
    exact List.prefix_nil.mp hprefix
  obtain ⟨t, ts, hbody⟩ : ∃ t ts, (Lexing.ofText source).tokens.body = t :: ts :=
    List.exists_cons_of_ne_nil ((Cursor.On.start heof).rest_ne_nil (kind_of_run_expr hcheck).1)
  -- Its tokens between parentheses, the first one perhaps not spaced any more.
  obtain ⟨a, v, vs, b, hbody', ha, hb, hv, hvs, hlexical'⟩ := Lexing.ofText_enclosed hlexical hbody
  generalize Lexing.ofText source = l at *
  generalize Lexing.ofText ("(" ++ source ++ "\n)") = l' at *
  obtain ⟨⟨body, eof⟩, ds⟩ := l
  obtain ⟨⟨body', eof'⟩, ds'⟩ := l'
  subst hbody hlexical hbody' hlexical'
  have hcheck : ((nested (n + 1)).expr .check).run (Reading.setting ⟨n + 2, recover⟩ true)
      (initial ⟨⟨t :: ts, eof⟩, []⟩) = .ok e.root s := hcheck
  have hfront : ∀ w ∈ { t with spaced := v.spaced } :: ts, w.kind ≠ .eof := by
    simpa using hkinds
  obtain ⟨id', w, hinner, hw, hid, hwithin⟩ := run_check_enclosed
    ⟨n + 3, recover⟩ a heof heof' hfront hb (.cons hv hvs) (run_expr_spacing v.spaced hcheck) hend
    hclean
  obtain ⟨x, hstatement', hx, htree'⟩ := run_statement_enclosed
    (s := initial ⟨⟨a :: v :: (vs ++ [b]), eof'⟩, []⟩) rfl ha hinner hw hb
  have hrun' := run_wholeStatement.mpr ⟨hstatement', hx.faces.kind_nil⟩
  refine ⟨⟨x.tree, id'⟩, ?_, ?_⟩
  · refine (congrArg Outcome.expression hrun').trans ?_
    simp [Outcome.expression, hx.clean]
  · have hlt : e.root.index < e.tree.terms.size :=
      Tree.mem_nodes_term.mp (hforest.mem_nodes_of_root (by simp))
    have hdumps := hwithin.termDumps (htree ▸ hforest) (htree ▸ hlt)
    rw [Nat.zero_add, htree] at hdumps
    simp only [dump, Tree.dump]
    rw [htree', Tree.termDumps_widen, hid, hdumps]

set_option maxRecDepth 100000 in
theorem parentheses_transparent_comment : ∃ e e',
    ofText "~x \x7b False: y; True: λp. p; \x7d :: T # both" .standard = .ok e ∧
      e.tree.assigns e.root = false ∧
      ofText ("(" ++ "~x \x7b False: y; True: λp. p; \x7d :: T # both" ++ "\n)")
        { Config.standard with maxDepth := Config.standard.maxDepth + 1 } = .ok e' ∧
      e'.dump = e.dump := by
  have hread : (ofText "~x \x7b False: y; True: λp. p; \x7d :: T # both" .standard).toOption.any
      (fun e => !e.tree.assigns e.root) = true := by decide +kernel
  cases h : ofText "~x \x7b False: y; True: λp. p; \x7d :: T # both" .standard with
  | ok e =>
      rw [h] at hread
      have hassigns : e.tree.assigns e.root = false := by simpa [Except.toOption] using hread
      obtain ⟨e', he', hdump⟩ := parentheses_transparent h hassigns
      exact ⟨e, e', rfl, hassigns, he', hdump⟩
  | error ds =>
      rw [h] at hread
      cases hread

end Expression

end BendSyntax
