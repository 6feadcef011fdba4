import BendSyntax.Proofs.Assignments.Operands
import BendSyntax.Proofs.DepthLimit
import BendSyntax.Proofs.Fallback
import BendSyntax.Proofs.Generics
import BendSyntax.Proofs.Plain.Following

/-! Assignments to names. Where a name in parentheses stands in front of `=`, the value may be an assignment
itself; behind a bare name it is read as an operand, which ends in front of a second `=`. Otherwise the two
are the same. -/

namespace BendSyntax

open Reading Grammar

/-! ## Two places of a text -/

/-- Where the tokens of a text stand further on, up to the end, and no attempt has failed. -/
structure Session.Repeats (s : Session) (source : String) : Prop where
  tokens : ∃ k us, s.Before us ∧ List.Forall₂ (Token.Shifted k) (Lexing.ofText source).tokens.body us
  failures : s.failures = []

theorem Session.Repeats.eof {s : Session} {source : String} (h : s.Repeats source) :
    s.cursor.eof.kind = .eof := by
  obtain ⟨k, us, hbefore, -⟩ := h.tokens
  exact hbefore.faces.eof

section Places

variable {source : String} {config : Config} {s t u : Session} {id : TermId} {d n k : Nat}

/-- The comparison of a text with a place where its tokens stand further on. -/
abbrev Comparison.atPlace (source : String) (config : Config) (k : Nat) (s : Session) : Comparison :=
  .further (Lexing.ofText source).tokens config config #[] k s.cursor.index [] s.tree #[]

/-- At a place where the tokens of a text stand further on they are read as the text is. -/
theorem agree_expr_repeated (hs : s.Repeats source) (hclean : (Lexing.ofText source).diagnostics = [])
    (config : Config) (d : Nat) (min : Level) :
    ∃ k, (Comparison.atPlace source config k s).Outcomes (Comparison.atPlace source config k s).terms
      (((nested d).expr min).run (setting config true) (initial (Lexing.ofText source)))
      (((nested d).expr min).run (setting config true) s) := by
  obtain ⟨⟨k, us, hbefore, hus⟩, hfailures⟩ := hs
  have hstart : (Comparison.atPlace source config k s).Sessions (initial (Lexing.ofText source)) s :=
    { cursor := ⟨.start (Lexing.eof_kind_onward _ _ _), ⟨us, by simp [hbefore.faces.rest_nil], hus⟩,
        by simp [initial, Cursor.start], hbefore.faces.split, hbefore.faces.eof⟩
      terms := .start _ _ _
      patterns := .start _ _ _
      diagnostics := by
        rw [initial, hclean, hbefore.clean]
        exact .start _ _ _
      failures := by
        rw [hfailures]
        exact ⟨fun _ _ _ _ => rfl, by simp⟩ }
  have hend := (Lexing.ofText source).tokens.endsBefore_nil
  have hlevels : (Comparison.atPlace source config k s).Levels (nested d) (nested d) :=
    Comparison.further_levels hend d
  exact ⟨k, hlevels.expr min _ _ hstart.cursor (.free .term) (.free .term) _ _ ⟨rfl, rfl⟩ hstart rfl rfl⟩

theorem Cursor.Further.kind_eq {ts : Tokens} {c c' : Cursor} (h : c.Further k n [] c') (hc : c.On ts) :
    c'.kind = c.kind := by
  by_cases hrest : c.rest = []
  · have hkind : c.kind = .eof := hc.kindAt_of_length_le (i := 0) (by simp [hrest])
    have hkind' := h.kindAt_length hc
    rw [hrest] at hkind'
    exact hkind'.trans hkind.symm
  · exact h.kindAt (i := 0) (List.length_pos_iff.mpr hrest)

/-- Ends of readings of the same text at two places. -/
structure SameEnd (id : TermId) (s : Session) (id' : TermId) (t : Session) : Prop where
  kind : t.cursor.kind = s.cursor.kind
  clean : t.diagnostics = #[] ↔ s.diagnostics = #[]
  dump : t.tree.dump id' = s.tree.dump id
  lt : id'.index < t.tree.terms.size

/-- What is read of a text ends alike where its tokens stand further on. -/
theorem sameEnd_of_further {id id' : TermId} (h : (Comparison.atPlace source config k s).Sessions t u)
    (hid : (Comparison.atPlace source config k s).terms id id')
    (hforest : t.tree.Forest (Owner.held id + 0)) : SameEnd id t id' u := by
  have hindex : id'.index = s.tree.terms.size + id.index := by
    have hterms := hid
    rwa [Comparison.further_terms] at hterms
  have hlt : id.index < t.tree.terms.size :=
    Tree.mem_nodes_term.mp (hforest.mem_nodes_of_root (by simp [Owner.held]))
  obtain ⟨reports, hreports, hreports'⟩ := h.diagnostics.size
  obtain ⟨terms, hterms, hterms'⟩ := h.terms.size
  have hnil {a : Array Diagnostic} : a = #[] ↔ a.size = 0 := Array.size_eq_zero_iff.symm
  refine ⟨h.cursor.2.kind_eq h.cursor.1, ?_, ?_, ?_⟩
  · rw [hnil, hnil, hreports, hreports']
    rfl
  · simp only [Tree.dump, hindex]
    exact (Comparison.further_within h).termDumps hforest hlt
  · rw [hterms', hindex]
    rw [hterms] at hlt
    change _ < (Tree.empty.terms.size + terms) at hlt
    change _ < s.tree.terms.size + terms
    simpa [Tree.empty] using hlt

/-- What ends like the same reading ends alike. -/
theorem SameEnd.of_same {id id' id'' : TermId} (h : SameEnd id s id' t) (k : SameEnd id s id'' u) :
    SameEnd id' t id'' u where
  kind := k.kind.trans h.kind.symm
  clean := k.clean.trans h.clean.symm
  dump := k.dump.trans h.dump.symm
  lt := k.lt

/-- What is read of a text may be read one level deeper. -/
theorem run_check_deeper (h : ((nested d).expr .check).run (setting config true)
      (initial (Lexing.ofText source)) = .ok id t) :
    ∃ u, ((nested (d + 1)).expr .check).run (setting config true) (initial (Lexing.ofText source)) =
        .ok id u ∧ u.tree = t.tree ∧ u.diagnostics = t.diagnostics ∧ u.cursor.kind = t.cursor.kind := by
  let C := Comparison.limited (.ofText source) config config
  let start := initial (Lexing.ofText source)
  have hinitial : C.Sessions start start :=
    ⟨⟨.start (Lexing.eof_kind_onward _ _ _), ⟨rfl, rfl, rfl, rfl⟩, rfl⟩, .start _ _ _,
      .start _ _ _, .start _ _ _, rfl⟩
  have hlevels : C.Levels (nested d) (nested (d + 1)) := by
    rw [← nestedUpon_nested 1 d]
    exact Comparison.limited_levels (nested 1) d
  have hagree : C.Outcomes C.terms (((nested d).expr .check).run (setting config true) start)
      (((nested (d + 1)).expr .check).run (setting config true) start) :=
    hlevels.expr .check _ _ hinitial.cursor (.free .term) (.free .term) _ _ ⟨rfl, rfl⟩ hinitial rfl rfl
  rw [h] at hagree
  generalize hdeeper : ((nested (d + 1)).expr .check).run (setting config true) start = o at hagree
  cases hagree with
  | @ok _ id' _ u hid hnow =>
      have hterms : C.terms = Eq := Comparison.sameText_terms rfl rfl
      rw [hterms] at hid
      obtain ⟨htree, hdiagnostics⟩ := Comparison.sameText_sessions hnow rfl rfl rfl
      subst hid
      exact ⟨u, rfl, htree.symm, hdiagnostics.symm, hnow.cursor.2.1.kind.symm⟩
  | rightTooDeep hx => exact hx.elim
  | void hv => exact hv.elim

/-- What is read of a text at a place is read of it alone, and ends alike. -/
theorem sameEnd_of_repeated (hs : s.Repeats source) (hclean : (Lexing.ofText source).diagnostics = [])
    (config : Config) (d : Nat) (min : Level) :
    (∀ id u, ((nested d).expr min).run (setting config true) s = .ok id u →
      ∃ id' t, ((nested d).expr min).run (setting config true) (initial (Lexing.ofText source)) = .ok id' t) ∧
    ∀ id' t, ((nested d).expr min).run (setting config true) (initial (Lexing.ofText source)) = .ok id' t →
      ∃ id u, ((nested d).expr min).run (setting config true) s = .ok id u ∧ SameEnd id' t id u := by
  obtain ⟨k, hagree⟩ := agree_expr_repeated hs hclean config d min
  have hyields : Yields config ((nested d).expr min) := (yields_nested d).expr min
  generalize hbase : ((nested d).expr min).run (setting config true) (initial (Lexing.ofText source)) = o at hagree
  generalize hplace : ((nested d).expr min).run (setting config true) s = p at hagree
  cases hagree with
  | @ok id' id t u hid hnow =>
      refine ⟨fun _ _ _ => ⟨id', t, rfl⟩, ?_⟩
      rintro _ _ ⟨⟩
      have hforest := hyields true (.free .term) (initial (Lexing.ofText source)) 0 Tree.Forest.empty _ _ hbase
      exact ⟨id, u, rfl, sameEnd_of_further hnow hid hforest⟩
  | error he hnow => constructor <;> rintro _ _ ⟨⟩
  | leftTooDeep hx => exact hx.elim
  | rightTooDeep hx => exact hx.elim
  | void hv => exact hv.elim

theorem lt_of_repeated {min : Level} (hs : s.Repeats source) (hclean : (Lexing.ofText source).diagnostics = [])
    (h : ((nested d).expr min).run (setting config true) s = .ok id u) : id.index < u.tree.terms.size := by
  obtain ⟨hback, hforth⟩ := sameEnd_of_repeated hs hclean config d min
  obtain ⟨root, v, hbase⟩ := hback id u h
  obtain ⟨id', u', hrun, hsame⟩ := hforth root v hbase
  rw [h] at hrun
  cases hrun
  exact hsame.lt

/-- What is read of a text at one place is read at another one, where it may go one level deeper. -/
theorem run_check_repeated (hclean : (Lexing.ofText source).diagnostics = []) (hs : s.Repeats source)
    (ht : t.Repeats source) (h : ((nested d).expr .check).run (setting config true) s = .ok id u) :
    ∃ id' u', ((nested (d + 1)).expr .check).run (setting config true) t = .ok id' u' ∧
      SameEnd id u id' u' := by
  obtain ⟨hback, hforth⟩ := sameEnd_of_repeated hs hclean config d .check
  obtain ⟨root, v, hbase⟩ := hback id u h
  obtain ⟨id₁, u₁, hrun, hsame⟩ := hforth root v hbase
  obtain ⟨rfl, rfl⟩ : id₁ = id ∧ u₁ = u := by simpa [h] using hrun.symm
  obtain ⟨w, hdeeper, htree, hdiagnostics, hkind⟩ := run_check_deeper hbase
  obtain ⟨id', u', hrun', hsame'⟩ := (sameEnd_of_repeated ht hclean config (d + 1) .check).2 root w hdeeper
  refine ⟨id', u', hrun', hsame.of_same ⟨hsame'.kind.trans hkind, ?_, ?_, hsame'.lt⟩⟩
  · rw [hsame'.clean, hdiagnostics]
  · rw [hsame'.dump, htree]

end Places

/-! ## Two forms of an assignment -/

section Statements

variable {config : Config} {s t u v : Session} {id value : TermId} {a b c o : Token} {us : List Token}
  {d n : Nat} {deep : Deeper}

/-- The name in parentheses. -/
theorem run_leading_name_enclosed (hs : s.Before (a :: b :: c :: o :: us)) (ha : a.kind = .mark .leftParen)
    (hb : b.kind = .ident) (hc : c.kind = .mark .rightParen) (hloose : o.isTight = false) (n : Nat) :
    ∃ target t, (leading (nested (n + 1))).run (setting config true) s = .ok target t ∧
      t.Before (o :: us) ∧ t.failures = s.failures ∧ t.tree.term? target = some (nameTerm b.lexeme) := by
  obtain ⟨target, tree, hname, hterm, -⟩ := run_leading_ident (nested n) (setting config true)
    (hs.next.kind.trans hb)
  have hbefore := hs.next.next.setTree tree
  have hlexeme : s.next.cursor.lexeme = b.lexeme := congrArg Token.lexeme hs.next.token
  have hstop : Stop (setting config true).slot (c :: o :: us) := .mark (by simp [TokenKind.closes, hc])
  rw [run_suffixes (nested n) _ target (.stop hstop) hbefore] at hname
  let v : Session := { s.next.next with tree }
  let w : Session := { v.next with tree := tree.widen target (s.cursor.span.hull v.cursor.span) }
  have hw : w.Before (o :: us) := hbefore.next.setTree _
  have hexpr : ((nested (n + 1)).expr .check).run (setting config true) s.next = .ok target v :=
    run_expr_of_leading .check hstop hname hbefore
  have hread : (delimited (nested (n + 1)).inner).run (setting config true) s.next = .ok target v := hexpr
  have hparentheses : (parentheses (nested (n + 1)) s.cursor.span).run (setting config true) s = .ok target w := by
    rw [run_parentheses (by simp [hs.next.kind, hb]) hread,
      Session.Before.run_accept_of_ne (by simp [hbefore.kind, v, hc])]
    change ((expect (.mark .rightParen)).run _ v).andThen _ = _
    rw [hbefore.run_expect hc]
    rfl
  refine ⟨target, w, ?_, hw, rfl, ?_⟩
  · have hending : Ending (setting config true).slot (o :: us) := .loose hloose
    have hsuffixes : (suffixes (nested (n + 1)) s.cursor.span target).run (setting config true) w = .ok target w :=
      run_suffixes _ _ target hending hw
    rw [run_leading_parentheses _ _ (hs.kind.trans ha), hparentheses]
    exact hsuffixes
  · rw [← hlexeme, ← hterm]
    exact Tree.term?_widen _ _ _ _

/-- What begins with a parenthesis is a statement with assignments but without bindings. -/
theorem run_statement_of_leftParen (hkind : s.cursor.kind = .mark .leftParen) (d : Nat) :
    (nested (d + 1)).statement.run (setting config true) s =
      ((nested d).expr .assignment).run (setting config true) s := by
  change (statement (nested d)).run (setting config true) s = _
  simp only [statement, Reading.cursor, asks, run_bind, Outcome.andThen_ok, hkind]

/-- Behind a parenthesis, something is read before another one. -/
theorem depth_of_parentheses (hkind : s.next.cursor.kind ≠ .mark .rightParen) (d : Nat) {start : Span}
    (h : (parentheses (nested d) start).run (setting config true) s = .ok id u) : d ≠ 0 := by
  rintro rfl
  rw [parentheses, run_bind] at h
  change ((accept (.mark .rightParen)).run (setting config true) s.next).andThen _ = _ at h
  rw [Session.Before.run_accept_of_ne hkind] at h
  cases h

/-- In front of an operator of assignment, with no operand taken yet that it could be part of, the operator is
taken with what stands behind it, and nothing follows. -/
theorem run_climb_assignment {target : TermId} {start : Span} (hs : s.Before (o :: us))
    (ho : o.kind = .mark .equals)
    (h : (loop (climbRound (nested n) .assignment start) target).run (setting config true) s = .ok id u) :
    ∃ value v, ((nested n).expr .assignment).run (setting config true) s.next = .ok value v ∧
      (close start (.op2 .assign target value)).run (setting config true) v = .ok id u := by
  have hkind : s.cursor.kind = .mark .equals := hs.kind.trans ho
  have hhead : s.cursor.atHead (setting config true).slot = false := rfl
  have hjuxtaposes : s.cursor.juxtaposes (setting config true).slot = false := by
    simp [Cursor.juxtaposes, Cursor.startsArgument, hkind, Cursor.opensArgument]
  have hoperator : operator? s.cursor (setting config true).slot .assignment =
      some (.rightOp .assign .assignment) :=
    operator?_eq_some.mpr ⟨by rw [hkind]; rfl, Nat.le_refl _, fun h => by cases h⟩
  have hround : (climbRound (nested n) .assignment start target).run (setting config true) s =
      (((nested n).expr .assignment).run (setting config true) s.next).andThen fun value v =>
        ((close start (.op2 .assign target value)).run (setting config true) v).andThen fun id u =>
          .ok (.more id) u := by
    rw [run_climbRound, if_neg (by simp [hhead]), if_pos (by decide), run_bind,
      run_juxtaposed?_of_not hhead hjuxtaposes, Outcome.andThen_ok]
    change (operatorRound (nested n) .assignment start target).run _ s = _
    rw [run_operatorRound, hoperator]
    rfl
  change runLoop _ _ target s = _ at h
  cases hvalue : ((nested n).expr .assignment).run (setting config true) s.next with
  | error e v =>
      rw [runLoop, hround, hvalue] at h
      cases h
  | ok value v =>
      -- Behind the value nothing is taken any more.
      have hsettled : v.cursor.Settled (setting config true).slot .assignment :=
        settles_nested n .assignment (setting config true) s.next value v hs.next.faces.eof hvalue
      rw [hvalue] at hround
      cases hclose : (close start (.op2 .assign target value)).run (setting config true) v with
      | error e w => cases hclose
      | ok assignment w =>
          rw [Outcome.andThen_ok, hclose, Outcome.andThen_ok] at hround
          have hend : runLoop (climbRound (nested n) .assignment start) (setting config true) assignment w =
              .ok assignment w := by
            have hcursor : w.cursor = v.cursor := by
              cases hclose
              rfl
            exact runLoop_done (Cursor.Settled.run_climbRound (hcursor ▸ hsettled))
          rw [runLoop, hround] at h
          change (if _ then runLoop _ _ assignment w else .ok assignment w) = _ at h
          rw [hend, ite_self] at h
          cases h
          exact ⟨value, v, rfl, hclose⟩

/-- An assignment to a name in parentheses. -/
theorem ok_of_enclosed_target (hs : s.Before (a :: b :: c :: o :: us)) (ha : a.kind = .mark .leftParen)
    (hb : b.kind = .ident) (hc : c.kind = .mark .rightParen) (ho : o.kind = .mark .equals)
    (hloose : o.isTight = false)
    (h : (nested d).statement.run (setting config true) s = .ok id u) :
    ∃ n target value start t v, d = n + 3 ∧ t.Before us ∧ t.failures = s.failures ∧
      t.tree.term? target = some (nameTerm b.lexeme) ∧
      ((nested (n + 1)).expr .assignment).run (setting config true) t = .ok value v ∧
      (close start (.op2 .assign target value)).run (setting config true) v = .ok id u := by
  have hkind : s.cursor.kind = .mark .leftParen := hs.kind.trans ha
  match d with
  | 0 => cases h
  | 1 =>
      rw [run_statement_of_leftParen hkind] at h
      cases h
  | 2 =>
      rw [run_statement_of_leftParen hkind] at h
      obtain ⟨lhs, t, hleading, -⟩ := leading_of_expr h
      rw [run_leading_parentheses _ _ hkind] at hleading
      cases hparentheses : (parentheses (nested 0) s.cursor.span).run (setting config true) s with
      | error e w =>
          rw [hparentheses] at hleading
          cases hleading
      | ok first w => exact absurd rfl (depth_of_parentheses (by simp [hs.next.kind, hb]) 0 hparentheses)
  | n + 3 =>
      rw [run_statement_of_leftParen hkind] at h
      obtain ⟨lhs, t, hleading, hloop⟩ := leading_of_expr h
      obtain ⟨target, t', hname, ht, hfailures, hterm⟩ := run_leading_name_enclosed hs ha hb hc hloose n
      rw [hname] at hleading
      cases hleading
      obtain ⟨value, v, hvalue, hclose⟩ := run_climb_assignment ht ho hloop
      exact ⟨n, lhs, value, _, t.next, v, rfl, ht.next, hfailures, hterm, hvalue, hclose⟩

/-- An assignment to a bare name. Its value is read without assignments. -/
theorem run_bare_target (hs : s.Before (b :: o :: us)) (hb : b.kind = .ident) (ho : o.kind = .mark .equals)
    (hvalue : ((nested (d + 1)).expr .check).run (setting config true) s.next.next = .ok value v) 
    (hkind : v.cursor.kind = .eof ∨ v.cursor.kind.assigns) :
    (nested (d + 2)).statement.run (setting config true) s =
      (assignment b.lexeme s.cursor.span none value).run (setting config true) v := by
  have hname : s.cursor.lexeme = b.lexeme := congrArg Token.lexeme hs.token
  have hone : s.cursor.kindAt 1 = .mark .equals := hs.kindAt_one.trans ho
  change (statement (nested (d + 1))).run (setting config true) s = _
  simp only [statement, Reading.cursor, asks, run_bind, Outcome.andThen_ok, hs.kind.trans hb, hone]
  rw [hs.run_identifier hb rfl, Outcome.andThen_ok, binding, run_bind, hs.next.run_expect ho, Outcome.andThen_ok]
  change (((nested (d + 1)).expr .check).run (setting config true) s.next.next).andThen _ = _
  have hsemicolon : v.cursor.kind ≠ .mark .semicolon := by
    rcases hkind with hkind | hkind | hkind <;> simp [hkind]
  have hoperand : v.cursor.startsOperand (setting config true).slot = false := by
    rcases hkind with hkind | hkind | hkind <;>
      simp [Cursor.startsOperand, Cursor.startsArgument, Cursor.opensArgument, Cursor.opensOperand,
        Cursor.atRefl, hkind]
  rw [hvalue, Outcome.andThen_ok, run_bind, Session.Before.run_accept_of_ne hsemicolon, Outcome.andThen_ok]
  simp only [Reading.cursor, Reading.slot, asks, run_bind, Outcome.andThen_ok, hoperand, Bool.false_eq_true,
    if_false]

theorem Tree.dump_op2 {tree : Tree} {target : TermId} {x : String} (op : BinaryOp) (value : TermId)
    (span : Span) (usage : Usage) (htarget : tree.dump target = x) :
    (tree.addTerm ⟨.op2 op target value, span, usage⟩).2.dump
        (tree.addTerm ⟨.op2 op target value, span, usage⟩).1 =
      (.op2 op x (tree.dump value) : Term String String).dump := by
  rw [Tree.dump_addTerm, ← htarget]
  rfl

/-- An assignment is added behind its value. -/
theorem of_close_assign {target : TermId} {start : Span} {x : String} (htarget : v.tree.dump target = x)
    (hvalue : value.index < v.tree.terms.size)
    (h : (close start (.op2 .assign target value)).run (setting config true) v = .ok id u) :
    u.cursor = v.cursor ∧ u.diagnostics = v.diagnostics ∧
      u.tree.term? id = some (.op2 .assign target value) ∧ u.tree.assigns value = v.tree.assigns value ∧
      u.tree.dump id = (.op2 .assign x (v.tree.dump value) : Term String String).dump := by
  have hgrown : v.tree.Prefix u.tree := by
    cases h
    exact .addTerm _ _
  have hassigns : u.tree.assigns value = v.tree.assigns value := by
    rw [Tree.assigns, Tree.assigns, hgrown.term? hvalue]
  cases h
  exact ⟨rfl, rfl, Tree.term?_addTerm _ _, hassigns, Tree.dump_op2 .assign value _ _ htarget⟩

/-- An assignment to a bare name is added behind its value. -/
theorem run_assignment {x : String} {start : Span} (hvalue : value.index < v.tree.terms.size) :
    ∃ id u, (assignment x start none value).run (setting config true) v = .ok id u ∧
      u.cursor = v.cursor ∧ u.diagnostics = v.diagnostics ∧
      u.tree.dump id = (.op2 .assign x (v.tree.dump value) : Term String String).dump := by
  let var : TermNode := ⟨.var x, start, .term⟩
  have hdump : (v.tree.addTerm var).2.dump (v.tree.addTerm var).1 = x := Tree.dump_addTerm v.tree var
  have hsame : (v.tree.addTerm var).2.dump value = v.tree.dump value :=
    Tree.Prefix.dump (.addTerm _ _) rfl hvalue
  refine ⟨_, _, rfl, rfl, rfl, ?_⟩
  rw [← hsame]
  exact Tree.dump_op2 .assign value _ _ hdump

end Statements

/-! ## Texts -/

namespace Lexing

variable {previous last : Option TokenKind} {p q : Position} {cs : List Char} {ts : List Token}

theorem clean_of_onward_blank (hprevious : previous.any TokenKind.endsOperand = false)
    (hclean : (onward previous q (' ' :: cs)).diagnostics = []) : (onward none p cs).diagnostics = [] := by
  have hsame : (Gap.atFront (' ' :: cs)).rest = (Gap.atFront cs).rest :=
    Gap.atFront_blank cs ▸ Gap.rest_scan_congr .blanks 0 1 cs
  cases hrest : (Gap.atFront cs).rest with
  | nil =>
      have hopen : (Gap.atFront (' ' :: cs)).unclosed.isSome = (Gap.atFront cs).unclosed.isSome :=
        Gap.atFront_blank cs ▸ (Gap.scan_congr .blanks 0 1 cs).2
      rw [(onward_of_nil (hsame.trans hrest)).2] at hclean
      rw [(onward_of_nil hrest).2]
      unfold gapDiagnostics at hclean ⊢
      split at hclean
      · cases hclean
      · simp_all
  | cons c rest =>
      have hfirst : first previous (' ' :: cs) = first none cs := by
        rw [first, first, hsame, hprevious]
        rfl
      rw [(onward_of_cons (hsame.trans hrest)).2, List.append_eq_nil_iff, List.append_eq_nil_iff,
        List.map_eq_nil_iff, hfirst] at hclean
      obtain ⟨⟨-, hflaws⟩, hclean⟩ := hclean
      rw [(onward_of_cons hrest).2, gapDiagnostics, Gap.unclosed_atFront hrest, hflaws, clean_onward rfl hclean]
      rfl

/-- Behind words and a blank a text has the tokens that it has alone, and nothing else can be wrong. -/
theorem ofText_behind {text source : String} {front : List Char}
    (htext : text.toList = front ++ ' ' :: source.toList)
    (hcuts : Cuts none .start front (' ' :: source.toList) ts last)
    (hlast : last.any TokenKind.endsOperand = false) :
    ((ofText text).diagnostics = [] ↔ (ofText source).diagnostics = []) ∧
      ∃ us k, (ofText text).tokens.body = ts ++ us ∧
        List.Forall₂ (Token.Shifted k) (ofText source).tokens.body us := by
  unfold ofText
  rw [htext, hcuts.body, hcuts.diagnostics]
  refine ⟨⟨clean_of_onward_blank hlast, clean_onward_blank hlast⟩, _,
    ((Position.start.after front).after [' ']).offset, rfl, ?_⟩
  exact shifted_onward_blank hlast (Nat.zero_add _).symm

/-- The tokens of an assignment to a name in parentheses. -/
theorem cuts_enclosed_target (x : Identifier) (rest : List Char) :
    ∃ a b c o, Cuts none .start ("(" ++ x.text ++ ") =").toList (' ' :: rest) [a, b, c, o]
        (some (.mark .equals)) ∧ a.kind = .mark .leftParen ∧ b.kind = .ident ∧ b.lexeme = x.text ∧
      c.kind = .mark .rightParen ∧ o.kind = .mark .equals ∧ o.isTight = false := by
  have hequals : (Word.mark .equals).Solid := Word.solid_symbol nofun
  have hopen : Cuts none .start "(".toList
      (x.text.toList ++ (")".toList ++ " =".toList) ++ ' ' :: rest) _ _ :=
    Formula.cuts_opening (s := .leftParen) (.inl rfl) false none .start _
  have hname : Cuts (some (.mark .leftParen)) (Position.start.after "(".toList) x.text.toList
      (")".toList ++ " =".toList ++ ' ' :: rest) _ _ :=
    .word false x.solid (x.solid.whole _ (Scanned.ends_cons rfl _))
  have hclose : Cuts (some .ident) ((Position.start.after "(".toList).after x.text.toList) ")".toList
      (" =".toList ++ ' ' :: rest) _ _ :=
    Formula.cuts_mark (s := .rightParen) nofun _ _ (Scanned.ends_cons rfl _)
  have hassign : Cuts (some (.mark .rightParen)) (((Position.start.after "(".toList).after x.text.toList).after
      ")".toList) " =".toList (' ' :: rest) _ _ := .word true hequals (hequals.whole _ (Scanned.ends_cons rfl _))
  have hfront := hopen.append (hname.append (hclose.append hassign))
  have htext : ("(" ++ x.text ++ ") =").toList =
      "(".toList ++ (x.text.toList ++ (")".toList ++ " =".toList)) := by simp
  exact ⟨_, _, _, _, htext ▸ hfront, rfl, rfl, rfl, rfl, rfl, rfl⟩

/-- The tokens of an assignment to a bare name. -/
theorem cuts_bare_target (x : Identifier) (rest : List Char) :
    ∃ b o, Cuts none .start (x.text ++ " =").toList (' ' :: rest) [b, o] (some (.mark .equals)) ∧
      b.kind = .ident ∧ b.lexeme = x.text ∧ o.kind = .mark .equals := by
  have hequals : (Word.mark .equals).Solid := Word.solid_symbol nofun
  have hname : Cuts none .start x.text.toList (" =".toList ++ ' ' :: rest) _ _ :=
    .word false x.solid (x.solid.whole _ (Scanned.ends_cons rfl _))
  have hassign : Cuts (some .ident) (Position.start.after x.text.toList) " =".toList (' ' :: rest) _ _ :=
    .word true hequals (hequals.whole _ (Scanned.ends_cons rfl _))
  have htext : (x.text ++ " =").toList = x.text.toList ++ " =".toList := by simp
  exact ⟨_, _, htext ▸ hname.append hassign, rfl, rfl, rfl⟩

end Lexing

namespace Expression

variable {x : Identifier} {source : String} {config : Config} {e : Expression}

/-- What is read of an assignment to a name in parentheses. -/
theorem ok_of_enclosed (h : ofText ("(" ++ x.text ++ ") = " ++ source) config = .ok e) :
    (Lexing.ofText source).diagnostics = [] ∧ ∃ n target value t v, config.maxDepth = n + 3 ∧
      t.Repeats source ∧ ((nested (n + 1)).expr .assignment).run (setting config true) t = .ok value v ∧
      v.cursor.kind = .eof ∧ v.diagnostics = #[] ∧ e.tree.term? e.root = some (.op2 .assign target value) ∧
      e.tree.assigns value = v.tree.assigns value ∧
      e.dump = (.op2 .assign x.text (v.tree.dump value) : Term String String).dump := by
  have htext : ("(" ++ x.text ++ ") = " ++ source).toList =
      ("(" ++ x.text ++ ") =").toList ++ ' ' :: source.toList := by simp
  obtain ⟨a, b, c, o, hcuts, ha, hb, hx, hc, ho, hloose⟩ := Lexing.cuts_enclosed_target x source.toList
  obtain ⟨hlexical, us, k, hbody, hus⟩ := Lexing.ofText_behind htext hcuts rfl
  rw [ofText, read_eq] at h
  obtain ⟨u, hrun, htree, hclean⟩ := Outcome.ok_of_expression h
  obtain ⟨hstatement, hend⟩ := run_wholeStatement.mp hrun
  have hclean' : (Lexing.ofText ("(" ++ x.text ++ ") = " ++ source)).diagnostics = [] := by
    have hprefix := (onward_of_ok hrun).diagnostics
    rw [hclean] at hprefix
    exact List.prefix_nil.mp hprefix
  have hsource := hlexical.mp hclean'
  have hs : (initial (Lexing.ofText ("(" ++ x.text ++ ") = " ++ source))).Before (a :: b :: c :: o :: us) :=
    ⟨⟨⟨[], .nil, hbody⟩, Lexing.eof_kind_onward _ _ _, rfl⟩, congrArg List.toArray hclean'⟩
  obtain ⟨n, target, value, start, t, v, hdepth, ht, hfailures, hterm, hvalue, hclose⟩ :=
    ok_of_enclosed_target hs ha hb hc ho hloose hstatement
  have hrepeats : t.Repeats source := ⟨⟨k, us, ht, hus⟩, hfailures⟩
  have hlt : value.index < v.tree.terms.size := lt_of_repeated hrepeats hsource hvalue
  have htarget : v.tree.dump target = x.text :=
    hx ▸ Tree.dump_nameTerm ((onward_of_ok hvalue).tree.term? hterm)
  obtain ⟨hcursor, hdiagnostics, hroot, hassigns, hdump⟩ := of_close_assign htarget hlt hclose
  rw [htree] at hroot hassigns hdump
  exact ⟨hsource, n, target, value, t, v, hdepth, hrepeats, hvalue, hcursor ▸ hend, hdiagnostics ▸ hclean, hroot,
    hassigns, hdump⟩

/-- In front of the value of an assignment to a bare name the tokens of the value stand. -/
theorem before_bare_target (x : Identifier) (hclean : (Lexing.ofText source).diagnostics = []) :
    ∃ b o us, (initial (Lexing.ofText (x.text ++ " = " ++ source))).Before (b :: o :: us) ∧
      b.kind = .ident ∧ b.lexeme = x.text ∧ o.kind = .mark .equals ∧
      (initial (Lexing.ofText (x.text ++ " = " ++ source))).next.next.Repeats source := by
  have htext : (x.text ++ " = " ++ source).toList = (x.text ++ " =").toList ++ ' ' :: source.toList := by simp
  obtain ⟨b, o, hcuts, hb, hx, ho⟩ := Lexing.cuts_bare_target x source.toList
  obtain ⟨hlexical, us, k, hbody, hus⟩ := Lexing.ofText_behind htext hcuts rfl
  have hs : (initial (Lexing.ofText (x.text ++ " = " ++ source))).Before (b :: o :: us) :=
    ⟨⟨⟨[], .nil, hbody⟩, Lexing.eof_kind_onward _ _ _, rfl⟩, congrArg List.toArray (hlexical.mpr hclean)⟩
  exact ⟨b, o, us, hs, hb, hx, ho, ⟨k, us, hs.next.next, hus⟩, rfl⟩

/-- An assignment to a bare name is what an assignment to the same name in parentheses is, unless its value
assigns something itself: then it is no expression. -/
theorem assignment_bare (x : Identifier) {source : String} {config : Config} {e : Expression}
    (h : ofText ("(" ++ x.text ++ ") = " ++ source) config = .ok e) :
    ∃ target value, e.tree.term? e.root = some (.op2 .assign target value) ∧
      (e.tree.assigns value = false →
        ∃ e', ofText (x.text ++ " = " ++ source) config = .ok e' ∧ e'.dump = e.dump) ∧
      (e.tree.assigns value = true → ∀ e', ofText (x.text ++ " = " ++ source) config ≠ .ok e') := by
  obtain ⟨hclean, n, target, value, t, v, hdepth, ht, hvalue, hend, hnone, hroot, hassigns, hdump⟩ :=
    ok_of_enclosed h
  obtain ⟨b, o, us, hs, hb, hx, ho, hrepeats⟩ := before_bare_target x hclean
  have hcheck := run_check_of_assignment ht.eof hvalue
  refine ⟨target, value, hroot, fun hno => ?_, fun hyes e' he' => ?_⟩
  · rw [← hassigns, if_neg (by simp [hno])] at hcheck
    obtain ⟨value', v', hvalue', hsame⟩ := run_check_repeated hclean ht hrepeats hcheck
    obtain ⟨id, u, hassignment, hcursor, hdiagnostics, hdump'⟩ := run_assignment (x := x.text) hsame.lt
    have hstatement := run_bare_target hs hb ho hvalue' (.inl (hsame.kind.trans hend))
    rw [hx, hassignment, ← hdepth] at hstatement
    refine ⟨⟨u.tree, id⟩, ofText_of_statement hstatement ?_ ?_, ?_⟩
    · rw [hcursor, hsame.kind, hend]
    · rw [hdiagnostics, hsame.clean, hnone]
    · rw [Expression.dump, hdump', hsame.dump, hdump]
  · rw [← hassigns, if_pos hyes] at hcheck
    obtain ⟨id, w, hrun, hkind⟩ := hcheck
    obtain ⟨value', v', hvalue', hsame⟩ := run_check_repeated hclean ht hrepeats hrun
    have hkind' : v'.cursor.kind.assigns := hsame.kind ▸ hkind
    obtain ⟨id', u, hassignment, hcursor, -, -⟩ := run_assignment (x := x.text) hsame.lt
    have hstatement := run_bare_target hs hb ho hvalue' (.inr hkind')
    rw [hx, hassignment, ← hdepth] at hstatement
    rw [ofText, read_eq] at he'
    obtain ⟨u', hrun', -, -⟩ := Outcome.ok_of_expression he'
    obtain ⟨hstatement', hend'⟩ := run_wholeStatement.mp hrun'
    cases hstatement.symm.trans hstatement'
    rw [hcursor] at hend'
    rcases hkind' with hkind' | hkind' <;> rw [hkind'] at hend' <;> cases hend'

set_option maxRecDepth 100000 in
theorem assignment_bare_sum : ∃ e,
    ofText ("(" ++ "x" ++ ") = " ++ "f(y) + z # both") .standard = .ok e ∧
      ∃ target value, e.tree.term? e.root = some (.op2 .assign target value) ∧
        (e.tree.assigns value = false →
          ∃ e', ofText ("x" ++ " = " ++ "f(y) + z # both") .standard = .ok e' ∧ e'.dump = e.dump) ∧
        (e.tree.assigns value = true →
          ∀ e', ofText ("x" ++ " = " ++ "f(y) + z # both") .standard ≠ .ok e') := by
  have hread : (ofText ("(" ++ "x" ++ ") = " ++ "f(y) + z # both") .standard).isOk = true := by
    decide +kernel
  cases h : ofText ("(" ++ "x" ++ ") = " ++ "f(y) + z # both") .standard with
  | ok e => exact ⟨e, rfl, assignment_bare ⟨"x", by decide, by decide, by decide⟩ h⟩
  | error ds =>
      rw [h] at hread
      cases hread

set_option maxRecDepth 100000 in
/-- A chain of assignments is grouped to the right behind a name in parentheses, and is no expression behind
a bare name. -/
theorem assignment_chain_bare :
    (ofText "(x) = y = z" .standard).toOption.map (·.dump) = some "(= x (= y z))" ∧
      (ofText "x = y = z" .standard).isOk = false := by
  decide +kernel

end Expression

end BendSyntax
