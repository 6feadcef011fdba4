import BendSyntax.Proofs.Chain
import BendSyntax.Proofs.Formula.Tokens

/-! A formula that is written with parentheses around its operands is read as it stands, whatever
the levels of its operators are. -/

namespace BendSyntax

open Reading Grammar

section Readings

variable {deep : Deeper} {d : Nat} {min : Level} {start : Span} {setting : Setting} {s t : Session}
  {f : Formula} {fs : List Formula} {ts after more : List Token} {id : TermId}

/-! ## Operands -/

/-- What does not begin with a keyword or a sign is an operand with what directly follows it. -/
theorem run_leading_operand (deep : Deeper) (setting : Setting)
    (hkind : s.cursor.kind ∈ [.ident, .nat, .mark .leftParen, .mark .leftBracket]) :
    (leading deep).run setting s =
      ((operand deep).run setting s).andThen fun head =>
        (suffixes deep s.cursor.span head).run setting := by
  simp only [List.mem_cons, List.not_mem_nil, or_false] at hkind
  rcases hkind with hkind | hkind | hkind | hkind <;>
    simp only [leading, Reading.cursor, asks, run_bind, Outcome.andThen_ok, hkind]

/-- Tokens in front of which an operand ends: a blank, or a mark that ends an expression. -/
inductive Ending (s : Slot) : List Token → Prop
  | loose {u : Token} {us : List Token} (h : u.isTight = false) : Ending s (u :: us)
  | stop {us : List Token} (h : Stop s us) : Ending s us

theorem run_suffixes (deep : Deeper) (start : Span) (id : TermId) (h : Ending setting.slot after)
    (hs : s.Before after) : (suffixes deep start id).run setting s = .ok id s := by
  refine runLoop_done ?_
  cases h with
  | loose htight =>
      have hloose : s.cursor.isTight = false := by
        rw [Cursor.isTight, hs.faces.split, hs.token, htight]
        rfl
      simp only [suffixRound, Reading.cursor, Reading.slot, asks, run_bind, Outcome.andThen_ok,
        hloose]
      rfl
  | stop hstop =>
      have hfaces : s.cursor.Faces (Link.words []) after := hs.faces
      exact suffixRound_done deep start id hstop hfaces

/-- In front of a stop an expression is what it begins with. -/
theorem run_expr_of_leading (min : Level) (hstop : Stop setting.slot more)
    (hleading : (leading (nested d)).run setting s = .ok id t) (ht : t.Before more) :
    ((nested (d + 1)).expr min).run setting s = .ok id t := by
  change ((leading (nested d)).run setting s).andThen _ = _
  rw [hleading]
  exact runLoop_done (ht.faces.settled hstop min).run_climbRound

/-! ## Formulas -/

/-- A session behind a formula, in front of the rest. -/
structure Session.Behind (s : Session) (f : Formula) (id : TermId) (more : List Token) : Prop where
  before : s.Before more
  stores : s.tree.Stores f id

/-- Whether a formula is read whole in front of a stop, where assignments are admitted and where
they are not. -/
def Deeper.Reads (deep : Deeper) (f : Formula) : Prop :=
  ∀ (min : Level) (setting : Setting) (s : Session) (ts more : List Token), min ≤ Level.check →
    f.Spells ts → setting.slot = .free setting.slot.usage → Stop setting.slot more →
    s.Before (ts ++ more) →
    ∃ id t, (deep.expr min).run setting s = .ok id t ∧ t.Behind f id more

/-- A term is closed as a formula if its parts are there. -/
theorem Session.Before.behind_close (hs : s.Before more) (setting : Setting) (start : Span)
    (term : Term TermId PatternId)
    (h : ∀ tree id, s.tree.Extends tree → tree.term? id = some term → tree.Stores f id) :
    ∃ id t, (close start term).run setting s = .ok id t ∧ t.Behind f id more ∧
      t.cursor = s.cursor := by
  let node : TermNode := ⟨term, start.hull s.cursor.last, setting.slot.usage⟩
  exact ⟨(s.tree.addTerm node).1, { s with tree := (s.tree.addTerm node).2 }, rfl,
    ⟨hs.setTree _, h _ _ (.addTerm _ _) (Tree.term?_addTerm _ _)⟩, rfl⟩

/-- With what a formula can begin. -/
theorem Formula.Spells.front (h : f.Spells ts) : ∃ t us, ts = t :: us ∧
    t.kind ∈ [.ident, .nat, .mark .leftParen, .mark .leftBracket, .word .not, .mark .minus] := by
  cases h with
  | binary hlhs _ _ _ => cases hlhs; exact ⟨_, _, rfl, by simp [*]⟩
  | app hfunc _ _ => cases hfunc; exact ⟨_, _, rfl, by simp [*]⟩
  | @unary op _ _ _ ho _ => exact ⟨_, _, rfl, by cases op <;> simp [ho, UnaryOp.kind]⟩
  | _ => exact ⟨_, _, rfl, by simp [*]⟩

theorem Formula.Spells.length_pos (h : f.Spells ts) : 0 < ts.length := by
  obtain ⟨t, us, rfl, -⟩ := h.front
  exact Nat.succ_pos _

/-- In front of a formula stands no closing bracket. -/
theorem Session.Before.kind_ne_closing {closing : Symbol} (hs : s.Before (ts ++ more))
    (hspells : f.Spells ts) (hclosing : closing = .rightParen ∨ closing = .rightBracket) :
    s.cursor.kind ≠ .mark closing := by
  obtain ⟨t, us, rfl, ht⟩ := hspells.front
  rw [hs.kind]
  rintro heq
  rw [heq] at ht
  rcases hclosing with rfl | rfl <;> simp at ht

theorem Session.Before.remaining_lt {us : List Token} (hs : s.Before ts) (ht : t.Before us)
    (hlt : us.length < ts.length) : t.cursor.remaining < s.cursor.remaining := by
  rw [hs.faces.remaining, ht.faces.remaining]
  simp only [List.length_nil]
  omega

/-- One more item in brackets. -/
def itemsRound (deep : Deeper) (closing : Symbol) (acc : Array TermId) :
    Reading (Round (Array TermId)) := do
  if ← sees (.mark closing) then return .done acc
  let acc := acc.push (← deep.inner)
  if ← accept (.mark .comma) then return .more acc else return .done acc

/-- An item that is not the bracket is read, and a comma with it if there is one. -/
theorem run_itemsRound {closing : Symbol} (hkind : s.cursor.kind ≠ .mark closing)
    (hread : deep.inner.run setting s = .ok id t) (acc : Array TermId) :
    (itemsRound deep closing acc).run setting s =
      ((accept (.mark .comma)).run setting t).andThen fun comma u =>
        .ok (if comma then .more (acc.push id) else .done (acc.push id)) u := by
  simp only [itemsRound, sees, Reading.kind, Reading.cursor, asks, run_bind, Outcome.andThen_ok,
    run_pure, hkind, decide_false, Bool.false_eq_true, if_false, hread]
  cases (accept (.mark .comma)).run setting t with
  | ok comma u => cases comma <;> rfl
  | error e u => rfl

/-- The first of several items, in front of a comma or the bracket. -/
theorem reads_item {closing : Symbol} (hdeep : deep.Reads f)
    (hslot : setting.slot = .free setting.slot.usage)
    (hclosing : closing = .rightParen ∨ closing = .rightBracket) (hspells : f.Spells ts)
    (hstop : Stop setting.slot after) (hs : s.Before (ts ++ after)) (acc : Array TermId) :
    ∃ id t, t.Behind f id after ∧ t.cursor.remaining < s.cursor.remaining ∧
      (itemsRound deep closing acc).run setting s =
        ((accept (.mark .comma)).run setting t).andThen fun comma u =>
          .ok (if comma then .more (acc.push id) else .done (acc.push id)) u := by
  obtain ⟨id, t, hread, ht⟩ := hdeep .check setting s ts after (Nat.le_refl _) hspells hslot hstop hs
  have hpos := hspells.length_pos
  refine ⟨id, t, ht, hs.remaining_lt ht.before ?_,
    run_itemsRound (hs.kind_ne_closing hspells hclosing) hread acc⟩
  rw [List.length_append]
  omega

/-- The rounds take all items. The induction is on the items. -/
theorem reads_items (setting : Setting) {b : Token} {closing : Symbol} (hdeep : ∀ f ∈ fs, deep.Reads f)
    (hslot : setting.slot = .free setting.slot.usage)
    (hclosing : closing = .rightParen ∨ closing = .rightBracket) (hb : b.kind = .mark closing)
    (hspells : Formula.SpellsAll fs ts) (hs : s.Before (ts ++ b :: more)) (acc : Array TermId) :
    ∃ ids t, runLoop (itemsRound deep closing) setting acc s = .ok (acc ++ ids) t ∧
      t.Before (b :: more) ∧ t.tree.StoresAll fs ids.toList := by
  have hcloses : b.kind.closes := by
    rcases hclosing with rfl | rfl <;> simp [TokenKind.closes, hb]
  have hcomma : b.kind ≠ .mark .comma := by
    rcases hclosing with rfl | rfl <;> simp [hb]
  induction fs generalizing ts s acc with
  | nil =>
      cases hspells
      have hdone : (itemsRound deep closing acc).run setting s = .ok (.done acc) s := by
        simp only [itemsRound, sees, Reading.kind, Reading.cursor, asks, run_bind, Outcome.andThen_ok,
          run_pure, hs.kind.trans hb, decide_true, if_true]
      exact ⟨#[], s, by rw [runLoop_done hdone, Array.append_empty], hs, rfl⟩
  | cons f fs ih =>
      obtain ⟨hf, hfs⟩ := List.forall_mem_cons.mp hdeep
      cases hspells with
      | single h =>
          obtain ⟨id, t, ht, -, hround⟩ := reads_item hf hslot hclosing h (.mark hcloses) hs acc
          rw [Session.Before.run_accept_of_ne (by rwa [ht.before.kind])] at hround
          exact ⟨#[id], t, runLoop_done hround, ht.before, id, [], rfl, ht.stores, rfl⟩
      | @cons _ g fs comma ts us h hc hmore =>
          rw [List.append_assoc] at hs
          obtain ⟨id, t, ht, hlt, hround⟩ := reads_item hf hslot hclosing h
            (.mark (.inr (.inl hc))) hs acc
          rw [ht.before.run_accept hc] at hround
          obtain ⟨ids, u, hloop, hu, hstores⟩ := ih hfs hmore ht.before.next (acc.push id)
          have hnext : t.next.cursor.remaining < t.cursor.remaining :=
            ht.before.remaining_lt ht.before.next (Nat.lt_succ_self _)
          have honward := runLoop_onward (itemsRound deep closing) setting (acc.push id) t.next
          rw [hloop] at honward
          refine ⟨#[id] ++ ids, u, ?_, hu, id, ids.toList, by simp,
            ht.stores.mono honward.tree, hstores⟩
          rw [runLoop_more hround (Nat.lt_trans hnext hlt), hloop, Array.push_eq_append,
            Array.append_assoc]

/-- Items in front of a bracket are read up to the bracket. -/
theorem reads_separated {b : Token} {closing : Symbol} (hdeep : ∀ f ∈ fs, deep.Reads f)
    (hclosing : closing = .rightParen ∨ closing = .rightBracket) (hb : b.kind = .mark closing)
    (hspells : Formula.SpellsAll fs ts) (hs : s.Before (ts ++ b :: more)) (setting : Setting) :
    ∃ ids t, (delimited (separated (.mark closing) deep.inner)).run setting s = .ok ids t ∧
      t.Before (b :: more) ∧ t.tree.StoresAll fs ids := by
  obtain ⟨ids, t, hloop, ht, hstores⟩ := reads_items
    { setting with slot := setting.slot.delimited } hdeep rfl hclosing hb hspells hs #[]
  refine ⟨ids.toList, t, ?_, ht, hstores⟩
  change (runLoop (itemsRound deep closing) { setting with slot := setting.slot.delimited } #[]
    s).andThen _ = _
  rw [hloop, Array.empty_append]
  rfl

/-! ## Parentheses -/

theorem Session.Before.span {u : Token} (hs : s.Before (u :: ts)) : s.cursor.span = u.span := by
  rw [Cursor.span, hs.faces.split, hs.token]
  rfl

/-- Of all formulas only names have a length as names. -/
theorem Tree.Stores.eq_name {tree : Tree} {term : Term TermId PatternId} {n : Nat}
    (h : tree.Stores f id) (hterm : tree.term? id = some term) (hn : term.nameLength? = some n) :
    ∃ x, f = .name x ∧ x.text.utf8ByteSize = n := by
  cases f with
  | name x =>
      obtain rfl := Option.some.inj (hterm.symm.trans h)
      exact ⟨x, rfl, Option.some.inj hn⟩
  | nat n =>
      obtain rfl := Option.some.inj (hterm.symm.trans h)
      cases hn
  | binary op lhs rhs =>
      obtain ⟨a, b, hstored, -⟩ := h
      obtain rfl := Option.some.inj (hterm.symm.trans hstored)
      cases hform : op.form <;> rw [hform] at hn <;> cases hn
  | unary op arg =>
      obtain ⟨a, hstored, -⟩ := h
      obtain rfl := Option.some.inj (hterm.symm.trans hstored)
      cases hn
  | app | tuple | list | call =>
      obtain ⟨a, b, hstored, -⟩ := h
      obtain rfl := Option.some.inj (hterm.symm.trans hstored)
      cases hn

/-- A name in parentheses is not bare: they take more room than it is long. -/
theorem Tree.Stores.not_bareName_widen {tree : Tree} {span : Span} (h : tree.Stores f id)
    (hwide : ∀ x, f = .name x → x.text.utf8ByteSize < span.stop - span.start) :
    (tree.widen id span).isBareName id = false := by
  unfold isBareName
  rw [term?_widen]
  cases hterm : tree.term? id with
  | none => rfl
  | some term =>
      simp only [beq_eq_false_iff_ne]
      intro hlength
      obtain ⟨x, rfl, hx⟩ := h.eq_name hterm hlength
      have hlt := hwide x rfl
      obtain ⟨node, hnode, -⟩ := Option.map_eq_some_iff.mp hterm
      obtain ⟨hsize, -⟩ := Array.getElem?_eq_some_iff.mp hnode
      rw [hx, span_widen _ _ hsize, Span.length, Span.hull_start, Span.hull_stop] at hlt
      omega

theorem run_operand_compound (deep : Deeper) (setting : Setting)
    (hkind : s.cursor.kind = .mark .leftParen ∨ s.cursor.kind = .mark .leftBracket) :
    (operand deep).run setting s = (compound deep s.cursor s.cursor.span).run setting s := by
  rcases hkind with hkind | hkind <;>
    simp only [operand, Reading.cursor, asks, run_bind, Outcome.andThen_ok, hkind, reduceCtorEq,
      if_false, isLiteral, Bool.false_eq_true, constant?]

theorem run_leading_parentheses (deep : Deeper) (setting : Setting)
    (hkind : s.cursor.kind = .mark .leftParen) :
    (leading deep).run setting s = ((parentheses deep s.cursor.span).run setting s).andThen
      fun head => (suffixes deep s.cursor.span head).run setting := by
  rw [run_leading_operand deep setting (by simp [hkind]), run_operand_compound deep setting (.inl hkind)]
  simp only [compound, hkind]

/-- What is in parentheses is read, and what stands behind it decides on the rest. -/
theorem run_parentheses (hkind : s.next.cursor.kind ≠ .mark .rightParen)
    (hread : (delimited deep.inner).run setting s.next = .ok id t) :
    (parentheses deep start).run setting s =
      ((accept (.mark .comma)).run setting t).andThen fun comma =>
        (if comma then do
          let rest ← delimited (separated (.mark .rightParen) deep.inner)
          let _ ← expect (.mark .rightParen)
          close start (.tuple (id :: rest))
        else do
          let stop ← expect (.mark .rightParen)
          widen id (start.hull stop)
          return id).run setting := by
  rw [parentheses, run_bind]
  change ((accept (.mark .rightParen)).run setting s.next).andThen _ = _
  rw [Session.Before.run_accept_of_ne hkind]
  change ((delimited deep.inner).run setting s.next).andThen _ = _
  rw [hread]
  rfl

/-- An operand in parentheses is read with them. Then it is no bare name. -/
theorem run_leading_enclosed (setting : Setting) (hdeep : deep.Reads f) (henclosed : f.Enclosed ts)
    (hending : Ending setting.slot after) (hs : s.Before (ts ++ after)) :
    ∃ id t, (leading deep).run setting s = .ok id t ∧ t.Behind f id after ∧
      t.tree.isBareName id = false := by
  cases henclosed with
  | @intro _ a b ts ha h hb hwide =>
      rw [List.cons_append, List.append_assoc] at hs
      have hfirst := hs.next.kind_ne_closing h (.inl rfl)
      obtain ⟨id, t, hread, ht⟩ := hdeep .check { setting with slot := setting.slot.delimited } s.next
        ts (b :: after) (Nat.le_refl _) h rfl (.mark (by simp [TokenKind.closes, hb])) hs.next
      let u : Session := { t.next with tree := t.tree.widen id (s.cursor.span.hull b.span) }
      have hu : u.Behind f id after :=
        ⟨ht.before.next.setTree _, ht.stores.mono (.widen _ _ _)⟩
      have hcomma : t.cursor.kind ≠ .mark .comma := by simp [ht.before.kind, hb]
      have hparentheses : (parentheses deep s.cursor.span).run setting s = .ok id u := by
        rw [run_parentheses hfirst hread, Session.Before.run_accept_of_ne hcomma]
        change ((expect (.mark .rightParen)).run setting t).andThen _ = _
        rw [ht.before.run_expect hb, ht.before.span]
        rfl
      refine ⟨id, u, ?_, hu, ht.stores.not_bareName_widen fun x hx => ?_⟩
      · rw [run_leading_parentheses deep setting (hs.kind.trans ha), hparentheses]
        exact run_suffixes deep _ id hending hu.before
      · have hlt := hwide x hx
        rw [hs.span, Span.hull_start, Span.hull_stop]
        omega

/-- In front of a stop an operand in parentheses is an expression of any level. -/
theorem run_expr_enclosed (min : Level) (setting : Setting) (hdeep : (nested d).Reads f) (henclosed : f.Enclosed ts)
    (hstop : Stop setting.slot more) (hs : s.Before (ts ++ more)) :
    ∃ id t, ((nested (d + 1)).expr min).run setting s = .ok id t ∧ t.Behind f id more := by
  obtain ⟨id, t, hleading, ht, -⟩ := run_leading_enclosed setting hdeep henclosed (.stop hstop) hs
  exact ⟨id, t, run_expr_of_leading min hstop hleading ht.before, ht⟩

/-! ## Names and literals -/

/-- A name is added as a term, and what directly follows it is read. -/
theorem run_leading_ident (deep : Deeper) (setting : Setting) (hkind : s.cursor.kind = .ident) :
    ∃ id tree, (leading deep).run setting s =
        (suffixes deep s.cursor.span id).run setting { s.next with tree } ∧
      tree.term? id = some (nameTerm s.cursor.lexeme) ∧ tree.span id = s.cursor.span := by
  let added := s.tree.addTerm ⟨nameTerm s.cursor.lexeme, s.cursor.span, setting.slot.usage⟩
  refine ⟨added.1, added.2, ?_, Tree.term?_addTerm _ _, by simp [added, Tree.addTerm, Tree.span]⟩
  rw [run_leading_operand deep setting (by simp [hkind])]
  simp only [operand, Reading.cursor, asks, run_bind, Outcome.andThen_ok, hkind, if_true]
  rfl

theorem run_leading_name (deep : Deeper) (setting : Setting) {x : SimpleName}
    (hkind : s.cursor.kind = .ident) (hlexeme : s.cursor.lexeme = x.text) :
    ∃ id tree, (leading deep).run setting s =
        (suffixes deep s.cursor.span id).run setting { s.next with tree } ∧
      tree.term? id = some (.var x.text) := by
  obtain ⟨id, tree, hrun, hterm, -⟩ := run_leading_ident deep setting hkind
  have hname : nameTerm s.cursor.lexeme = .var x.text := by
    rw [hlexeme, nameTerm, x.simple]
    rfl
  exact ⟨id, tree, hrun, hname ▸ hterm⟩

theorem reads_simpleName (d : Nat) (x : SimpleName) : (nested (d + 1)).Reads (.name x) := by
  intro min setting s ts more _ hspells hslot hstop hs
  cases hspells with
  | name ht hlexeme =>
      obtain ⟨id, tree, hrun, hterm⟩ := run_leading_name (x := x) (nested d) setting (hs.kind.trans ht)
        ((congrArg Token.lexeme hs.token).trans hlexeme)
      have hbefore := hs.next.setTree tree
      rw [run_suffixes (nested d) _ id (.stop hstop) hbefore] at hrun
      exact ⟨id, _, run_expr_of_leading min hstop hrun hbefore, hbefore, hterm⟩

theorem reads_natural (d : Nat) (n : UInt64) : (nested (d + 1)).Reads (.nat n) := by
  intro min setting s ts more _ hspells hslot hstop hs
  cases hspells with
  | @nat _ t ht hlexeme =>
      have hkind : s.cursor.kind = .nat := hs.kind.trans ht
      have hliteral : s.cursor.token.literal? = some (.nat n.toNat) := by
        have htext : s!"{n.toNat}n".toList = Nat.toDigits 10 n.toNat ++ ['n'] := by
          simp [toString, Nat.toList_repr]
        rw [hs.token, Token.literal?, ht, hlexeme, htext, Literal.ofLexeme?,
          Literal.nat?_toDigits n.toNat_lt]
        rfl
      let added := s.tree.addTerm ⟨.lit (.nat n.toNat), s.cursor.span, setting.slot.usage⟩
      have hbefore := hs.next.setTree added.2
      have hrun : (leading (nested d)).run setting s =
          (suffixes (nested d) s.cursor.span added.1).run setting { s.next with tree := added.2 } := by
        rw [run_leading_operand (nested d) setting (by simp [hkind])]
        simp only [operand, literal, Reading.cursor, asks, run_bind, Outcome.andThen_ok, hkind,
          reduceCtorEq, if_false, isLiteral, if_true, hliteral]
        rfl
      rw [run_suffixes (nested d) _ added.1 (.stop hstop) hbefore] at hrun
      exact ⟨_, _, run_expr_of_leading min hstop hrun hbefore, hbefore, Tree.term?_addTerm _ _⟩

/-! ## Operators and applications -/

theorem atHead_of_free (c : Cursor) (hslot : setting.slot = .free setting.slot.usage) :
    c.atHead setting.slot = false := by
  rw [hslot]
  rfl

/-- An operator with a parenthesis behind it is taken with its right operand. -/
theorem climbRound_operator (deep : Deeper) (start : Span) (lhs : TermId) {form : InfixForm}
    {o c : Token} (hslot : setting.slot = .free setting.slot.usage) (ho : o.kind = form.kind)
    (hc : c.kind = .mark .leftParen) (hlevel : min ≤ form.binding.level)
    (hs : s.Before (o :: c :: more)) :
    (climbRound deep min start lhs).run setting s =
      ((rightOperand deep form.binding).run setting s.next).andThen fun rhs =>
        (Round.more <$> close start (infixTerm form.binding.form lhs rhs)).run setting := by
  have hkind : s.cursor.kind = form.kind := hs.kind.trans ho
  have hentry := form.ofKind?_kind
  rw [← hkind] at hentry
  obtain ⟨hopens, hbrace⟩ := Infix.not_opensArgument hentry
  have hjuxtaposes : s.cursor.juxtaposes setting.slot = false := by
    simp [Cursor.juxtaposes, Cursor.startsArgument, hopens, hbrace, hs.kindAt_one, hc]
  have hsome : operator? s.cursor setting.slot min = some form.binding :=
    operator?_eq_some.mpr ⟨hentry, hlevel, fun _ => by rw [hslot]; rfl⟩
  have hhead := atHead_of_free s.cursor hslot
  have hoperator : (operatorRound deep min start lhs).run setting s =
      ((rightOperand deep form.binding).run setting s.next).andThen fun rhs =>
        (Round.more <$> close start (infixTerm form.binding.form lhs rhs)).run setting := by
    rw [run_operatorRound, hsome]
    rfl
  rw [run_climbRound, if_neg (by simp [hhead]), ← hoperator]
  split
  · rw [run_bind, run_juxtaposed?_of_not hhead hjuxtaposes]
    rfl
  · rfl

theorem Formula.Enclosed.front (h : f.Enclosed ts) :
    ∃ t us, ts = t :: us ∧ t.kind = .mark .leftParen := by
  cases h with
  | intro ha _ _ _ => exact ⟨_, _, rfl, ha⟩

theorem infixTerm_binding (form : InfixForm) (lhs rhs : TermId) :
    infixTerm form.binding.form lhs rhs = form.term lhs rhs := by
  rcases form with o | _ | _ | _
  · cases o <;> rfl
  all_goals rfl

variable {lhs rhs func arg first : Formula}

theorem run_more {r : Reading TermId} (h : r.run setting s = .ok id t) :
    (Round.more <$> r).run setting s = .ok (.more id) t := by
  change (r.run setting s).andThen _ = _
  rw [h]
  rfl

/-- An argument in parentheses is taken behind everything but a bare name. -/
theorem climbRound_argument {a : TermId} {c : Token}
    (hslot : setting.slot = .free setting.slot.usage) (hmin : min ≤ Level.application)
    (hbare : s.tree.isBareName a = false) (hc : c.kind = .mark .leftParen)
    (hs : s.Before (c :: more)) (hread : (deep.expr .suffix).run setting s = .ok id t) :
    (climbRound deep min start a).run setting s =
      (Round.more <$> close start (.app a id)).run setting t := by
  have hkind : s.cursor.kind = .mark .leftParen := hs.kind.trans hc
  have hhead := atHead_of_free s.cursor hslot
  have hjuxtapose : setting.slot.noJuxtapose = false := by rw [hslot]; rfl
  have hargument : s.cursor.startsArgument setting.slot = true := by
    simp [Cursor.startsArgument, hhead, hkind, Cursor.opensArgument]
  have happ : (juxtaposed? deep a start).run setting s =
      (some <$> close start (.app a id)).run setting t := by
    rw [run_juxtaposed?]
    simp only [hjuxtapose, hkind, hbare, hargument, Bool.and_false, Bool.false_eq_true, if_false,
      reduceCtorEq, TokenKind.mark.injEq, if_true, run_bind, hread, Outcome.andThen_ok]
  rw [run_climbRound, if_neg (by simp [hhead]), if_pos hmin, run_bind, happ]
  rfl

/-- An expression may take one operator or argument behind what it begins with. -/
theorem run_expr_of_round {a : TermId} {u : Session}
    (hleading : (leading (nested d)).run setting s = .ok a t)
    (hround : (climbRound (nested d) min s.cursor.span a).run setting t = .ok (.more id) u)
    (hlt : u.cursor.remaining < t.cursor.remaining) (hstop : Stop setting.slot more)
    (hu : u.Before more) : ((nested (d + 1)).expr min).run setting s = .ok id u := by
  change ((leading (nested d)).run setting s).andThen _ = _
  rw [hleading]
  change runLoop (climbRound (nested d) min s.cursor.span) setting a t = _
  rw [runLoop_more hround hlt]
  exact runLoop_done (hu.faces.settled hstop min).run_climbRound

theorem reads_binary (op : Operator) (hlhs : (nested (d + 1)).Reads lhs)
    (hrhs : (nested d).Reads rhs) : (nested (d + 2)).Reads (.binary op lhs rhs) := by
  intro min setting s ts more hmin hspells hslot hstop hs
  cases hspells with
  | @binary _ _ _ o ls rs hls ho hloose hrs =>
      rw [List.append_assoc, List.cons_append] at hs
      obtain ⟨a, t, hleading, ht, -⟩ := run_leading_enclosed setting hlhs hls (.loose hloose) hs
      obtain ⟨usage, hoperand⟩ := run_rightOperand (nested (d + 1)) op.form.binding setting t.next
      obtain ⟨b, u, hread, hu⟩ := run_expr_enclosed op.form.binding.next
        { setting with slot := setting.slot.withUsage usage } hrhs hrs (hstop.withUsage usage)
        ht.before.next
      obtain ⟨id, v, hclose, hv, hcursor⟩ := hu.before.behind_close (f := .binary op lhs rhs) setting
        s.cursor.span (infixTerm op.form.binding.form a b) fun tree id htree hterm =>
          ⟨a, b, hterm.trans (by rw [infixTerm_binding]),
            ht.stores.mono ((onward_of_ok hread).tree.trans htree), hu.stores.mono htree⟩
      have hround : (climbRound (nested (d + 1)) min s.cursor.span a).run setting t =
          .ok (.more id) v := by
        obtain ⟨c, us, rfl, hc⟩ := hrs.front
        rw [climbRound_operator (nested (d + 1)) s.cursor.span a hslot ho hc
          (Nat.le_trans hmin (InfixForm.check_le_level op.notAssign op.notDefine)) ht.before, hoperand,
          hread]
        exact run_more hclose
      have hlt : v.cursor.remaining < t.cursor.remaining := by
        refine ht.before.remaining_lt hv.before ?_
        simp only [List.length_cons, List.length_append]
        omega
      exact ⟨id, v, run_expr_of_round hleading hround hlt hstop hv.before, hv⟩

theorem reads_app (hfunc : (nested (d + 1)).Reads func) (harg : (nested d).Reads arg) :
    (nested (d + 2)).Reads (.app func arg) := by
  intro min setting s ts more hmin hspells hslot hstop hs
  cases hspells with
  | @app _ _ c ls rs hls hloose hrs =>
      rw [List.append_assoc, List.cons_append] at hs
      obtain ⟨a, t, hleading, ht, hbare⟩ := run_leading_enclosed setting hfunc hls (.loose hloose) hs
      obtain ⟨b, u, hread, hu⟩ := run_expr_enclosed .suffix setting harg hrs hstop ht.before
      obtain ⟨id, v, hclose, hv, hcursor⟩ := hu.before.behind_close (f := .app func arg) setting
        s.cursor.span (.app a b) fun tree id htree hterm =>
          ⟨a, b, hterm, ht.stores.mono ((onward_of_ok hread).tree.trans htree), hu.stores.mono htree⟩
      have hround : (climbRound (nested (d + 1)) min s.cursor.span a).run setting t =
          .ok (.more id) v := by
        obtain ⟨c, us, hcons, hc⟩ := hrs.front
        obtain ⟨rfl, rfl⟩ := List.cons.inj hcons
        rw [climbRound_argument hslot (Nat.le_trans hmin (by decide)) hbare hc ht.before hread]
        exact run_more hclose
      have hlt : v.cursor.remaining < t.cursor.remaining := by
        refine ht.before.remaining_lt hv.before ?_
        simp only [List.length_cons, List.length_append]
        omega
      exact ⟨id, v, run_expr_of_round hleading hround hlt hstop hv.before, hv⟩

theorem reads_unary (op : UnaryOp) (harg : (nested d).Reads arg) :
    (nested (d + 2)).Reads (.unary op arg) := by
  intro min setting s ts more hmin hspells hslot hstop hs
  cases hspells with
  | @unary _ _ o us ho hus =>
      obtain ⟨a, t, hread, ht⟩ := run_expr_enclosed .operand setting harg hus hstop hs.next
      obtain ⟨id, u, hclose, hu, -⟩ := ht.before.behind_close (f := .unary op arg) setting
        s.cursor.span (.op1 op a) fun tree id htree hterm => ⟨a, hterm, ht.stores.mono htree⟩
      have hleading : (leading (nested (d + 1))).run setting s = .ok id u := by
        have hkind := hs.kind.trans ho
        have hbefore : (before (nested (d + 1)) s.cursor.span .operand (.op1 op)).run setting s =
            .ok id u := by
          change (((nested (d + 1)).expr .operand).run setting s.next).andThen _ = _
          rw [hread]
          exact hclose
        rw [← hbefore]
        cases op <;>
          simp only [leading, Reading.cursor, asks, run_bind, Outcome.andThen_ok, hkind, UnaryOp.kind]
      exact ⟨id, u, run_expr_of_leading min hstop hleading hu.before, hu⟩

/-! ## Tuples, lists and calls -/

variable {items args : List Formula}

theorem reads_tuple (hfirst : (nested d).Reads first) (hitems : ∀ f ∈ items, (nested d).Reads f) :
    (nested (d + 1)).Reads (.tuple first items) := by
  intro min setting s ts more hmin hspells hslot hstop hs
  cases hspells with
  | @tuple _ _ a comma b us vs ha hus hcomma hvs hb =>
      simp only [List.cons_append, List.append_assoc, List.nil_append] at hs
      have hkind := hs.next.kind_ne_closing hus (.inl rfl)
      obtain ⟨id, t, hread, ht⟩ := hfirst .check { setting with slot := setting.slot.delimited } s.next
        us (comma :: (vs ++ b :: more)) (Nat.le_refl _) hus rfl (.mark (.inr (.inl hcomma))) hs.next
      obtain ⟨ids, u, hrest, hu, hstores⟩ :=
        reads_separated hitems (.inl rfl) hb hvs ht.before.next setting
      obtain ⟨tuple, v, hclose, hv, -⟩ := hu.next.behind_close (f := .tuple first items) setting
        s.cursor.span (.tuple (id :: ids)) fun tree tuple htree hterm =>
          ⟨id, ids, hterm, ht.stores.mono ((onward_of_ok hrest).tree.trans htree), hstores.mono htree⟩
      have hparentheses : (parentheses (nested d) s.cursor.span).run setting s = .ok tuple v := by
        rw [run_parentheses hkind hread, ht.before.run_accept hcomma]
        change ((delimited (separated (.mark .rightParen) (nested d).inner)).run setting
          t.next).andThen _ = _
        rw [hrest]
        change ((expect (.mark .rightParen)).run setting u).andThen _ = _
        rw [hu.run_expect hb]
        exact hclose
      have hleading : (leading (nested d)).run setting s = .ok tuple v := by
        rw [run_leading_parentheses (nested d) setting (hs.kind.trans ha), hparentheses]
        exact run_suffixes (nested d) _ tuple (.stop hstop) hv.before
      exact ⟨tuple, v, run_expr_of_leading min hstop hleading hv.before, hv⟩

theorem reads_list (hitems : ∀ f ∈ first :: items, (nested d).Reads f) :
    (nested (d + 1)).Reads (.list first items) := by
  intro min setting s ts more hmin hspells hslot hstop hs
  cases hspells with
  | @list _ _ a b us ha hus hb =>
      simp only [List.cons_append, List.append_assoc, List.nil_append] at hs
      have hkind : s.next.cursor.kind ≠ .mark .rightBracket := by
        cases hus with
        | single h => exact hs.next.kind_ne_closing h (.inr rfl)
        | cons h _ _ =>
            have hnext := hs.next
            rw [List.append_assoc] at hnext
            exact hnext.kind_ne_closing h (.inr rfl)
      obtain ⟨ids, u, hread, hu, hstores⟩ := reads_separated hitems (.inr rfl) hb hus hs.next setting
      obtain ⟨list, v, hclose, hv, -⟩ := hu.next.behind_close (f := .list first items) setting
        s.cursor.span (.list ids) fun tree list htree hterm => by
          obtain ⟨id, rest, rfl, hid, hrest⟩ := hstores.mono htree
          exact ⟨id, rest, hterm, hid, hrest⟩
      have hlist : (listTerm (nested d) s.cursor.span).run setting s = .ok list v := by
        rw [listTerm, run_bind]
        change ((accept (.mark .rightBracket)).run setting s.next).andThen _ = _
        rw [Session.Before.run_accept_of_ne hkind]
        change ((delimited (separated (.mark .rightBracket) (nested d).inner)).run setting
          s.next).andThen _ = _
        rw [hread]
        change ((expect (.mark .rightBracket)).run setting u).andThen _ = _
        rw [hu.run_expect hb]
        exact hclose
      have hleading : (leading (nested d)).run setting s = .ok list v := by
        have hbracket := hs.kind.trans ha
        rw [run_leading_operand (nested d) setting (by simp [hbracket]),
          run_operand_compound (nested d) setting (.inr hbracket)]
        simp only [compound, hbracket]
        rw [hlist]
        exact run_suffixes (nested d) _ list (.stop hstop) hv.before
      exact ⟨list, v, run_expr_of_leading min hstop hleading hv.before, hv⟩

theorem reads_call (func : SimpleName) (hargs : ∀ f ∈ args, (nested d).Reads f) :
    (nested (d + 1)).Reads (.call func args) := by
  intro min setting s ts more hmin hspells hslot hstop hs
  cases hspells with
  | @call _ _ x a b us hx hlexeme ha htight hus hb =>
      simp only [List.cons_append, List.append_assoc, List.nil_append] at hs
      obtain ⟨head, tree, hname, hhead⟩ := run_leading_name (x := func) (nested d) setting
        (hs.kind.trans hx) ((congrArg Token.lexeme hs.token).trans hlexeme)
      have ht := hs.next.setTree tree
      obtain ⟨ids, u, hread, hu, hstores⟩ := reads_separated hargs (.inl rfl) hb hus ht.next setting
      obtain ⟨call, v, hclose, hv, hcursor⟩ := hu.next.behind_close (f := .call func args) setting
        s.cursor.span (.call head ids true) fun tree call htree hterm =>
          ⟨head, ids, hterm, ((onward_of_ok hread).tree.trans htree).term? hhead, hstores.mono htree⟩
      have hround : (suffixRound (nested d) s.cursor.span head).run setting { s.next with tree } =
          .ok (.more call) v := by
        have hkind : s.next.cursor.kind = .mark .leftParen := hs.next.kind.trans ha
        have htight' : s.next.cursor.isTight = true := by
          rw [Cursor.isTight, hs.next.faces.split, hs.next.token, htight]
          rfl
        have hcase : s.next.cursor.atCaseHead setting.slot = false := by
          rw [hslot]
          rfl
        have hcall : (BendSyntax.Grammar.call (nested d) head s.cursor.span true).run setting
            { s.next with tree } = .ok call v := by
          change ((callArgs (nested d)).run setting
            (Session.next { s.next with tree })).andThen _ = _
          rw [callArgs, run_bind, hread]
          change (((expect (.mark .rightParen)).run setting u).andThen _).andThen _ = _
          rw [hu.run_expect hb]
          exact hclose
        simp only [suffixRound, Reading.cursor, Reading.slot, asks, run_bind, Outcome.andThen_ok,
          htight', hcase, hkind]
        exact run_more hcall
      have hlt : v.cursor.remaining < ({ s.next with tree } : Session).cursor.remaining := by
        refine ht.remaining_lt hv.before ?_
        simp only [List.length_cons, List.length_append]
        omega
      have hleading : (leading (nested d)).run setting s = .ok call v := by
        rw [hname]
        change runLoop (suffixRound (nested d) s.cursor.span) setting head _ = _
        rw [runLoop_more hround hlt]
        exact run_suffixes (nested d) _ call (.stop hstop) hv.before
      exact ⟨call, v, run_expr_of_leading min hstop hleading hv.before, hv⟩

/-! ## All formulas -/

mutual

/-- A formula is read by as many levels as its readings are nested deep. -/
theorem reads_formula : (f : Formula) → (d : Nat) → f.depth ≤ d → (nested d).Reads f
  | .name x, d + 1, _ => reads_simpleName d x
  | .nat n, d + 1, _ => reads_natural d n
  | .binary op lhs rhs, d + 2, h =>
      have hmax := Nat.max_le.mp (Nat.le_of_add_le_add_right h)
      reads_binary op (reads_formula lhs (d + 1) (Nat.le_succ_of_le hmax.1))
        (reads_formula rhs d hmax.2)
  | .unary op arg, d + 2, h => reads_unary op (reads_formula arg d (Nat.le_of_add_le_add_right h))
  | .app func arg, d + 2, h =>
      have hmax := Nat.max_le.mp (Nat.le_of_add_le_add_right h)
      reads_app (reads_formula func (d + 1) (Nat.le_succ_of_le hmax.1)) (reads_formula arg d hmax.2)
  | .tuple first rest, d + 1, h =>
      have hmax := Nat.max_le.mp (Nat.le_of_succ_le_succ h)
      reads_tuple (reads_formula first d hmax.1) (reads_formulas rest d hmax.2)
  | .list first rest, d + 1, h =>
      have hmax := Nat.max_le.mp (Nat.le_of_succ_le_succ h)
      reads_list (List.forall_mem_cons.mpr
        ⟨reads_formula first d hmax.1, reads_formulas rest d hmax.2⟩)
  | .call func args, d + 1, h => reads_call func (reads_formulas args d (Nat.le_of_succ_le_succ h))

theorem reads_formulas :
    (fs : List Formula) → (d : Nat) → Formula.depths fs ≤ d → ∀ f ∈ fs, (nested d).Reads f
  | [], _, _ => fun _ h => absurd h List.not_mem_nil
  | f :: fs, d, h =>
      have hmax := Nat.max_le.mp h
      List.forall_mem_cons.mpr ⟨reads_formula f d hmax.1, reads_formulas fs d hmax.2⟩

end

/-! ## Texts -/

/-- A formula does not begin a binding: neither `=` nor a colon stands behind its first token. -/
theorem run_statement_formula (deep : Deeper) (hspells : f.Spells ts) (hs : s.Before ts) :
    (statement deep).run setting s = (deep.expr .assignment).run setting s := by
  have hname : s.cursor.kind = .ident →
      s.cursor.kindAt 1 ≠ .mark .equals ∧ s.cursor.kindAt 1 ≠ .mark .colon := by
    intro hkind
    cases hspells with
    | name _ _ =>
        have hone : s.cursor.kindAt 1 = .eof := by
          simp [Cursor.kindAt, Cursor.tokenAt, hs.faces.rest_nil, hs.faces.eof]
        simp [hone]
    | call _ _ ha _ _ _ => simp [hs.kindAt_one, ha]
    | binary hlhs _ _ _ =>
        cases hlhs with
        | intro ha _ _ _ => simp [hs.kind, ha] at hkind
    | app hfunc _ _ =>
        cases hfunc with
        | intro ha _ _ _ => simp [hs.kind, ha] at hkind
    | @unary op _ _ _ ho _ =>
        rw [hs.kind, ho] at hkind
        cases op <;> cases hkind
    | _ => simp [hs.kind, *] at hkind
  simp only [statement, Reading.cursor, asks, run_bind, Outcome.andThen_ok]
  split
  · exact absurd ‹_› (hname ‹_›).1
  · exact absurd ‹_› (hname ‹_›).2
  · rfl

end Readings

/-- Parenthesised rendering is inverted by reading: where the depth limit leaves room for it, the
text of a formula is read as the formula, and as nothing else. -/
theorem rendering_inverted (f : Formula) (config : Config) (hdepth : f.depth < config.maxDepth) :
    ∃ e, Expression.ofText f.text config = .ok e ∧ e.tree.Stores f e.root ∧ e.dump = f.dump := by
  obtain ⟨d, hd⟩ : ∃ d, config.maxDepth = d + 1 := ⟨config.maxDepth - 1, by omega⟩
  obtain ⟨ts, hspells, hbefore⟩ := f.exists_spells
  obtain ⟨id, t, hexpr, ht⟩ := reads_formula f d (by omega) .assignment (setting config true)
    (initial (Lexing.ofText f.text)) ts [] (by decide) hspells rfl .eof (by simpa using hbefore)
  have hstatement : ((nested config.maxDepth).statement).run (setting config true)
      (initial (Lexing.ofText f.text)) = .ok id t := by
    rw [hd]
    exact (run_statement_formula (nested d) hspells hbefore).trans hexpr
  have hwhole : (wholeStatement (nested config.maxDepth)).onText config true f.text = .ok id t := by
    have hkind : t.cursor.kind = .eof := ht.before.faces.kind_nil
    simp [wholeStatement, onText, run_bind, hstatement, sees, Reading.kind, Reading.cursor, asks,
      run_pure, hkind]
  have hread : Expression.ofText f.text config = .ok ⟨t.tree, id⟩ := by
    rw [Expression.ofText, Expression.read_eq, hwhole]
    simp [Outcome.expression, ht.before.clean]
  exact ⟨_, hread, ht.stores, ht.stores.dump (Expression.inRange_read hread).1⟩

/-- The parenthesis behind a name is a call where it touches the name, an argument where the name is
in parentheses itself, and a tuple where a comma follows the item. -/
theorem rendering_inverted_parentheses :
    ∃ e, Expression.ofText "((f) (x)) . ((f(0n, [- (x)]),))" ⟨9, true⟩ = .ok e ∧
      e.dump = "(sigma (app f x) (tuple (call f 0n (list (neg x)))))" := by
  let f : SimpleName := ⟨⟨"f", by decide, by decide, by decide⟩, by decide⟩
  let x : SimpleName := ⟨⟨"x", by decide, by decide, by decide⟩, by decide⟩
  let call : Formula := .call f [.nat 0, .list (.unary .neg (.name x)) []]
  let pair : Formula :=
    .binary ⟨.sigma, nofun, nofun⟩ (.app (.name f) (.name x)) (.tuple call [])
  have htext : pair.text = "((f) (x)) . ((f(0n, [- (x)]),))" := by decide +kernel
  have hdump : pair.dump = "(sigma (app f x) (tuple (call f 0n (list (neg x)))))" := by
    decide +kernel
  obtain ⟨e, he, -, hshown⟩ := rendering_inverted pair ⟨9, true⟩ (by decide +kernel)
  exact ⟨e, htext ▸ he, hshown.trans hdump⟩

end BendSyntax
