import BendSyntax.Proofs.Agreement.Parentheses

/-! Patterns and the readings of the next level. A production agrees if the readings that it
is given agree; the attempts among them are given, too, because runs may differ in what
they remember. -/

namespace BendSyntax

open Reading Grammar

namespace Comparison

variable (C : Comparison)

def results : (g : Goal) → g.Result → g.Result → Prop
  | .statement => C.terms
  | .expr _ => C.terms
  | .pattern => C.patterns
  | .patternAtom => C.patterns

/-- The readings of the next level agree. -/
def Levels (deep deep' : Deeper) : Prop :=
  ∀ g, C.Agrees (deep g) (deep' g) (C.results g)

structure GenericArgs (a b : List TermId × Option (List TermId)) : Prop where
  args : List.Forall₂ C.terms a.1 b.1
  values : Option.Rel (List.Forall₂ C.terms) a.2 b.2

structure Equalities (a b : TermId × Bool × TermId) : Prop where
  lhs : C.terms a.1 b.1
  negated : a.2.1 = b.2.1
  rhs : C.terms a.2.2 b.2.2

structure TypedNames (a b : String × Span × TermId) : Prop where
  names : C.Names (a.1, a.2.1) (b.1, b.2.1)
  type : C.terms a.2.2 b.2.2

/-- The readings of the next level agree, and so do the attempts that are made of them. -/
structure Supports (deep deep' : Deeper) : Prop where
  levels : C.Levels deep deep'
  generic {c d} : C.cursors c d → c.kind = .mark .less →
    C.Agree c d (genericArgs? deep) (genericArgs? deep') (Option.Rel C.GenericArgs)
  equality {c d} : C.cursors c d → c.kind = .mark .leftBrace →
    C.Agree c d (equality? deep) (equality? deep') (Option.Rel C.Equalities)
  typedName {c d} : C.cursors c d → c.kind = .ident →
    C.Agree c d (typedName? deep) (typedName? deep') (Option.Rel C.TypedNames)

variable {C} {deep deep' : Deeper}

namespace Levels

variable (h : C.Levels deep deep')

include h

theorem statement : C.Agrees deep.statement deep'.statement C.terms := h .statement

theorem expr (min : Level) : C.Agrees (deep.expr min) (deep'.expr min) C.terms := h (.expr min)

theorem inner : C.Agrees deep.inner deep'.inner C.terms := h (.expr .check)

theorem pattern : C.Agrees deep.pattern deep'.pattern C.patterns := h .pattern

variable [C.Lawful]

theorem type : C.Agrees deep.type deep'.type C.terms :=
  agrees_withUsage .type (h.expr .product)

theorem term : C.Agrees deep.term deep'.term C.terms :=
  agrees_withUsage .term (h.expr .check)

theorem binderType : C.Agrees deep.binderType deep'.binderType C.terms := by
  refine agrees_within (h.expr .product) fun s t hst => ⟨?_, Lawful.usages_refl _⟩
  exact congrArg (fun s : Slot => { s with noDot := true }) hst.flags

end Levels

variable [C.Lawful]

theorem agrees_binder {r q : Reading TermId} (h : C.Agrees r q C.terms) :
    C.Agrees (binder r) (binder q) (Binder.Alike C.spans C.terms) := by
  refine agrees_bind agrees_identifier fun a b hab => ?_
  refine agrees_bind (agrees_expect rfl) fun _ _ _ => ?_
  refine agrees_bind h fun x y hxy => ?_
  exact agrees_pure ⟨hab.name, Lawful.marks_spans hab.marks, hxy⟩

/-! ## Patterns -/

omit [C.Lawful] in
theorem literal?_eq {c d : Cursor} (h : c.token.kind = d.token.kind ∧ c.lexeme = d.lexeme) :
    c.token.literal? = d.token.literal? := by
  have hlexeme : c.token.lexeme = d.token.lexeme := h.2
  rw [Token.literal?, h.1, hlexeme, Token.literal?]

theorem ne_eof_of_isLiteral {k : TokenKind} (h : isLiteral k = true) : k ≠ .eof := by
  rintro rfl
  nomatch h

/-- A natural literal without a number has no value. -/
theorem literal?_of_nat? {c : Cursor} (hc : c.kind = .nat)
    (h : Literal.nat? c.lexeme.toList = none) : c.token.literal? = none := by
  have hkind : c.token.kind = .nat := by
    unfold Cursor.kind at hc
    split at hc
    · nomatch hc
    · exact hc
  have h : Literal.nat? c.token.lexeme.toList = none := h
  rw [Token.literal?, hkind, Literal.ofLexeme?, h]
  rfl

/-- The value of a literal token, in front of which the cursor stays. -/
theorem agree_literal_bind {α : Type} {Q : α → α → Prop} {c d : Cursor} (hcd : C.cursors c d)
    (hc : isLiteral c.kind = true) (kind : TokenKind) {f g : Literal → Reading α}
    (h : ∀ value, C.Agree c d (f value) (g value) Q) :
    C.Agree c d (literal kind >>= f) (literal kind >>= g) Q := by
  intro slot slot' s t hslot hst hs ht
  subst hs ht
  have htoken := Lawful.token hcd (ne_eof_of_isLiteral hc)
  have hvalue := literal?_eq ⟨htoken.1, htoken.2.1⟩
  simp only [literal, cursor, asks, run_bind, Outcome.andThen_ok, hvalue]
  cases hliteral : t.cursor.token.literal? with
  | none => exact .error (Lawful.invalid _ hcd hc (hvalue.trans hliteral)) hst
  | some value => exact h value slot slot' s t hslot hst rfl rfl

theorem agree_literalPattern {c d : Cursor} (hcd : C.cursors c d)
    (hc : isLiteral c.kind = true) (kind : TokenKind) :
    C.Agree c d (literalPattern c.span kind) (literalPattern d.span kind) C.patterns := by
  refine agree_literal_bind hcd hc kind fun value => ?_
  exact agree_advance_bind hcd (ne_eof_of_isLiteral hc) fun _ _ _ =>
    agrees_closePattern (.lit value) (Lawful.span hcd)

section Productions

variable (h : C.Levels deep deep')

include h

theorem agree_parenthesised [deep.Balanced] {c d : Cursor} (hcd : C.cursors c d)
    (hc : c.kind = .mark .leftParen) :
    C.Agree c d (parenthesised deep c.span) (parenthesised deep' d.span) C.patterns := by
  have hspan := Lawful.span hcd
  refine agree_opening_bind hcd hc fun ts hin _ _ _ => ?_
  refine AgreesIn.loop_bind
    (P := fun (x y : Array PatternId × Bool) => Lists C.patterns x.1 y.1 ∧ x.2 = y.2)
    (fun x y hxy => ?_) (fun x => ?_) (by exact ⟨.nil, rfl⟩) fun x y hxy => ?_
  · obtain ⟨hpq, hcomma⟩ := hxy
    refine agreesIn_sees_bind hin (fun _ _ _ _ => agree_pure (.done ⟨hpq, hcomma⟩)) (Agrees.within ?_ ts)
    refine agrees_bind h.pattern fun p q hp => agrees_accept_bind rfl ?_ ?_
    · exact agrees_pure (.more ⟨hpq.push hp, rfl⟩)
    · exact agrees_pure (.done ⟨hpq.push hp, rfl⟩)
  · refine (balances_sees _).bind fun _ => .ite (fun _ => balances_pure _) fun _ => ?_
    refine deep.balances_pattern.bind fun _ => (balances_accept rfl).bind fun _ => ?_
    exact .ite (fun _ => balances_pure _) fun _ => balances_pure _
  · obtain ⟨ps, comma⟩ := x
    obtain ⟨qs, comma'⟩ := y
    obtain ⟨hpq, rfl⟩ := hxy
    refine ((agrees_require (by simpa using isEmpty_eq hpq) _).within ts).bind (balances_require _ _)
      fun _ _ _ => (agreesIn_expect hin).bind_agrees fun _ _ _ => ?_
    change List.Forall₂ C.patterns ps.toList qs.toList at hpq
    generalize ps.toList = ps at hpq
    generalize qs.toList = qs at hpq
    cases hpq with
    | nil => exact agrees_closePattern (.tuple .nil) hspan
    | cons hp hps =>
        cases hps with
        | nil =>
            cases comma with
            | true => exact agrees_closePattern (.tuple (.cons hp .nil)) hspan
            | false => exact agrees_closePattern (.paren hp) hspan
        | cons hp' hps => exact agrees_closePattern (.tuple (.cons hp (.cons hp' hps))) hspan

theorem agree_constructorPattern {c d : Cursor} (hcd : C.cursors c d) (hc : c.kind ≠ .eof) :
    C.Agree c d (constructorPattern deep c.span) (constructorPattern deep' d.span)
      C.patterns := by
  have hspan := Lawful.span hcd
  refine agree_advance_bind hcd hc fun _ _ _ => agrees_identifier_bind fun name _ _ _ => ?_
  refine agrees_accept_bind rfl ?_ (agrees_closePattern (.tag name) hspan)
  refine agrees_bind (agrees_separated rfl h.pattern) fun ps qs hpq => ?_
  exact agrees_bind (agrees_expect rfl) fun _ _ _ => agrees_closePattern (.ctor name hpq) hspan

theorem agree_listPattern {c d : Cursor} (hcd : C.cursors c d) (hc : c.kind ≠ .eof) :
    C.Agree c d (listPattern deep c.span) (listPattern deep' d.span) C.patterns := by
  have hspan := Lawful.span hcd
  refine agree_advance_bind hcd hc fun _ _ _ => ?_
  refine agrees_accept_bind rfl (agrees_closePattern .emptyList hspan) ?_
  refine agrees_bind (agrees_separated rfl h.pattern) fun ps qs hpq => ?_
  exact agrees_bind (agrees_expect rfl) fun _ _ _ => agrees_closePattern (.list hpq) hspan

theorem agree_successor {c d : Cursor} (hcd : C.cursors c d) (hnat : c.kind = .nat)
    (hplus : c.kindAt 1 = .mark .plus) :
    C.Agree c d (successor deep c.span) (successor deep' d.span) C.patterns := by
  have hc : c.kind ≠ .eof := ne_eof_of_kind rfl hnat
  have hne : c.advance.kind ≠ .eof := by
    rw [← Cursor.kindAt, (kindAt_advance hcd hc 0).1, hplus]
    decide
  have hspan := Lawful.span hcd
  refine agree_cursor_bind ?_
  rw [← (Lawful.token hcd hc).2.1]
  cases hvalue : Literal.nat? c.lexeme.toList with
  | none => exact agree_fail (Lawful.invalid _ hcd (hnat ▸ rfl) (literal?_of_nat? hnat hvalue))
  | some n =>
      refine agree_advance_at hcd hc fun _ _ _ => ?_
      refine agree_advance_bind (Lawful.advance hcd hc) hne fun _ _ _ => ?_
      exact agrees_bind (h .patternAtom) fun p q hp => agrees_closePattern (.succ n hp) hspan

theorem agrees_patternAtom [deep.Balanced] : C.Agrees (patternAtom deep) (patternAtom deep') C.patterns := by
  refine agrees_cursor_bind fun c d hcd => ?_
  have hspan := Lawful.span hcd
  have hkinds := Lawful.kind hcd
  dsimp only
  generalize hc : c.kind = k at hkinds
  generalize d.kind = l at hkinds
  cases hkinds with
  | same =>
      cases k with
      | ident =>
          have hne := ne_eof_of_kind rfl hc
          rw [(Lawful.token hcd hne).2.1]
          exact agree_advance_bind hcd hne fun _ _ _ => agrees_closePattern (.var _) hspan
      | nat =>
          have hne := ne_eof_of_kind rfl hc
          refine agree_ite (kindAt_one_iff hcd hne rfl) (fun hplus => ?_) fun _ => ?_
          · exact agree_successor h hcd hc hplus
          · exact agree_literalPattern hcd (hc ▸ rfl) .nat
      | int => exact agree_literalPattern hcd (hc ▸ rfl) .int
      | float => exact agree_literalPattern hcd (hc ▸ rfl) .float
      | char => exact agree_literalPattern hcd (hc ▸ rfl) .char
      | str => exact agree_literalPattern hcd (hc ▸ rfl) .str
      | word w =>
          cases w with
          | true => exact agree_literalPattern hcd (hc ▸ rfl) (.word .true)
          | false => exact agree_literalPattern hcd (hc ▸ rfl) (.word .false)
          | _ => exact agree_unexpected hcd _
      | mark s =>
          cases s with
          | atSign => exact agree_constructorPattern h hcd (ne_eof_of_kind rfl hc)
          | leftParen => exact agree_parenthesised h hcd hc
          | leftBracket => exact agree_listPattern h hcd (ne_eof_of_kind rfl hc)
          | ampersand =>
              refine agree_advance_bind hcd (ne_eof_of_kind rfl hc) fun _ _ _ => ?_
              exact agrees_identifier_bind fun name _ _ _ => agrees_closePattern (.sym name) hspan
          | _ => exact agree_unexpected hcd _
      | _ => exact agree_unexpected hcd _
  | _ => exact agree_unexpected hcd _

theorem agrees_pattern [deep.Balanced] : C.Agrees (pattern deep) (pattern deep') C.patterns := by
  refine agrees_bind agrees_here fun s t hst => ?_
  refine agrees_bind (agrees_patternAtom h) fun p q hp => ?_
  refine agrees_accept_bind rfl ?_ (agrees_pure hp)
  exact agrees_bind h.pattern fun p' q' hp' => agrees_closePattern (.cons hp hp') hst

end Productions

end Comparison

end BendSyntax
