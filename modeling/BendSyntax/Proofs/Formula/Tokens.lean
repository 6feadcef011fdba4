import BendSyntax.Proofs.Formula

/-! The tokens of a formula. Of the blanks in its text only those matter that stand in front of an
operator, of an argument and of the parenthesis of a call. -/

namespace BendSyntax

open Grammar

mutual

/-- The tokens of a formula. -/
inductive Formula.Spells : Formula → List Token → Prop
  | name {x : SimpleName} {t : Token} (ht : t.kind = .ident) (hlexeme : t.lexeme = x.text) :
      Spells (.name x) [t]
  | nat {n : UInt64} {t : Token} (ht : t.kind = .nat) (hlexeme : t.lexeme = s!"{n.toNat}n") :
      Spells (.nat n) [t]
  | binary {op : Operator} {lhs rhs : Formula} {o : Token} {ls rs : List Token}
      (hlhs : lhs.Enclosed ls) (ho : o.kind = op.form.kind) (hloose : o.isTight = false)
      (hrhs : rhs.Enclosed rs) : Spells (.binary op lhs rhs) (ls ++ o :: rs)
  | unary {op : UnaryOp} {arg : Formula} {o : Token} {ts : List Token} (ho : o.kind = op.kind)
      (harg : arg.Enclosed ts) : Spells (.unary op arg) (o :: ts)
  | app {func arg : Formula} {t : Token} {ls rs : List Token} (hfunc : func.Enclosed ls)
      (hloose : t.isTight = false) (harg : arg.Enclosed (t :: rs)) :
      Spells (.app func arg) (ls ++ t :: rs)
  | tuple {first : Formula} {rest : List Formula} {a comma b : Token} {ts us : List Token}
      (ha : a.kind = .mark .leftParen) (hfirst : first.Spells ts) (hcomma : comma.kind = .mark .comma)
      (hrest : SpellsAll rest us) (hb : b.kind = .mark .rightParen) :
      Spells (.tuple first rest) (a :: (ts ++ comma :: (us ++ [b])))
  | list {first : Formula} {rest : List Formula} {a b : Token} {ts : List Token}
      (ha : a.kind = .mark .leftBracket) (hitems : SpellsAll (first :: rest) ts)
      (hb : b.kind = .mark .rightBracket) : Spells (.list first rest) (a :: (ts ++ [b]))
  | call {func : SimpleName} {args : List Formula} {t a b : Token} {ts : List Token}
      (ht : t.kind = .ident) (hlexeme : t.lexeme = func.text) (ha : a.kind = .mark .leftParen)
      (htight : a.isTight = true) (hargs : SpellsAll args ts) (hb : b.kind = .mark .rightParen) :
      Spells (.call func args) (t :: a :: (ts ++ [b]))

/-- The tokens of a formula in parentheses. They take more room than a name. -/
inductive Formula.Enclosed : Formula → List Token → Prop
  | intro {f : Formula} {a b : Token} {ts : List Token} (ha : a.kind = .mark .leftParen)
      (h : f.Spells ts) (hb : b.kind = .mark .rightParen)
      (hwide : ∀ x, f = .name x → x.text.utf8ByteSize < b.span.stop - a.span.start) :
      Formula.Enclosed f (a :: (ts ++ [b]))

/-- The tokens of formulas with commas between them. -/
inductive Formula.SpellsAll : List Formula → List Token → Prop
  | nil : Formula.SpellsAll [] []
  | single {f : Formula} {ts : List Token} (h : f.Spells ts) : Formula.SpellsAll [f] ts
  | cons {f g : Formula} {fs : List Formula} {comma : Token} {ts us : List Token} (h : f.Spells ts)
      (hcomma : comma.kind = .mark .comma) (hmore : Formula.SpellsAll (g :: fs) us) :
      Formula.SpellsAll (f :: g :: fs) (ts ++ comma :: us)

end

/-! ## From texts to tokens -/

/-- A position behind a text is as many bytes further on as the text has. -/
theorem Position.offset_after_add (p : Position) (cs : List Char) :
    (p.after cs).offset = p.offset + (String.ofList cs).utf8ByteSize := by
  have hshift := Position.offset_after (p := .start) (q := p) (k := p.offset) (by simp [start]) cs
  rw [hshift, start_after, Nat.add_comm]

theorem InfixForm.solid (form : InfixForm) : (⟨form.kind, form.kind.name⟩ : Word).Solid := by
  have hor : (⟨.word .or, "or"⟩ : Word).Solid := @Word.solid_word "or" (by decide) (by decide)
  have hxor : (⟨.word .xor, "xor"⟩ : Word).Solid := @Word.solid_word "xor" (by decide) (by decide)
  have hand : (⟨.word .and, "and"⟩ : Word).Solid := @Word.solid_word "and" (by decide) (by decide)
  rcases form with o | _ | _ | _
  · cases o <;> first | exact hor | exact hxor | exact hand | exact Word.solid_symbol nofun
  all_goals exact Word.solid_symbol nofun

theorem UnaryOp.solid (op : UnaryOp) : (⟨op.kind, op.kind.name⟩ : Word).Solid := by
  cases op with
  | not => exact @Word.solid_word "not" (by decide) (by decide)
  | neg => exact Word.solid_symbol nofun

namespace Formula

open Lexing Scanned

/-- A formula is cut into its tokens in front of everything that ends a word, with a blank in front
of it and without one. -/
def IsCut (f : Formula) : Prop :=
  ∀ blank previous p rest, Ends rest → ∃ ts last,
    Cuts previous p (spacing blank ++ f.text.toList) rest ts last ∧ f.Spells ts

/-- Formulas with commas between them are cut into their tokens. -/
def AreCut (fs : List Formula) : Prop :=
  ∀ blank previous p rest, (fs = [] → blank = false) → Ends rest → ∃ ts last,
    Cuts previous p (spacing blank ++ (commas (texts fs)).toList) rest ts last ∧ SpellsAll fs ts

section Cutting

variable {f lhs rhs func arg first : Formula} {items args : List Formula}

/-! ### Parentheses -/

theorem cuts_mark {s : Symbol} (hs : s ≠ .leftBrace) (previous : Option TokenKind) (p : Position)
    {rest : List Char} (hrest : Ends rest) : Cuts previous p s.spelling.toList rest
      [Word.token ⟨.mark s, s.spelling⟩ p (previous.isNone || false)] (some (.mark s)) :=
  .word false (Word.solid_symbol hs) ((Word.solid_symbol hs).whole rest hrest)

/-- An opening parenthesis or bracket is cut off in front of anything. -/
theorem cuts_opening {s : Symbol} (hs : s = .leftParen ∨ s = .leftBracket) (blank : Bool)
    (previous : Option TokenKind) (p : Position) (rest : List Char) :
    Cuts previous p (spacing blank ++ s.spelling.toList) rest
      [Word.token ⟨.mark s, s.spelling⟩ (p.after (spacing blank)) (previous.isNone || blank)]
      (some (.mark s)) :=
  .word blank (Word.solid_symbol (by rcases hs with rfl | rfl <;> nofun))
    (Word.opening_endsBefore hs rest)

/-- A formula in parentheses is cut into its tokens and those of the parentheses. -/
theorem IsCut.enclosed (h : f.IsCut) (blank : Bool) (previous : Option TokenKind) (p : Position)
    (rest : List Char) (hrest : Ends rest) : ∃ a us,
      Cuts previous p (spacing blank ++ '(' :: (f.text.toList ++ [')'])) rest (a :: us)
        (some (.mark .rightParen)) ∧ f.Enclosed (a :: us) ∧ (blank = true → a.isTight = false) := by
  let q := p.after (spacing blank ++ ['('])
  have hopen : Cuts previous p (spacing blank ++ ['(']) (f.text.toList ++ [')'] ++ rest) _ _ :=
    cuts_opening (s := .leftParen) (.inl rfl) blank previous p _
  obtain ⟨ts, last, hcuts, hspells⟩ :=
    h false (some (.mark .leftParen)) q ([')'] ++ rest) (ends_cons rfl _)
  have hclose := cuts_mark (s := .rightParen) nofun last (q.after f.text.toList) hrest
  have hwhole := hopen.append (hcuts.append hclose)
  have htext : spacing blank ++ ['('] ++ (f.text.toList ++ [')']) =
      spacing blank ++ '(' :: (f.text.toList ++ [')']) := by simp
  refine ⟨_, _, htext ▸ hwhole, .intro rfl hspells rfl ?_, ?_⟩
  · rintro x rfl
    have hstart : q.offset = (p.after (spacing blank)).offset + 1 := by
      rw [Position.offset_after_add, Position.offset_after_add, Span.utf8ByteSize_append,
        ← Nat.add_assoc]
      rfl
    have hstop : (q.after x.text.toList).offset = q.offset + x.text.utf8ByteSize := by
      rw [Position.offset_after_add, String.ofList_toList]
    rw [Formula.text]
    change x.text.utf8ByteSize <
      ((q.after x.text.toList).after [')']).offset - (p.after (spacing blank)).offset
    rw [Position.offset_after_add, hstop]
    omega
  · rintro rfl
    simp [Word.token, Token.isTight]

/-! ### Operators and applications -/

theorem IsCut.binary (hlhs : lhs.IsCut) (hrhs : rhs.IsCut) (op : Operator) :
    (binary op lhs rhs).IsCut := by
  intro blank previous p rest hrest
  let operator := spacing true ++ op.form.kind.name.toList
  let argument := spacing true ++ '(' :: (rhs.text.toList ++ [')'])
  let front := spacing blank ++ '(' :: (lhs.text.toList ++ [')'])
  have htext : spacing blank ++ (Formula.binary op lhs rhs).text.toList =
      front ++ (operator ++ argument) := by
    simp [Formula.text, toString, front, operator, argument, spacing]
  obtain ⟨a, us, hl, hls, -⟩ := hlhs.enclosed blank previous p (operator ++ argument ++ rest)
    (ends_cons rfl _)
  obtain ⟨b, vs, hr, hrs, -⟩ := hrhs.enclosed true (some op.form.kind)
    ((p.after front).after operator) rest hrest
  have ho : Cuts (some (.mark .rightParen)) (p.after front) operator (argument ++ rest) _ _ :=
    .word true op.form.solid (op.form.solid.whole _ (ends_cons rfl _))
  exact ⟨_, _, htext ▸ hl.append (ho.append hr), .binary hls rfl rfl hrs⟩

theorem IsCut.unary (harg : arg.IsCut) (op : UnaryOp) : (unary op arg).IsCut := by
  intro blank previous p rest hrest
  let operator := spacing blank ++ op.kind.name.toList
  let argument := spacing true ++ '(' :: (arg.text.toList ++ [')'])
  have htext : spacing blank ++ (Formula.unary op arg).text.toList = operator ++ argument := by
    simp [Formula.text, toString, operator, argument, spacing]
  obtain ⟨b, us, hr, hrs, -⟩ := harg.enclosed true (some op.kind) (p.after operator) rest hrest
  have ho : Cuts previous p operator (argument ++ rest) _ _ :=
    .word blank op.solid (op.solid.whole _ (ends_cons rfl _))
  exact ⟨_, _, htext ▸ ho.append hr, .unary rfl hrs⟩

theorem IsCut.app (hfunc : func.IsCut) (harg : arg.IsCut) : (app func arg).IsCut := by
  intro blank previous p rest hrest
  let front := spacing blank ++ '(' :: (func.text.toList ++ [')'])
  let argument := spacing true ++ '(' :: (arg.text.toList ++ [')'])
  have htext : spacing blank ++ (Formula.app func arg).text.toList = front ++ argument := by
    simp [Formula.text, toString, front, argument, spacing]
  obtain ⟨a, us, hl, hls, -⟩ := hfunc.enclosed blank previous p (argument ++ rest) (ends_cons rfl _)
  obtain ⟨b, vs, hr, hrs, htight⟩ := harg.enclosed true (some (.mark .rightParen)) (p.after front)
    rest hrest
  exact ⟨_, _, htext ▸ hl.append hr, .app hls (htight rfl) hrs⟩

/-! ### Items -/

theorem areCut_nil : AreCut [] := by
  rintro blank previous p rest hblank -
  obtain rfl := hblank rfl
  have htext : spacing false ++ (commas (texts [])).toList = [] := by rfl
  rw [htext]
  exact ⟨[], previous, ⟨rfl, rfl⟩, .nil⟩

theorem AreCut.cons (hfirst : first.IsCut) (hitems : AreCut items) : AreCut (first :: items) := by
  intro blank previous p rest _ hrest
  cases items with
  | nil =>
      obtain ⟨ts, last, hcuts, hspells⟩ := hfirst blank previous p rest hrest
      exact ⟨ts, last, by rwa [texts, texts, commas], .single hspells⟩
  | cons g gs =>
      let front := spacing blank ++ first.text.toList
      let more := spacing true ++ (commas (texts (g :: gs))).toList
      have htext : spacing blank ++ (commas (texts (first :: g :: gs))).toList = front ++ ([','] ++ more) := by
        simp [Formula.texts, commas, toString, front, more, spacing]
      obtain ⟨ts, last, hts, hspells⟩ := hfirst blank previous p ([','] ++ more ++ rest)
        (ends_cons rfl _)
      have hcomma : Cuts last (p.after front) [','] (more ++ rest) _ _ :=
        cuts_mark (s := .comma) nofun last (p.after front) (ends_cons rfl _)
      obtain ⟨us, last', hus, hmore⟩ := hitems true (some (.mark .comma))
        ((p.after front).after [',']) rest nofun hrest
      exact ⟨_, _, htext ▸ hts.append (hcomma.append hus), .cons hspells rfl hmore⟩

/-- Items in brackets are cut into their tokens and those of the brackets. -/
theorem AreCut.bracketed (h : AreCut items) (opening closing : Symbol)
    (hopening : opening = .leftParen ∨ opening = .leftBracket)
    (hclosing : closing = .rightParen ∨ closing = .rightBracket) (blank : Bool)
    (previous : Option TokenKind) (p : Position) (rest : List Char) (hrest : Ends rest) :
    ∃ a ts b, Cuts previous p
        (spacing blank ++ opening.spelling.toList ++ ((commas (texts items)).toList ++ closing.spelling.toList))
        rest (a :: (ts ++ [b])) (some (.mark closing)) ∧
      a.kind = .mark opening ∧ a.isTight = !(previous.isNone || blank) ∧ SpellsAll items ts ∧
      b.kind = .mark closing := by
  have hends : Ends (closing.spelling.toList ++ rest) := by
    rcases hclosing with rfl | rfl <;> exact ends_cons rfl _
  have hopen := cuts_opening hopening blank previous p
    ((commas (texts items)).toList ++ closing.spelling.toList ++ rest)
  obtain ⟨ts, last, hcuts, hspells⟩ := h false (some (.mark opening))
    (p.after (spacing blank ++ opening.spelling.toList)) (closing.spelling.toList ++ rest)
    (fun _ => rfl) hends
  have hclose : Cuts last ((p.after (spacing blank ++ opening.spelling.toList)).after
      (commas (texts items)).toList) closing.spelling.toList rest _ _ :=
    cuts_mark (by rcases hclosing with rfl | rfl <;> nofun) last _ hrest
  exact ⟨_, ts, _, hopen.append (hcuts.append hclose), rfl, rfl, hspells, rfl⟩

theorem IsCut.list (h : AreCut (first :: items)) : (list first items).IsCut := by
  intro blank previous p rest hrest
  have htext : spacing blank ++ (Formula.list first items).text.toList =
      spacing blank ++ ['['] ++ ((commas (texts (first :: items))).toList ++ [']']) := by
    simp [Formula.text, texts, toString]
  obtain ⟨a, ts, b, hcuts, ha, -, hspells, hb⟩ := h.bracketed .leftBracket .rightBracket
    (.inr rfl) (.inr rfl) blank previous p rest hrest
  exact ⟨_, _, htext ▸ hcuts, .list ha hspells hb⟩

theorem IsCut.call (h : AreCut args) (func : SimpleName) : (call func args).IsCut := by
  intro blank previous p rest hrest
  let front := spacing blank ++ func.text.toList
  have htext : spacing blank ++ (Formula.call func args).text.toList =
      front ++ (spacing false ++ ['('] ++ ((commas (texts args)).toList ++ [')'])) := by
    simp [Formula.text, toString, front, spacing]
  obtain ⟨a, ts, b, hcuts, ha, htight, hspells, hb⟩ := h.bracketed .leftParen .rightParen
    (.inl rfl) (.inl rfl) false (some .ident) (p.after front) rest hrest
  have hname : Cuts previous p front
      (spacing false ++ ['('] ++ ((commas (texts args)).toList ++ [')']) ++ rest) _ _ :=
    .word blank func.solid (func.solid.whole _ (ends_cons rfl _))
  exact ⟨_, _, htext ▸ hname.append hcuts, .call rfl rfl ha htight hspells hb⟩

theorem IsCut.tuple (hfirst : first.IsCut) (hitems : AreCut items) : (tuple first items).IsCut := by
  intro blank previous p rest hrest
  -- A comma stands behind the first item in any case.
  let more := (commas (texts items)).toList
  let front := spacing blank ++ ['(']
  have htext : spacing blank ++ (Formula.tuple first items).text.toList =
      front ++ (first.text.toList ++ ([','] ++ (spacing (!items.isEmpty) ++ more ++ [')']))) := by
    cases items <;> simp [Formula.text, Formula.texts, commas, toString, front, more, spacing]
  have hopen : Cuts previous p front
      (first.text.toList ++ ([','] ++ (spacing (!items.isEmpty) ++ more ++ [')'])) ++ rest) _ _ :=
    cuts_opening (s := .leftParen) (.inl rfl) blank previous p _
  obtain ⟨ts, last, hts, hspells⟩ := hfirst false (some (.mark .leftParen)) (p.after front)
    ([','] ++ (spacing (!items.isEmpty) ++ more ++ [')']) ++ rest) (ends_cons rfl _)
  obtain ⟨us, last', hus, hmore⟩ := hitems (!items.isEmpty) (some (.mark .comma))
    (((p.after front).after first.text.toList).after [',']) ([')'] ++ rest) (by simp)
    (ends_cons rfl _)
  have hends : Ends (spacing (!items.isEmpty) ++ more ++ [')'] ++ rest) := by
    cases items with
    | nil => simpa [more, spacing, texts, commas] using ends_cons (c := ')') rfl rest
    | cons f fs => exact ends_cons (c := ' ') rfl _
  have hcomma : Cuts last ((p.after front).after first.text.toList) [',']
      (spacing (!items.isEmpty) ++ more ++ [')'] ++ rest) _ _ :=
    cuts_mark (s := .comma) nofun last _ hends
  have hclose := cuts_mark (s := .rightParen) nofun last'
    ((((p.after front).after first.text.toList).after [',']).after
      (spacing (!items.isEmpty) ++ more)) hrest
  exact ⟨_, _, htext ▸ hopen.append (hts.append (hcomma.append (hus.append hclose))),
    .tuple rfl hspells rfl hmore rfl⟩

/-! ### Formulas -/

theorem IsCut.of_solid {w : Word} (hw : w.Solid) (htext : f.text = w.text)
    (hspells : ∀ t, t.kind = w.kind → t.lexeme = w.text → f.Spells [t]) : f.IsCut := by
  intro blank previous p rest hrest
  rw [htext]
  exact ⟨_, _, .word blank hw (hw.whole rest hrest), hspells _ rfl rfl⟩

theorem IsCut.nat (n : UInt64) : (nat n).IsCut := by
  have hn : n.toNat < 0x10000000000000000 := n.toNat_lt
  exact .of_solid (Word.solid_nat hn) (by rw [text]) fun _ => .nat

mutual

/-- The text of a formula is cut into its tokens. -/
theorem isCut : (f : Formula) → f.IsCut
  | name x => .of_solid x.solid (by rw [text]; rfl) fun _ => .name
  | nat n => .nat n
  | binary op lhs rhs => (isCut lhs).binary (isCut rhs) op
  | unary op arg => (isCut arg).unary op
  | app func arg => (isCut func).app (isCut arg)
  | tuple first rest => (isCut first).tuple (areCut rest)
  | list first rest => .list (.cons (isCut first) (areCut rest))
  | call func args => .call (areCut args) func

theorem areCut : (fs : List Formula) → AreCut fs
  | [] => areCut_nil
  | f :: fs => .cons (isCut f) (areCut fs)

end

end Cutting

/-- In front of the text of a formula stand its tokens, and nothing is wrong with it. -/
theorem exists_spells (f : Formula) :
    ∃ ts, f.Spells ts ∧ (Reading.initial (ofText f.text)).Before ts := by
  obtain ⟨ts, last, hcuts, hspells⟩ := isCut f false none .start [] ends_nil
  obtain ⟨hbody, hdiagnostics⟩ := hcuts.ofText
  refine ⟨ts, hspells, ⟨⟨[], .nil, hbody⟩, eof_kind_onward _ _ _, rfl⟩, ?_⟩
  simp [Reading.initial, hdiagnostics]

end Formula

end BendSyntax
