import BendSyntax.Proofs.Shapes

/-! Patterns, what follows an operand, case blocks and the constructs that begin with a keyword keep
trees in shape. The first head of a case block decides which cases are read. -/

namespace BendSyntax

open Reading Grammar

/-- The head that a case with a tag was read from. -/
def CaseTag.head {τ : Type} : CaseTag τ → CaseHead
  | unit => .unit
  | false => .false
  | true => .true
  | zero => .zero
  | succ => .succ
  | nil => .nil
  | cons => .cons
  | pair => .pair
  | ctor _ => .ctor
  | sym _ => .sym
  | sup _ => .sup
  | refl => .refl

/-- The readings of the next level keep trees in shape, and atoms are atoms. -/
structure Deeper.Shapely (deep : Deeper) : Prop where
  statement : deep.statement.Shapes
  expr : ∀ min, (deep.expr min).Shapes
  pattern : deep.pattern.Shapes
  patternAtom : Triple Session.Shaped (fun _ => True) (deep .patternAtom : Reading PatternId)
    fun id s => s.tree.IsAtom id

variable {deep : Deeper} {start : Span} {P : Session → Prop}

namespace Deeper.Shapely

variable (h : deep.Shapely)

include h

theorem type : deep.type.Shapes := (h.expr _).withUsage

theorem term : deep.term.Shapes := (h.expr _).withUsage

theorem inner : deep.inner.Shapes := h.expr _

theorem binderType : deep.binderType.Shapes := (h.expr _).within

end Deeper.Shapely

/-! ## Patterns -/

theorem shapes_binder {type : Reading TermId} (h : type.Shapes) : (binder type).Shapes :=
  Triple.identifier.bind fun _ => (Triple.expect _).bind fun _ => h.bind fun _ =>
    .pure fun _ _ => trivial

theorem shapes_literal (kind : TokenKind) : (literal kind).Shapes := by
  refine Triple.cursor.bind fun c => ?_
  split
  · exact .pure fun _ _ => trivial
  · exact .fails _

theorem atom_literalPattern (kind : TokenKind) :
    Triple Session.Shaped (fun _ => True) (literalPattern start kind) fun id s =>
      s.tree.IsAtom id :=
  (shapes_literal kind).bind fun _ => Triple.advance.bind fun _ =>
    .closeAtom trivial fun _ _ => trivial

section Productions

variable (h : deep.Shapely)

include h

theorem atom_parenthesised :
    Triple Session.Shaped (fun _ => True) (parenthesised deep start) fun id s =>
      s.tree.IsAtom id := by
  refine Triple.advance.bind fun _ => ?_
  refine (Triple.maintains_loop (fun acc => ?_) _).bind fun acc => ?_
  · obtain ⟨items, comma⟩ := acc
    refine (Triple.sees _).bind fun _ => .ite (fun _ => .pure fun _ _ => trivial) fun _ => ?_
    refine h.pattern.bind fun p => (Triple.accept _).bind fun _ => ?_
    exact .ite (fun _ => .pure fun _ _ => trivial) fun _ => .pure fun _ _ => trivial
  · obtain ⟨items, comma⟩ := acc
    refine (Triple.require _ _).given fun _ hitems => (Triple.expect _).bind fun _ => ?_
    split
    · exact .closeAtom trivial fun _ _ => trivial
    · exact .closeAtom trivial fun _ _ => by simpa [Pattern.Shaped] using hitems

theorem atom_constructorPattern :
    Triple Session.Shaped (fun _ => True) (constructorPattern deep start) fun id s =>
      s.tree.IsAtom id := by
  refine Triple.advance.bind fun _ => Triple.identifier.bind fun _ => ?_
  refine (Triple.accept _).bind fun _ =>
    .ite (fun _ => ?_) fun _ => .closeAtom trivial fun _ _ => trivial
  refine (Triple.separated _ h.pattern).bind fun args => (Triple.expect _).bind fun _ => ?_
  exact .closeAtom trivial fun _ _ => trivial

/-- Without the closing bracket behind the opening one a list has an item. -/
theorem atom_listPattern :
    Triple Session.Shaped (fun _ => True) (listPattern deep start) fun id s =>
      s.tree.IsAtom id := by
  refine Triple.advance.bind fun _ => (Triple.accept_else _).bind fun found => ?_
  refine .ite (fun _ => .closeAtom trivial fun _ _ => trivial) fun hfound => ?_
  refine .mono ?_ fun s hs => (hs (by simpa using hfound)).1
  exact (Triple.separated_some _ h.pattern).given fun items hitems => (Triple.expect _).bind fun _ =>
    .closeAtom trivial fun _ _ => hitems

theorem atom_successor :
    Triple Session.Shaped (fun _ => True) (successor deep start) fun id s => s.tree.IsAtom id := by
  refine Triple.cursor.bind fun c => ?_
  split
  · refine Triple.advance.bind fun _ => Triple.advance.bind fun _ => ?_
    exact h.patternAtom.bind fun rest => .closeAtom trivial fun _ hrest => hrest
  · exact .fails _

theorem atom_patternAtom :
    Triple Session.Shaped P (patternAtom deep) fun id s => s.tree.IsAtom id := by
  refine Triple.cursor.bind fun c => .anywhere ?_
  dsimp only
  split
  · exact Triple.advance.bind fun _ => .closeAtom trivial fun _ _ => trivial
  · exact .ite (fun _ => atom_successor h) fun _ => atom_literalPattern _
  any_goals exact atom_literalPattern _
  · exact atom_constructorPattern h
  · exact Triple.advance.bind fun _ => Triple.identifier.bind fun _ =>
      .closeAtom trivial fun _ _ => trivial
  · exact atom_parenthesised h
  · exact atom_listPattern h
  · exact .unexpected _

/-- In front of `<>` stands an atom. -/
theorem shapes_pattern : (pattern deep).Shapes := by
  refine Triple.here.bind fun start => (atom_patternAtom h).bind fun head => ?_
  refine .across (lasting_isAtom head) (.accept _) fun _ => ?_
  refine .ite (fun _ => ?_) fun _ => .pure fun _ _ => trivial
  refine .across (lasting_isAtom head) h.pattern fun tail => ?_
  have hcons : Triple Session.Shaped (fun s => s.tree.IsAtom head)
      (closePattern start (.cons head tail)) _ := .closePattern fun _ hhead => hhead
  exact hcons.forget

/-! ## What follows an operand -/

theorem shapes_callArgs : (callArgs deep).Shapes :=
  (Triple.separated _ h.inner).delimited.bind fun _ => (Triple.expect _).bind fun _ =>
    .pure fun _ _ => trivial

/-- Behind a blank only a name is called. -/
theorem shapes_call {head : TermId} {tight : Bool}
    (hhead : ∀ s, P s → tight = false → s.tree.IsName head) :
    Triple Session.Shaped P (call deep head start tight) fun _ _ => True := by
  have hcall : Triple Session.Shaped (fun s => tight = false → s.tree.IsName head)
      (call deep head start tight) fun _ _ => True := by
    have hlasting : Lasting fun s => tight = false → s.tree.IsName head :=
      fun s t honward hname htight => lasting_isName head s t honward (hname htight)
    exact .across hlasting Triple.advance fun _ => .across hlasting (shapes_callArgs h) fun args =>
      .close fun _ hname => hname
  exact hcall.mono hhead

theorem some_typeArgs : Triple Session.Shaped P (typeArgs deep) fun args _ => args ≠ [] := by
  refine Triple.advance.bind fun _ => ?_
  refine (Triple.commaList (h.expr _)).withUsage.delimited.given fun args hargs => ?_
  exact Triple.closeAngle.bind fun _ => .pure fun _ _ => hargs.1

/-- Type arguments are not empty. -/
theorem some_genericArgs? : Triple Session.Shaped P (genericArgs? deep)
    fun found _ => ∀ args values, found = some (args, values) → args ≠ [] := by
  refine .attempt .generic ?_ nofun
  refine (some_typeArgs h).given fun args hargs => Triple.cursor.bind fun c => .anywhere ?_
  have hanswer (values : Option (List TermId)) (args' : List TermId)
      (values' : Option (List TermId)) (heq : some (args, values) = some (args', values')) :
      args' ≠ [] := by
    cases heq
    exact hargs
  refine .ite (fun _ => ?_) fun _ => ?_
  · exact Triple.advance.bind fun _ => (shapes_callArgs h).bind fun values =>
      .pure fun _ _ => hanswer _
  · exact Triple.ask.bind fun s => .ite (fun _ => .pure fun _ _ => nofun) fun _ =>
      .pure fun _ _ => hanswer _

/-- Only a name is applied to types. -/
theorem shapes_generic? {head : TermId} :
    Triple Session.Shaped (fun s => s.tree.IsName head) (generic? deep head start)
      fun _ _ => True := by
  refine .acrossGiven (lasting_isName head) (some_genericArgs? h) fun found hfound => ?_
  split
  · exact .map (.close fun _ hname => ⟨hname, hfound _ _ rfl⟩)
  · exact .map (.close fun _ hname => ⟨hname, hfound _ _ rfl⟩)
  · exact .pure fun _ _ => trivial

theorem shapes_equalitySides : (equalitySides deep).Shapes := by
  refine (h.expr _).bind fun lhs => Triple.kind.bind fun k => ?_
  split
  · exact Triple.advance.bind fun _ => (h.expr _).bind fun rhs => .pure fun _ _ => trivial
  · exact .pure fun _ _ => trivial

theorem shapes_equality : (equality deep).Shapes := by
  refine Triple.advance.bind fun _ => ?_
  refine (shapes_equalitySides h).withUsage.delimited.bind fun sides => ?_
  split
  · exact (Triple.accept _).bind fun _ => .ite (fun _ => .pure fun _ _ => trivial) fun _ =>
      .pure fun _ _ => trivial
  · exact .pure fun _ _ => trivial

omit h in
theorem shapes_refl : Triple Session.Shaped P Grammar.refl fun _ _ => True :=
  Triple.here.bind fun _ => Triple.advance.bind fun _ => Triple.advance.bind fun _ =>
    Triple.advance.bind fun _ => .close fun _ _ => trivial

theorem shapes_braceSuffix {head : TermId} {tight : Bool} :
    (braceSuffix deep head start tight).Shapes := by
  refine Triple.cursor.bind fun c => .ite (fun _ => ?_) fun _ => ?_
  · exact shapes_refl.bind fun arg => .close fun _ _ => trivial
  · have hequality : (equality? deep).Shapes := .attempt .equality (shapes_equality h) trivial
    refine hequality.anywhere.bind fun sides => ?_
    split
    · exact .close fun _ _ => trivial
    · refine (Triple.expect _).bind fun _ => ?_
      refine (Triple.separated _ h.inner).withUsage.delimited.bind fun args => ?_
      exact (Triple.expect _).bind fun _ => .close fun _ _ => trivial

theorem shapes_suffixRound (head : TermId) : (suffixRound deep start head).Shapes := by
  have hdone : Triple Session.Shaped (fun _ => True) (pure (Round.done head)) fun _ _ => True :=
    .pure fun _ _ => trivial
  refine Triple.ask.bind fun c => Triple.ask.bind fun s => .ite (fun _ => hdone) fun _ => ?_
  split
  · exact .map (shapes_call h fun _ _ => nofun)
  · refine (Triple.bareName head).bind fun bare => .ite (fun hbare => ?_) fun _ => hdone.anywhere
    have hgeneric : Triple Session.Shaped (fun s => bare = true → s.tree.IsName head)
        (generic? deep head start) fun _ _ => True :=
      (shapes_generic? h).mono fun _ hname => hname hbare
    refine hgeneric.bind fun found => ?_
    split
    · exact .pure fun _ _ => trivial
    · exact hdone
  · refine .ite (fun _ => ?_) fun _ => hdone
    exact Triple.advance.bind fun _ => Triple.advance.bind fun _ => .map (.close fun _ _ => trivial)
  · exact .ite (fun _ => .map (shapes_braceSuffix h)) fun _ => hdone
  · exact hdone

theorem shapes_suffixes {head : TermId} : (suffixes deep start head).Shapes :=
  .maintains_loop (shapes_suffixRound h) head

/-! ## Case blocks -/

theorem sup_supTag : Triple Session.Shaped P (supTag deep) fun tag _ => tag.head = .sup := by
  refine (Triple.expect _).bind fun _ => (h.expr _).within.bind fun label => ?_
  refine (Triple.expect _).bind fun _ => (Triple.expect _).bind fun _ =>
    (Triple.expect _).bind fun _ => ?_
  exact .pure fun _ _ => rfl

theorem head_caseTag (head : CaseHead) :
    Triple Session.Shaped P (caseTag deep head) fun tag _ => tag.head = head := by
  cases head with
  | sup => exact sup_supTag h
  | ctor => exact Triple.advance.bind fun _ => Triple.identifier.bind fun _ => .pure fun _ _ => rfl
  | sym => exact Triple.advance.bind fun _ => Triple.identifier.bind fun _ => .pure fun _ _ => rfl
  | _ => exact (Triple.skipTokens _).bind fun _ => .pure fun _ _ => rfl

theorem head_blockCase (head : CaseHead) :
    Triple Session.Shaped P (blockCase deep head) fun c _ => c.tag.head = head := by
  refine Triple.here.bind fun start => (head_caseTag h head).given fun tag htag => ?_
  refine (Triple.expect _).bind fun _ => h.statement.bind fun body => ?_
  exact (Triple.accept _).bind fun _ => (Triple.since _).bind fun _ => .pure fun _ _ => htag

theorem head_positionalCase (kind : BlockKind) (head : CaseHead) :
    Triple Session.Shaped P (positionalCase deep kind head) fun c _ => c.tag.head = head :=
  Triple.cursor.bind fun _ => .ite (fun _ => head_blockCase h head) fun _ => .unexpected _

theorem shaped_positionalBlock {kind : BlockKind} {first second : CaseHead}
    (hkind : ∀ a b : CaseTag TermId, a.head = first → b.head = second → kind.Admits [a, b] none) :
    Triple Session.Shaped P (positionalBlock deep kind first second) fun block _ =>
      block.Shaped := by
  refine (head_positionalCase h kind first).given fun a ha => ?_
  refine (head_positionalCase h kind second).given fun b hb => ?_
  exact .pure fun _ _ => hkind a.tag b.tag ha hb

theorem shaped_singleBlock {kind : BlockKind} {head : CaseHead}
    (hkind : ∀ a : CaseTag TermId, a.head = head → kind.Admits [a] none) :
    Triple Session.Shaped P (singleBlock deep kind head) fun block _ => block.Shaped :=
  (head_blockCase h head).given fun a ha => .pure fun _ _ => hkind a.tag ha

omit h in
theorem CaseTag.ofEnum_iff {tag : CaseTag TermId} :
    tag.OfEnum ↔ tag.head = .ctor ∨ tag.head = .sym := by
  cases tag <;> simp [CaseTag.OfEnum, CaseTag.head]

/-- Cases of an enum block, with another one to come as long as there is none. -/
def EnumCases (cases : Array (BlockCase TermId)) (s : Session) : Prop :=
  (∀ c ∈ cases, c.tag.OfEnum) ∧ (cases = #[] → s.cursor.kind ≠ .mark .rightBrace)

theorem enumCases_enumRound (cases : Array (BlockCase TermId)) :
    Triple Session.Shaped (EnumCases cases) (enumRound deep cases)
      (Round.Meets EnumCases EnumCases) := by
  have hcase (head : CaseHead) (hhead : head = .ctor ∨ head = .sym)
      (hcases : ∀ c ∈ cases, c.tag.OfEnum) :
      Triple Session.Shaped (fun _ => True) (do return .more (cases.push (← blockCase deep head)))
        (Round.Meets EnumCases EnumCases) := by
    refine (head_blockCase h head).given fun a ha => .pure fun s _ => ?_
    have hpush : EnumCases (cases.push a) s := by
      refine ⟨fun c hc => ?_, by simp⟩
      rcases Array.mem_push.mp hc with hc | rfl
      · exact hcases c hc
      · exact CaseTag.ofEnum_iff.mpr (ha ▸ hhead)
    exact ⟨hpush, hpush⟩
  refine .extract (fun _ hcases => hcases.1) fun hcases => Triple.cursor.bind fun c => ?_
  split
  · exact (hcase .ctor (.inl rfl) hcases).anywhere
  · exact (hcase .sym (.inr rfl) hcases).anywhere
  · exact .pure fun _ hs => hs.2

theorem shaped_enumBlock :
    Triple Session.Shaped (fun s => s.cursor.kind ≠ .mark .rightBrace) (enumBlock deep)
      fun block _ => block.Shaped := by
  have hloop : Triple Session.Shaped (fun s => s.cursor.kind ≠ .mark .rightBrace)
      (loop (enumRound deep) #[]) EnumCases :=
    (Triple.loop (enumCases_enumRound h) #[]).mono fun s hs => ⟨by simp, fun _ => hs⟩
  refine hloop.bind fun cases => .extract (fun _ hcases => hcases.1) fun hcases => ?_
  have htags : ∀ tag ∈ cases.toList.map (·.tag), tag.OfEnum := by simpa using hcases
  refine (Triple.sees_iff _).bind fun seen => .ite (fun hseen => .pure fun s hs => ?_) fun _ =>
    .anywhere ?_
  · have hne : cases ≠ #[] := fun hempty => hs.2.2 hempty (hs.1.mp hseen)
    exact .enum htags (.inl (by simpa using hne))
  · exact h.statement.bind fun body => (Triple.accept _).bind fun _ => .pure fun _ _ =>
      .enum htags (.inr nofun)

theorem shaped_blockFrom (head : CaseHead) :
    Triple Session.Shaped (fun s => s.cursor.kind ≠ .mark .rightBrace) (blockFrom deep head)
      fun block _ => block.Shaped := by
  have hbool (a b : CaseTag TermId) (ha : a.head = .false) (hb : b.head = .true) :
      BlockKind.bool.Admits [a, b] none := by
    cases a <;> cases ha
    cases b <;> cases hb
    exact .bool
  have hnat (a b : CaseTag TermId) (ha : a.head = .zero) (hb : b.head = .succ) :
      BlockKind.nat.Admits [a, b] none := by
    cases a <;> cases ha
    cases b <;> cases hb
    exact .nat
  have hlist (a b : CaseTag TermId) (ha : a.head = .nil) (hb : b.head = .cons) :
      BlockKind.list.Admits [a, b] none := by
    cases a <;> cases ha
    cases b <;> cases hb
    exact .list
  cases head with
  | unit => exact shaped_singleBlock h fun a ha => by cases a <;> cases ha; exact .unit
  | pair => exact shaped_singleBlock h fun a ha => by cases a <;> cases ha; exact .pair
  | refl => exact shaped_singleBlock h fun a ha => by cases a <;> cases ha; exact .eql
  | sup => exact shaped_singleBlock h fun a ha => by cases a <;> cases ha; exact .sup _
  | false => exact shaped_positionalBlock h hbool
  | true => exact shaped_positionalBlock h hbool
  | zero => exact shaped_positionalBlock h hnat
  | succ => exact shaped_positionalBlock h hnat
  | nil => exact shaped_positionalBlock h hlist
  | cons => exact shaped_positionalBlock h hlist
  | ctor => exact shaped_enumBlock h
  | sym => exact shaped_enumBlock h

theorem shapes_atLongSupHead {c : Cursor} :
    Triple Session.Shaped (fun s => s.cursor = c) (atLongSupHead deep) fun _ s => s.cursor = c :=
  .succeeds (fun _ _ _ hplace hc => hplace.trans hc)
    ((sup_supTag h).forget.bind fun _ => .expect _)

/-- Only the empty block is closed at once. -/
theorem shaped_blockCases :
    Triple Session.Shaped P (blockCases deep) fun block _ => block.Shaped := by
  refine Triple.cursor.bind fun c => ?_
  refine .ite (fun _ => .pure fun _ _ => .empty) fun hkind => ?_
  have hfrom (head : CaseHead) : Triple Session.Shaped (fun s => s.cursor = c)
      (blockFrom deep head) fun block _ => block.Shaped :=
    (shaped_blockFrom h head).mono fun s hs => hs ▸ hkind
  have henum : Triple Session.Shaped (fun s => s.cursor = c) (enumBlock deep)
      fun block _ => block.Shaped := hfrom .ctor
  refine .mono ?_ fun s hs => hs.1
  split
  · exact hfrom _
  · refine .ite (fun _ => ?_) fun _ => ?_
    · exact (shapes_atLongSupHead h).bind fun _ => .ite (fun _ => hfrom _) fun _ => henum
    · have hslot : Triple Session.Shaped (fun s => s.cursor = c) slot fun _ s => s.cursor = c :=
        .asks fun _ _ _ hc => hc
      exact hslot.bind fun _ => .ite (fun _ => henum) fun _ => .unexpected _

theorem shaped_caseBlock :
    Triple Session.Shaped P (caseBlock deep) fun block _ => block.Shaped := by
  refine (Triple.expect _).bind fun _ => (shaped_blockCases h).within.given fun block hblock => ?_
  exact (Triple.expect _).bind fun _ => .pure fun _ _ => hblock

/-! ## Constructs that bind names -/

/-- Patterns in parentheses are not empty. -/
theorem some_param : Triple Session.Shaped P (param deep) fun p _ =>
    ∀ items, p = .patterns items → items ≠ [] := by
  refine Triple.ask.bind fun c => ?_
  split
  · refine Triple.advance.bind fun span => (Triple.accept _).bind fun _ =>
      .ite (fun _ => ?_) fun _ => ?_
    · exact h.binderType.bind fun _ => .pure fun _ _ => nofun
    · exact .pure fun _ _ => nofun
  · refine Triple.advance.bind fun _ => .ite (fun _ => ?_) fun _ => ?_
    · exact (shapes_binder h.type).delimited.bind fun _ => (Triple.expect _).bind fun _ =>
        .pure fun _ _ => nofun
    · refine (Triple.separated _ h.pattern).delimited.bind fun patterns => ?_
      refine (Triple.require _ _).given fun _ hpatterns => (Triple.expect _).bind fun _ => ?_
      refine .pure fun _ _ items hitems => ?_
      cases hitems
      simpa using hpatterns
  · exact .unexpected _

theorem shapes_lambda : (lambda deep start).Shapes := by
  refine Triple.advance.bind fun _ => (Triple.sees _).bind fun _ => .ite (fun _ => ?_) fun _ => ?_
  · exact (shaped_caseBlock h).given fun block hblock => .close fun _ _ => hblock
  · refine (Triple.oneUpTo _ (some_param h)).given fun params hparams => ?_
    refine (Triple.expect _).bind fun _ => h.statement.bind fun body => .close fun _ _ => ?_
    exact ⟨hparams.1, fun items hitems => hparams.2 _ hitems items rfl⟩

theorem shapes_fixedPoint : (fixedPoint deep start).Shapes :=
  Triple.advance.bind fun _ => Triple.identifier.bind fun _ => (Triple.expect _).bind fun _ =>
    h.statement.bind fun _ => .close fun _ _ => trivial

theorem shapes_quantified : (quantified deep).Shapes :=
  (Triple.expect _).bind fun _ => (h.expr _).withUsage

theorem shapes_all : (Grammar.all deep start).Shapes := by
  refine Triple.advance.bind fun _ => ?_
  refine (Triple.commaList (shapes_binder h.binderType)).given fun binders hbinders => ?_
  exact (shapes_quantified h).bind fun body => .close fun _ _ => hbinders.1

theorem shapes_any : (Grammar.any deep start).Shapes :=
  Triple.advance.bind fun _ => (shapes_binder h.binderType).bind fun _ =>
    (shapes_quantified h).bind fun _ => .close fun _ _ => trivial

/-! ## Constructs that begin with a keyword -/

theorem shapes_branch (keyword : Keyword) : (branch deep keyword).Shapes :=
  (Triple.expect _).bind fun _ => (Triple.expect _).bind fun _ => h.statement

theorem shapes_condition : (condition deep).Shapes :=
  Triple.advance.bind fun _ => h.term.bind fun _ => (Triple.expect _).bind fun _ =>
    h.statement.bind fun _ => .pure fun _ _ => trivial

theorem shapes_ifElse : (ifElse deep start).Shapes :=
  (shapes_condition h).bind fun _ => (shapes_branch h _).bind fun _ => .close fun _ _ => trivial

theorem shapes_fork : (fork deep start).Shapes := by
  refine (shapes_condition h).bind fun _ => ?_
  refine (Triple.collectWhile (.sees _) (shapes_branch h _)).forget.bind fun elifs => ?_
  exact (shapes_branch h _).bind fun _ => .close fun _ _ => trivial

theorem shapes_withClause : (withClause deep).Shapes := by
  refine Triple.identifier.bind fun _ => (Triple.accept _).bind fun _ =>
    .ite (fun _ => ?_) fun _ => .pure fun _ _ => trivial
  exact (h.expr _).within.bind fun _ => .pure fun _ _ => trivial

theorem shapes_withClauses : (withClauses deep).Shapes :=
  (Triple.expect _).bind fun _ =>
    (Triple.collectThrough (shapes_withClause h) (.sees _)).forget

theorem some_matchCase : Triple Session.Shaped P (matchCase deep) fun c _ => c.patterns ≠ [] := by
  refine (Triple.expect _).bind fun start => ?_
  refine (Triple.oneUpTo _ h.pattern).given fun patterns hpatterns => ?_
  refine (Triple.expect _).bind fun _ => h.statement.bind fun body => ?_
  exact (Triple.accept _).bind fun _ => (Triple.since _).bind fun _ => .pure fun _ _ => hpatterns.1

theorem shapes_matchOn : (matchOn deep start).Shapes := by
  refine Triple.advance.bind fun _ => ?_
  refine (Triple.oneUpTo _ (h.expr _)).within.given fun scrutinees hscrutinees => ?_
  refine (Triple.expect _).bind fun _ => ?_
  refine (Triple.collectWhile (.sees _) (shapes_withClauses h)).forget.bind fun withs => ?_
  refine (Triple.collectWhile (.sees _) (some_matchCase h)).given fun cases hcases => ?_
  refine (Triple.require _ _).given fun _ hsome => .close fun _ _ => ?_
  exact ⟨hscrutinees.1, by simpa using hsome, hcases⟩

theorem shapes_useIn : (useIn deep start).Shapes :=
  Triple.advance.bind fun _ => Triple.identifier.bind fun _ => (Triple.expect _).bind fun _ =>
    h.term.bind fun _ => (Triple.expect _).bind fun _ => h.statement.bind fun _ =>
      .close fun _ _ => trivial

theorem shapes_operandAndBody {term : TermId → TermId → Term TermId PatternId}
    (hterm : ∀ isName a b, (term a b).Shaped isName) : (operandAndBody deep start term).Shapes := by
  refine Triple.advance.bind fun _ => (h.expr _).bind fun first => ?_
  exact (Triple.accept _).bind fun _ => h.statement.bind fun body => .close fun _ _ => hterm _ _ _

theorem shapes_before (min : Level) {term : TermId → Term TermId PatternId}
    (hterm : ∀ isName a, (term a).Shaped isName) : (before deep start min term).Shapes :=
  Triple.advance.bind fun _ => (h.expr min).bind fun _ => .close fun _ _ => hterm _ _

theorem shapes_tilde : (tilde deep start).Shapes := by
  refine Triple.advance.bind fun _ => (h.expr _).within.bind fun scrutinee => ?_
  refine Triple.ask.bind fun s => Triple.ask.bind fun c => .ite (fun _ => ?_) fun _ => ?_
  · exact (shaped_caseBlock h).given fun block hblock => .close fun _ _ => hblock
  · exact .close fun _ _ => trivial

end Productions

end BendSyntax
