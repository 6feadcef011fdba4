import BendSyntax.Proofs.PatternTrees.Reading

/-! Chains of names in types. Names stand next to each other, or an arrow or an `&` stands between
them. Such a chain is read up to where the type ends, which is also in front of the name of the next
field, and what it is read as depends on nothing but the chain. -/

namespace BendSyntax

open Reading Grammar

/-! ## Chains -/

/-- How a name is joined to what stands in front of it: as an argument, behind an arrow or behind an
`&`. -/
inductive Joint where
  | argument
  | arrow
  | product
  deriving Repr, DecidableEq

namespace Joint

def words : Joint → List Word
  | argument => []
  | arrow => [.mark .arrow]
  | product => [.mark .ampersand]

def level : Joint → Level
  | argument => .application
  | arrow => .arrow
  | product => .product

/-- The least level of what stands behind. -/
def next : Joint → Level
  | argument => .suffix
  | arrow => .arrow
  | product => .product

def term : Joint → TermId → TermId → Term TermId PatternId
  | argument => .app
  | arrow => .arrow
  | product => .op2 .product

theorem product_le_level (j : Joint) : Level.product ≤ j.level := by cases j <;> decide

end Joint

/-- A name in a chain that is not the first one. -/
structure TypeLink where
  joint : Joint
  name : Identifier

def TypeLink.words (links : List TypeLink) : List Word :=
  links.flatMap fun l => l.joint.words ++ [l.name.word]

/-- A chain of names. -/
structure TypeChain where
  first : Identifier
  links : List TypeLink

namespace TypeChain

def words (c : TypeChain) : List Word := c.first.word :: TypeLink.words c.links

/-- The text of a chain, with single blanks between its words. -/
def text (c : TypeChain) : String := " ".intercalate (c.words.map (·.text))

end TypeChain

/-- The type that a chain stands for. -/
inductive JoinedType where
  | name (x : String)
  | node (joint : Joint) (lhs rhs : JoinedType)
  deriving Repr, DecidableEq

/-- Whether a term is this type. -/
def Tree.IsJoined (t : Tree) : JoinedType → TermId → Prop
  | .name x, id => t.term? id = some (nameTerm x)
  | .node joint lhs rhs, id =>
      ∃ l r, t.term? id = some (joint.term l r) ∧ t.IsJoined lhs l ∧ t.IsJoined rhs r

theorem Tree.IsJoined.mono {t u : Tree} {g : JoinedType} {id : TermId} (h : t.Extends u)
    (hid : t.IsJoined g id) : u.IsJoined g id := by
  induction g generalizing id with
  | name x => exact h.term? hid
  | node joint lhs rhs ihl ihr =>
      obtain ⟨l, r, hterm, hlhs, hrhs⟩ := hid
      exact ⟨l, r, h.term? hterm, ihl hlhs, ihr hrhs⟩

/-- From the left on, links are joined to a type as long as they bind at a level or more tightly:
`Gathers min g links g' rest` if that takes `g` to `g'` and leaves `rest`. -/
inductive JoinedType.Gathers : Level → JoinedType → List TypeLink → JoinedType → List TypeLink → Prop
  | done {min : Level} {g : JoinedType} {links : List TypeLink}
      (h : ∀ l ∈ links.head?, l.joint.level < min) : Gathers min g links g links
  | more {min : Level} {g rhs g' : JoinedType} {l : TypeLink} {links rest rest' : List TypeLink}
      (hlevel : min ≤ l.joint.level) (hrhs : Gathers l.joint.next (.name l.name.text) links rhs rest)
      (h : Gathers min (.node l.joint g rhs) rest g' rest') : Gathers min g (l :: links) g' rest'

namespace JoinedType.Gathers

variable {min min' : Level} {g a b : JoinedType} {links r r' : List TypeLink}

theorem length_le (h : Gathers min g links a r) : r.length ≤ links.length := by
  induction h with
  | done _ => exact Nat.le_refl _
  | more _ _ _ ihrhs ih => exact Nat.le_succ_of_le (Nat.le_trans ih ihrhs)

/-- There is only one way to join the links of a chain, wherever a type may begin. -/
theorem unique (h : Gathers min g links a r) (h' : Gathers min' g links b r')
    (hmin : min = min' ∨ min ≤ .product ∧ min' ≤ .product) : a = b ∧ r = r' := by
  have hlow {m n : Level} (hlow : m = n ∨ m ≤ .product ∧ n ≤ .product) {j : Joint}
      (hlt : j.level < m) (hle : n ≤ j.level) : False := by
    rcases hlow with rfl | ⟨hm, -⟩
    · exact absurd hle (Nat.not_le.mpr hlt)
    · exact absurd (Nat.lt_of_lt_of_le hlt hm) (Nat.not_lt.mpr j.product_le_level)
  induction h generalizing min' b r' with
  | done hends =>
      cases h' with
      | done _ => exact ⟨rfl, rfl⟩
      | more hlevel _ _ => exact (hlow hmin (hends _ rfl) hlevel).elim
  | more hlevel _ _ ihrhs ih =>
      cases h' with
      | done hends =>
          exact (hlow (hmin.imp Eq.symm And.symm) (hends _ rfl) hlevel).elim
      | more _ hrhs' hmore' =>
          obtain ⟨rfl, rfl⟩ := ihrhs hrhs' (.inl rfl)
          exact ih hmore' hmin

theorem length_words_le (h : Gathers min g links a r) :
    (TypeLink.words r).length ≤ (TypeLink.words links).length := by
  induction h with
  | done _ => exact Nat.le_refl _
  | @more _ _ _ _ l links _ _ _ _ _ ihrhs ih =>
      refine Nat.le_trans ih (Nat.le_trans ihrhs ?_)
      rw [TypeLink.words, TypeLink.words, List.flatMap_cons, List.length_append]
      exact Nat.le_add_left _ _

/-- Where every link binds tightly enough none is left. -/
theorem eq_nil (h : Gathers min g links a r) (hmin : min ≤ .product) : r = [] := by
  induction h with
  | @done min _ links hends =>
      cases links with
      | nil => rfl
      | cons l links =>
          exact absurd (Nat.lt_of_lt_of_le (hends l rfl) hmin) (Nat.not_lt.mpr l.joint.product_le_level)
  | more _ _ _ _ ih => exact ih hmin

end JoinedType.Gathers

/-! ## Where a type ends -/

/-- Tokens in front of which the type of a field ends: the next field, the next case, or the end of
the text. -/
inductive FieldEnd (s : Slot) : List Token → Prop
  | eof : FieldEnd s []
  | case {t : Token} {ts : List Token} (h : t.kind = .word .case) : FieldEnd s (t :: ts)
  | field {t u : Token} {ts : List Token} (hslot : s.fieldHeads = true) (ht : t.kind = .ident)
      (hu : u.kind = .mark .colon) : FieldEnd s (t :: u :: ts)

/-- A slot in which chains are read as far as they go. -/
structure Slot.TakesChains (s : Slot) : Prop where
  caseHeads : s.caseHeads = false
  noJuxtapose : s.noJuxtapose = false

section Cursors

variable {c : Cursor} {s : Slot} {more : List Token} {l : TypeLink} {links : List TypeLink}

theorem TypeLink.words_cons (l : TypeLink) (links : List TypeLink) :
    words (l :: links) = l.joint.words ++ l.name.word :: words links := by
  simp [words]

namespace Cursor.Faces

/-- Behind a name of a type there is no colon, and nothing that touches the name belongs to it. -/
theorem kind_behind_name (h : c.Faces (TypeLink.words links) more) (hend : FieldEnd s more) :
    c.kind ∈ [.ident, .mark .arrow, .mark .ampersand, .word .case, .eof] := by
  cases links with
  | nil =>
      cases hend with
      | eof => simp [h.kind_nil]
      | case ht => simp [h.kind_more, ht]
      | field _ ht _ => simp [h.kind_more, ht]
  | cons l links =>
      rw [TypeLink.words_cons] at h
      cases hjoint : l.joint with
      | argument =>
          rw [hjoint] at h
          simp [show c.kind = .ident from h.kind]
      | arrow =>
          rw [hjoint] at h
          simp [show c.kind = .mark .arrow from h.kind]
      | product =>
          rw [hjoint] at h
          simp [show c.kind = .mark .ampersand from h.kind]

/-- A type goes on in front of a link. -/
theorem not_atHead_link (h : c.Faces (TypeLink.words (l :: links)) more) (hend : FieldEnd s more)
    (hslot : s.TakesChains) : c.atHead s = false := by
  rw [TypeLink.words_cons] at h
  have hcolon : c.kind = .ident → c.kindAt 1 ≠ .mark .colon := by
    intro hkind
    cases hjoint : l.joint with
    | argument =>
        rw [hjoint] at h
        rw [h.kindAt_succ 0]
        have hbehind := kind_behind_name h.advance hend
        change c.advance.kind ≠ _
        intro hk
        simp [hk] at hbehind
    | arrow =>
        rw [hjoint] at h
        exact absurd (h.kind.symm.trans hkind) nofun
    | product =>
        rw [hjoint] at h
        exact absurd (h.kind.symm.trans hkind) nofun
  by_cases hkind : c.kind = .ident
  · simp [atHead, atCaseHead, atFieldHead, hslot.caseHeads, hcolon hkind]
  · simp [atHead, atCaseHead, atFieldHead, hslot.caseHeads, hkind]

/-- Where the type of a field ends nothing is joined to it. -/
theorem settled_fieldEnd (h : c.Faces [] more) (hend : FieldEnd s more) (min : Level) :
    c.Settled s min := by
  cases hend with
  | eof =>
      have hkind := h.kind_nil
      exact .inr ⟨by simp [operator?, hkind, Infix.ofKind?],
        fun _ => by simp [juxtaposes, startsArgument, hkind, opensArgument]⟩
  | case ht =>
      have hkind := h.kind_more.trans ht
      refine .inr ⟨by simp [operator?, hkind, Infix.ofKind?], fun _ => ?_⟩
      simp [juxtaposes, startsArgument, hkind, opensArgument, Keyword.isOperand]
  | @field t u ts hslot ht hu =>
      have hkind := h.kind_more.trans ht
      have hcolon : c.kindAt 1 = .mark .colon := by
        rw [kindAt, tokenAt, h.rest_nil]
        exact hu
      exact .inl (by simp [atHead, atFieldHead, hslot, hkind, hcolon])

end Cursor.Faces

end Cursors

/-! ## Reading chains -/

/-- A session in which a part of a chain has been read as a type, in front of the rest. -/
structure Session.Joined (s : Session) (g : JoinedType) (id : TermId) (links : List TypeLink)
    (more : List Token) : Prop where
  joined : s.tree.IsJoined g id
  front : s.InFront (TypeLink.words links) more

section Reading

variable {deep : Deeper} {min : Level} {start : Span} {setting : Setting} {s t : Session}
  {g : JoinedType} {lhs id : TermId} {l : TypeLink} {links : List TypeLink} {more : List Token}

/-- A name is read on its own. -/
theorem run_leading_first {x : Identifier} (deep : Deeper) (hend : FieldEnd setting.slot more)
    (hs : s.InFront (x.word :: TypeLink.words links) more) :
    ∃ id t, (leading deep).run setting s = .ok id t ∧ t.Joined (.name x.text) id links more := by
  have hkind : s.cursor.kind = .ident := hs.kind
  obtain ⟨id, tree, hleading, hterm, -⟩ := run_leading_ident deep setting hkind
  have hnext : Session.InFront { s.next with tree } (TypeLink.words links) more := hs.next.setTree tree
  have hbehind := hnext.faces.kind_behind_name hend
  have hdone : (suffixRound deep s.cursor.span id).run setting { s.next with tree } =
      .ok (.done id) { s.next with tree } := by
    simp only [suffixRound, Reading.cursor, Reading.slot, asks, run_bind, Outcome.andThen_ok]
    split
    · rfl
    · simp only [List.mem_cons, List.not_mem_nil, or_false] at hbehind
      rcases hbehind with h | h | h | h | h <;> rw [h] <;> rfl
  have hsuffixes : (suffixes deep s.cursor.span id).run setting { s.next with tree } =
      .ok id { s.next with tree } := runLoop_done hdone
  have hlexeme : s.cursor.lexeme = x.text := hs.lexeme
  exact ⟨id, { s.next with tree }, hleading.trans hsuffixes, hlexeme ▸ hterm, hnext⟩

/-- An operator of a type is taken with what stands behind it. -/
theorem climbRound_typeOperator {op : Infix} (deep : Deeper) (start : Span) (lhs : TermId)
    (hkind : Infix.ofKind? s.cursor.kind = some op) (hform : op.form = .arrow ∨ op.form = .op .product)
    (hhead : s.cursor.atHead setting.slot = false)
    (hjuxtaposes : s.cursor.juxtaposes setting.slot = false) (hlevel : min ≤ op.level) :
    (climbRound deep min start lhs).run setting s =
      ((deep.expr op.next).run setting s.next).andThen fun rhs =>
        (Round.more <$> close start (infixTerm op.form lhs rhs)).run setting := by
  have hoperator : operator? s.cursor setting.slot min = some op := by
    simp only [operator?, hkind]
    rw [if_neg]
    rcases hform with h | h <;> simp [h, Nat.not_lt.mpr hlevel]
  have hright : rightOperand deep op = deep.expr op.next := by
    unfold rightOperand
    rcases hform with h | h <;> simp only [h]
  have hround : (operatorRound deep min start lhs).run setting s =
      ((deep.expr op.next).run setting s.next).andThen fun rhs =>
        (Round.more <$> close start (infixTerm op.form lhs rhs)).run setting := by
    rw [run_operatorRound, hoperator]
    change ((rightOperand deep op).run setting s.next).andThen _ = _
    rw [hright]
  rw [run_climbRound, if_neg (by simp [hhead])]
  split
  · rw [run_bind, run_juxtaposed?_of_not hhead hjuxtaposes]
    exact hround
  · exact hround

/-- A link that binds tightly enough is taken with what stands behind it, which is read in the same
slot. -/
theorem climbRound_link (deep : Deeper) (start : Span) (lhs : TermId) (hend : FieldEnd setting.slot more)
    (hslot : setting.slot.TakesChains) (hs : s.InFront (TypeLink.words (l :: links)) more)
    (hlevel : min ≤ l.joint.level) :
    ∃ u, u.InFront (l.name.word :: TypeLink.words links) more ∧ u.tree = s.tree ∧
      u.cursor.remaining ≤ s.cursor.remaining ∧
      (climbRound deep min start lhs).run setting s =
        ((deep.expr l.joint.next).run setting u).andThen fun rhs =>
          (Round.more <$> close start (l.joint.term lhs rhs)).run setting := by
  have hhead := hs.faces.not_atHead_link hend hslot
  rw [TypeLink.words_cons] at hs
  obtain ⟨joint, name⟩ := l
  cases joint with
  | argument =>
      change s.InFront (name.word :: TypeLink.words links) more at hs
      change min ≤ Level.application at hlevel
      have hkind : s.cursor.kind = .ident := hs.kind
      have hstarts : s.cursor.startsArgument setting.slot = true := by
        simp [Cursor.startsArgument, hhead, hkind, Cursor.opensArgument]
      refine ⟨s, hs, rfl, Nat.le_refl _, ?_⟩
      rw [run_climbRound, if_neg (by simp [hhead]), if_pos hlevel, run_bind, run_juxtaposed?]
      simp only [hslot.noJuxtapose, Bool.false_eq_true, if_false, hkind, hstarts, if_true]
      rw [if_neg (by simp), if_neg (by simp)]
      change (((deep.expr .suffix).run setting s).andThen _).andThen _ =
        ((deep.expr .suffix).run setting s).andThen _
      cases (deep.expr .suffix).run setting s <;> rfl
  | arrow =>
      change s.InFront (.mark .arrow :: name.word :: TypeLink.words links) more at hs
      have hkind : s.cursor.kind = .mark .arrow := hs.kind
      refine ⟨s.next, hs.next, rfl, Nat.le_of_lt (hs.remaining_lt hs.next (Nat.lt_succ_self _)), ?_⟩
      have hop : Infix.ofKind? s.cursor.kind = some ⟨.arrow, .arrow, .right⟩ := by rw [hkind]; rfl
      exact climbRound_typeOperator deep start lhs hop (.inl rfl) hhead
        (by simp [Cursor.juxtaposes, Cursor.startsArgument, hkind, Cursor.opensArgument])
        hlevel
  | product =>
      change s.InFront (.mark .ampersand :: name.word :: TypeLink.words links) more at hs
      have hkind : s.cursor.kind = .mark .ampersand := hs.kind
      have htight : s.cursor.tightAt 1 = false := by
        rw [Cursor.tightAt, Token.isTight, hs.faces.tokenAt_one.spaced]
        rfl
      refine ⟨s.next, hs.next, rfl, Nat.le_of_lt (hs.remaining_lt hs.next (Nat.lt_succ_self _)), ?_⟩
      have hop : Infix.ofKind? s.cursor.kind = some (.rightOp .product .product) := by rw [hkind]; rfl
      exact climbRound_typeOperator deep start lhs hop (.inr rfl) hhead
        (by simp [Cursor.juxtaposes, Cursor.startsArgument, hkind, Cursor.opensArgument, htight]) hlevel

/-- An operator that binds too loosely is not taken. -/
theorem Cursor.operator?_of_lt {c : Cursor} {op : Infix} (hkind : Infix.ofKind? c.kind = some op)
    (h : op.level < min) (slot : Slot) : operator? c slot min = none := by
  simp only [operator?, hkind]
  exact if_pos (by simp [h])

/-- Where no link binds tightly enough, the type ends. -/
theorem climbRound_ends (deep : Deeper) (start : Span) (lhs : TermId) (hend : FieldEnd setting.slot more)
    (hs : s.InFront (TypeLink.words links) more)
    (hends : ∀ l ∈ links.head?, l.joint.level < min) :
    (climbRound deep min start lhs).run setting s = .ok (.done lhs) s := by
  cases links with
  | nil => exact (hs.faces.settled_fieldEnd hend min).run_climbRound
  | cons l links =>
      have hlevel : l.joint.level < min := hends l rfl
      refine Cursor.Settled.run_climbRound (.inr ?_)
      rw [TypeLink.words_cons] at hs
      obtain ⟨joint, name⟩ := l
      cases joint with
      | argument =>
          have hkind : s.cursor.kind = .ident := hs.kind
          exact ⟨by simp [operator?, hkind, Infix.ofKind?],
            fun hle => absurd hlevel (Nat.not_lt.mpr hle)⟩
      | arrow =>
          have hkind : s.cursor.kind = .mark .arrow := hs.kind
          have hop : Infix.ofKind? s.cursor.kind = some ⟨.arrow, .arrow, .right⟩ := by rw [hkind]; rfl
          exact ⟨Cursor.operator?_of_lt hop hlevel _,
            fun _ => by simp [Cursor.juxtaposes, Cursor.startsArgument, hkind, Cursor.opensArgument]⟩
      | product =>
          have hkind : s.cursor.kind = .mark .ampersand := hs.kind
          have htight : s.cursor.tightAt 1 = false := by
            rw [Cursor.tightAt, Token.isTight, hs.faces.tokenAt_one.spaced]
            rfl
          have hop : Infix.ofKind? s.cursor.kind = some (.rightOp .product .product) := by
            rw [hkind]
            rfl
          exact ⟨Cursor.operator?_of_lt hop hlevel _,
            fun _ => by
              simp [Cursor.juxtaposes, Cursor.startsArgument, hkind, Cursor.opensArgument, htight]⟩

/-- A reading joins the links of a chain as far as they bind tightly enough. -/
def Outcome.JoinsChain (o : Outcome TermId) (min : Level) (g : JoinedType) (links : List TypeLink)
    (more : List Token) : Prop :=
  ∃ g' id t rest, o = .ok id t ∧ t.Joined g' id rest more ∧ g.Gathers min links g' rest

/-- Chains with fewer than `n` links are read in this way. -/
def Deeper.JoinsChains (deep : Deeper) (n : Nat) : Prop :=
  ∀ (min : Level) (setting : Setting) (s : Session) (c : TypeChain) (more : List Token),
    FieldEnd setting.slot more → setting.slot.TakesChains → c.links.length < n →
    s.InFront c.words more →
    ((deep.expr min).run setting s).JoinsChain min (.name c.first.text) c.links more

/-- The rounds go on until a link binds too loosely. The induction is on the number of links in front
of the cursor, of which a round takes at least one. -/
theorem runLoop_typeLinks {n : Nat} (hdeep : deep.JoinsChains n) (hend : FieldEnd setting.slot more)
    (hslot : setting.slot.TakesChains) (hlength : links.length ≤ n) (hs : s.Joined g lhs links more) :
    (runLoop (climbRound deep min start) setting lhs s).JoinsChain min g links more := by
  induction hm : links.length using Nat.strongRecOn generalizing links g lhs s with
  | _ m ih =>
      by_cases hends : ∀ l ∈ links.head?, l.joint.level < min
      · exact ⟨g, lhs, s, links, runLoop_done (climbRound_ends deep start lhs hend hs.front hends),
          hs, .done hends⟩
      · cases links with
        | nil => exact absurd (by simp) hends
        | cons l links =>
            have hlevel : min ≤ l.joint.level := by simpa using hends
            obtain ⟨u, hu, htree, hremaining, hround⟩ :=
              climbRound_link deep start lhs hend hslot hs.front hlevel
            obtain ⟨rhs, id, v, rest, hread, hv, hrhs⟩ :=
              hdeep l.joint.next setting u ⟨l.name, links⟩ more hend hslot hlength hu
            let node : TermNode :=
              ⟨l.joint.term lhs id, start.hull v.cursor.last, setting.slot.usage⟩
            have hmore : (climbRound deep min start lhs).run setting s =
                .ok (.more (v.tree.addTerm node).1) { v with tree := (v.tree.addTerm node).2 } := by
              rw [hround, hread]
              rfl
            have hadded : v.tree.Extends (v.tree.addTerm node).2 := .addTerm _ _
            have hkept : s.tree.Extends v.tree := htree ▸ (onward_of_ok hread).tree
            have hjoined : Session.Joined { v with tree := (v.tree.addTerm node).2 }
                (.node l.joint g rhs) (v.tree.addTerm node).1 rest more :=
              ⟨⟨lhs, id, Tree.term?_addTerm _ _, hs.joined.mono (hkept.trans hadded),
                hv.joined.mono hadded⟩, hv.front.setTree _⟩
            have hfewer : rest.length ≤ links.length := hrhs.length_le
            simp only [List.length_cons] at hlength hm
            have hlt : v.cursor.remaining < s.cursor.remaining := by
              refine Nat.lt_of_lt_of_le ?_ hremaining
              rw [hu.faces.remaining, hv.front.faces.remaining]
              exact Nat.succ_lt_succ (Nat.mul_lt_mul_of_pos_left
                (Nat.add_lt_add_right (Nat.lt_succ_of_le hrhs.length_words_le) _) Nat.two_pos)
            rw [runLoop_more hmore hlt]
            obtain ⟨g', id', t, rest', hloop, ht, hgathers⟩ :=
              ih rest.length (by omega) (by omega) hjoined rfl
            exact ⟨g', id', t, rest', hloop, ht, .more hlevel hrhs hgathers⟩

theorem joinsChains_nested (d : Nat) : (nested d).JoinsChains d := by
  induction d with
  | zero => exact fun _ _ _ _ _ _ _ hlength => absurd hlength (Nat.not_lt_zero _)
  | succ d ih =>
      intro min setting s c more hend hslot hlength hs
      obtain ⟨id, t, hleading, ht⟩ := run_leading_first (nested d) hend hs
      have hrun : ((nested (d + 1)).expr min).run setting s =
          runLoop (climbRound (nested d) min s.cursor.span) setting id t := by
        change ((leading (nested d)).run setting s).andThen _ = _
        rw [hleading]
        rfl
      rw [hrun]
      exact runLoop_typeLinks ih hend hslot (Nat.le_of_lt_succ hlength) ht

/-- Where a type may begin, a chain is read whole, if the depth leaves room for its links. -/
theorem run_expr_chain (setting : Setting) {n : Nat} {c : TypeChain} (hdeep : deep.JoinsChains n) (hmin : min ≤ .product)
    (hend : FieldEnd setting.slot more) (hslot : setting.slot.TakesChains) (hlength : c.links.length < n)
    (hs : s.InFront c.words more) :
    ∃ g id t, (deep.expr min).run setting s = .ok id t ∧ t.InFront [] more ∧ t.tree.IsJoined g id ∧
      JoinedType.Gathers min (.name c.first.text) c.links g [] := by
  obtain ⟨g, id, t, rest, hread, ht, hg⟩ := hdeep min setting s c more hend hslot hlength hs
  obtain rfl := hg.eq_nil hmin
  exact ⟨g, id, t, hread, ht.front, ht.joined, hg⟩

/-- A chain does not begin a binding. -/
theorem run_statement_typeChain {c : TypeChain} (deep : Deeper) (hend : FieldEnd setting.slot more)
    (hs : s.InFront c.words more) :
    (statement deep).run setting s = (deep.expr .assignment).run setting s := by
  have hbehind := hs.next.faces.kind_behind_name hend
  have hnext : s.cursor.kindAt 1 = s.next.cursor.kind := hs.faces.kindAt_succ 0
  rw [← hnext] at hbehind
  simp only [statement, Reading.cursor, asks, run_bind, Outcome.andThen_ok]
  split
  · rename_i hequals
    simp [hequals] at hbehind
  · rename_i hcolon
    simp [hcolon] at hbehind
  · rfl

end Reading

/-! ## Texts -/

namespace TypeChain

theorem solid_of_mem_words {c : TypeChain} {w : Word} (h : w ∈ c.words) : w.Solid := by
  simp only [words, TypeLink.words, List.mem_cons, List.mem_flatMap, List.mem_append,
    List.not_mem_nil, or_false] at h
  rcases h with rfl | ⟨l, -, h | rfl⟩
  · exact c.first.solid
  · cases hjoint : l.joint with
    | argument => simp [hjoint, Joint.words] at h
    | arrow =>
        rw [hjoint, Joint.words, List.mem_singleton] at h
        exact h ▸ Word.solid_symbol nofun
    | product =>
        rw [hjoint, Joint.words, List.mem_singleton] at h
        exact h ▸ Word.solid_symbol nofun
  · exact l.name.solid

/-- A chain that is a text of its own is read whole, where the depth limit leaves room for its links. -/
theorem ofText_text (c : TypeChain) (config : Config) (hdepth : c.links.length + 2 ≤ config.maxDepth) :
    ∃ g e, Expression.ofText c.text config = .ok e ∧ e.tree.IsJoined g e.root ∧
      JoinedType.Gathers .assignment (.name c.first.text) c.links g [] := by
  obtain ⟨d, hd⟩ : ∃ d, config.maxDepth = d + 1 := ⟨config.maxDepth - 1, by omega⟩
  obtain ⟨hbody, hdiagnostics⟩ : List.Forall₂ Word.Becomes c.words (Lexing.ofText c.text).tokens.body ∧
      (Lexing.ofText c.text).diagnostics = [] :=
    Lexing.ofText_spaced fun w (hw : w ∈ c.words) => c.solid_of_mem_words hw
  have hs : (initial (Lexing.ofText c.text)).InFront c.words [] :=
    ⟨⟨⟨_, hbody, (List.append_nil _).symm⟩, Lexing.eof_kind_onward _ _ _, rfl⟩,
      by simp [initial, hdiagnostics]⟩
  obtain ⟨g, id, t, hread, ht, hjoined, hg⟩ := run_expr_chain (setting config true)
    (joinsChains_nested d) (show Level.assignment ≤ .product by decide) .eof ⟨rfl, rfl⟩ (by omega) hs
  have hstatement : (nested config.maxDepth).statement.run (setting config true)
      (initial (Lexing.ofText c.text)) = .ok id t := by
    rw [hd, ← hread]
    exact run_statement_typeChain (nested d) .eof hs
  exact ⟨g, _, Expression.ofText_of_statement hstatement ht.faces.kind_nil ht.clean, hjoined, hg⟩

end TypeChain

end BendSyntax
