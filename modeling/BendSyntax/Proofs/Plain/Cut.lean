import BendSyntax.Proofs.Plain.Inside
import Mathlib.Tactic.SplitIfs

/-! Texts that are cut off behind an expression. What has been read up to the cut is read again of
what is in front of it. Type arguments that were declined because of what stands behind the cut
still are: either they are not closed in front of it, or an operand follows them there. -/

namespace BendSyntax

open Pieces BendSyntax.Parser
open Reading (Round)

/-- Pieces that close the brackets that are opened in them, in front of `t`, with no operand at the
front of `t` if they end with a `>`. -/
structure Pieces.Settled (u t : List Piece) : Prop where
  walk : walk u 0 = some 0
  closed : Closed u t

namespace Pieces

variable {u v t : List Piece}

theorem Settled.of_passes (h : Settled u t) (hpasses : Passes u v 0 0) : Settled v t := by
  refine ⟨hpasses.walk_eq h.walk, ?_⟩
  obtain ⟨us, rfl, -⟩ := hpasses
  exact h.closed.of_append

/-- What stands between two places in front of the cut does so, too. -/
theorem exists_of_suffix {ps q : List Piece} (h : ps <:+ u ++ t) (hq : q ++ t <:+ ps) :
    ∃ v, ps = v ++ t ∧ v <:+ u ∧ q <:+ v := by
  obtain ⟨us, rfl⟩ := hq
  obtain ⟨vs, hvs⟩ := h
  refine ⟨us ++ q, (List.append_assoc _ _ _).symm, ⟨vs, ?_⟩, List.suffix_append us q⟩
  exact List.append_cancel_right (by simpa using hvs)

end Pieces

/-! ## Texts that go on -/

/-- Something stands next, and it is no `<`. -/
structure Pieces.Barred (ps : List Piece) : Prop where
  ne_nil : ps ≠ []
  kind : kind ps ≠ .mark .less

namespace Parser

variable {α β : Type} {r : Parser α} {u v t : List Piece}

theorem Blind.run_append (h : r.Blind u t) {a : α} (hr : r.run u = some (a, v)) :
    r.run (u ++ t) = some (a, v ++ t) := by
  rw [h, hr]
  rfl

theorem run_accept {k : TokenKind} (hwhole : isWhole k = true) (ps : List Piece) :
    (accept k).run ps =
      if Pieces.kind ps = k then some (true, ps.tail) else some (false, ps) := by
  simp only [accept, sees, looks, run_bind, run_asks, Option.bind_some, decide_eq_true_eq]
  split
  · rename_i hkind
    simp only [run_bind, run_advance hkind hwhole, Option.bind_some, run_pure]
  · rfl

/-- A round over an item ends behind a comma, or behind the item if there is none. -/
theorem run_commaRound_eq_some {acc : List α} {ps qs : List Piece} {round : Round (List α)} :
    (commaRound r acc).run ps = some (round, qs) ↔ ∃ a rs, r.run ps = some (a, rs) ∧
      ((Pieces.kind rs = .mark .comma ∧ round = .more (acc ++ [a]) ∧ qs = rs.tail) ∨
        (Pieces.kind rs ≠ .mark .comma ∧ round = .done (acc ++ [a]) ∧ qs = rs)) := by
  simp only [commaRound, run_bind_eq_some, run_accept (k := .mark .comma) rfl]
  refine exists_congr fun a => exists_congr fun rs => and_congr_right fun _ => ?_
  split
  · simp_all [eq_comm]
  · simp_all [eq_comm]

end Parser

namespace Plain

theorem blind_identifier {u t : List Piece} (h : Pieces.kind u = .ident) :
    identifier.Blind u t := by
  obtain ⟨p, hu, -⟩ := exists_of_kind h rfl
  refine .asks (by rw [hu]; rfl) <| .bind (.asks ?_ ?_) fun _ _ _ => .pure _
  · rw [kind_append (ne_nil_of_kind h rfl) (by simp [h])]
  · exact .ite (fun _ => .advance_whole h rfl) fun _ => .fail

theorem kind_of_identifier {ps qs : List Piece} {name : String}
    (h : identifier.run ps = some (name, qs)) : Pieces.kind ps = .ident ∧ qs = ps.tail := by
  simp only [identifier, expect, sees, looks, run_bind, run_asks, Option.bind_some,
    decide_eq_true_eq] at h
  split at h
  · rename_i hkind
    rw [run_advance hkind rfl] at h
    cases h
    exact ⟨hkind, rfl⟩
  · cases h

/-- At a `<` behind a bare name it is up to the type arguments. -/
theorem run_suffixRound_less {deep : Level → Parser Part} {head : Part} {ps : List Piece}
    (htight : tight ps = true) (hless : Pieces.kind ps = .mark .less) (hbare : head.bare = true) :
    (suffixRound deep head).run ps = match (genericArgs deep).run ps with
      | some (args, qs) => some (.more (generic head args), qs)
      | none => some (.done head, ps) := by
  rw [suffixRound, looks, run_asks_bind, htight, if_neg (by simp), Parser.kind, run_asks_bind, hless]
  dsimp only
  rw [if_pos hbare, run_bind]
  simp only [attempt]
  cases (genericArgs deep).run ps <;> rfl

/-- An argument begins here, and no call or brace. -/
structure Applies (ps : List Piece) (func : Part) : Prop where
  call : ¬(decide (Pieces.kind ps = .mark .leftParen) && !tight ps && func.bare) = true
  brace : ¬decide (Pieces.kind ps = .mark .leftBrace) = true
  opens : Cursor.opensArgument (Pieces.kind ps) = true

theorem run_juxtaposed?_of_applies {deep : Level → Parser Part} {func : Part} {ps : List Piece}
    (h : Applies ps func) : (juxtaposed? deep func).run ps =
      (do return some (part (.app func.dump (← deep .suffix).dump)) : Parser (Option Part)).run ps := by
  rw [juxtaposed?, looks, run_asks_bind, if_neg h.call, sees, looks, run_asks_bind, if_neg h.brace,
    looks, run_asks_bind, if_pos h.opens]

theorem run_juxtaposed?_of_angle {deep : Level → Parser Part} {func : Part} {ps : List Piece}
    (h : Pieces.kind ps = .mark .greater ∨ Pieces.kind ps = .mark .shiftRight) :
    (juxtaposed? deep func).run ps = some (none, ps) := by
  rcases h with h | h <;> simp [juxtaposed?, looks, sees, run_bind, h, Cursor.opensArgument]

theorem arg_of_juxtaposed? {deep : Level → Parser Part} {func : Part} {ps qs : List Piece}
    {found : Option Part} (happlies : Applies ps func)
    (h : (juxtaposed? deep func).run ps = some (found, qs)) :
    found.isSome ∧ ∃ arg, (deep .suffix).run ps = some (arg, qs) := by
  rw [run_juxtaposed?_of_applies happlies] at h
  obtain ⟨arg, rs, harg, hpure⟩ := run_bind_eq_some.mp h
  cases hpure
  exact ⟨rfl, arg, harg⟩

theorem rhs_of_operatorRound {deep : Level → Parser Part} {lhs : Part} {min : Level} {op : Infix}
    {ps qs rs : List Piece} {round : Round Part} (hop : operator? (Pieces.kind ps) min = some op)
    (hadvance : advance.run ps = some ((), qs))
    (h : (operatorRound deep min lhs).run ps = some (round, rs)) :
    ∃ rhs, (deep op.next).run qs = some (rhs, rs) := by
  rw [operatorRound, Parser.kind, run_asks_bind, hop, run_bind, hadvance] at h
  obtain ⟨rhs, us, hrhs, hpure⟩ := run_bind_eq_some.mp h
  cases hpure
  exact ⟨rhs, hrhs⟩

/-- In front of half of a `>>` no operator is seen that binds as tightly as a sum. -/
theorem operator?_angle {k : TokenKind} {min : Level} (hmin : Level.additive ≤ min)
    (hk : k = .mark .greater ∨ k = .mark .shiftRight) : operator? k min = none := by
  cases hop : operator? k min with
  | none => rfl
  | some op =>
      obtain ⟨hbinding, hle⟩ := infix_of_operator? hop
      have hle := Nat.le_trans hmin hle
      rcases hk with rfl | rfl <;> cases hbinding <;> exact absurd hle (by decide)

/-- In front of a `<` an operand of a sum ends. -/
theorem run_climbRound_less {deep : Level → Parser Part} {head : Part} {min : Level}
    {ps : List Piece} (hmin : Level.additive ≤ min) (hkind : Pieces.kind ps = .mark .less) :
    (climbRound deep min head).run ps = some (.done head, ps) := by
  have hoperator : (operatorRound deep min head).run ps = some (.done head, ps) := by
    have hless : operator? (.mark .less) min = none := by
      have hlt : Level.comparison < min := Nat.lt_of_lt_of_le (by decide) hmin
      exact if_pos hlt
    rw [operatorRound, Parser.kind, run_asks_bind, hkind, hless]
    rfl
  have hjuxtaposed : (juxtaposed? deep head).run ps = some (none, ps) := by
    simp [juxtaposed?, looks, sees, run_bind, hkind, Cursor.opensArgument]
  unfold climbRound
  split
  · rw [run_bind, hjuxtaposed]
    exact hoperator
  · exact hoperator

theorem level_le_next (op : Infix) : op.level ≤ op.next := by
  unfold Infix.next
  split
  · exact Nat.le_succ _
  · exact Nat.le_refl _

section Extends

variable {deep : Level → Parser Part} {head : Part} {u v t : List Piece}
  (hkeeps : ∀ min ps n, (deep min).Keeps ps n n)
  (hblind : ∀ min v n, walk v (n + 1) = some 0 → (deep min).Blind v t)
  (hext : ∀ min u a v, Level.additive ≤ min → walk u 0 = some 0 →
    (deep min).run u = some (a, v) → Barred v → (deep min).run (u ++ t) = some (a, v ++ t))

section
include hkeeps hblind

/-- Only a constructor may have braces behind the cut. -/
theorem blind_operand_of_ne (hkind : Pieces.kind u ≠ .mark .atSign) (hne : u ≠ [])
    (hu : walk u 0 = some 0) : (operand deep).Blind u t := by
  rcases kind_append_or (t := t) hne with hsame | ⟨-, -, hgreater, hshift⟩
  · refine .asks hsame ?_
    split
    · exact (blind_identifier ‹_›).bind fun _ _ _ => .pure _
    · exact .behind ‹_› rfl (.pure _)
    · exact absurd ‹_› hkind
    · exact blind_parentheses hkeeps hblind ‹_› hu
    · exact blind_listTerm hkeeps hblind ‹_› hu
    · exact .asks (atRefl_append hne hu) <| .ite (fun hrefl => blind_refl hrefl) fun _ => .fail
    · exact .ite (fun hliteral => blind_literal hliteral) fun _ => .fail
  · have hfail {ps : List Piece} (h : Pieces.kind ps = .mark .greater ∨ Pieces.kind ps = .mark .shiftRight) :
        (operand deep).run ps = none := by
      rcases h with h | h <;>
        simp only [operand, Parser.kind, run_bind, run_asks, Option.bind_some, h, Grammar.isLiteral,
          Bool.false_eq_true, if_false, run_fail]
    unfold Blind
    rw [hfail (.inl hgreater), hfail (.inr hshift)]
    rfl

theorem constructor_append {a : Part} (hkind : Pieces.kind u = .mark .atSign) (hu : walk u 0 = some 0)
    (h : (constructor deep).run u = some (a, v)) (hv : v ≠ []) :
    (constructor deep).run (u ++ t) = some (a, v ++ t) := by
  have hu' := walk_tail hkind rfl hu rfl
  obtain ⟨_, _, hadvance, h⟩ := run_bind_eq_some.mp h
  rw [run_advance hkind rfl] at hadvance
  cases hadvance
  obtain ⟨name, w, hname, h⟩ := run_bind_eq_some.mp h
  have hw : w ≠ [] := by
    rintro rfl
    refine hv (List.suffix_nil.mp ?_)
    exact Parser.suffix _ h
  obtain ⟨hident, rfl⟩ := kind_of_identifier hname
  have hbrace : decide (Pieces.kind (u.tail.tail ++ t) = .mark .leftBrace) =
      decide (Pieces.kind u.tail.tail = .mark .leftBrace) := by
    rcases kind_append_or (t := t) hw with h | ⟨-, -, h, h'⟩
    · rw [h]
    · rw [h, h']
      rfl
  rw [constructor, run_bind, (Blind.advance_whole hkind rfl).run_append (run_advance hkind rfl)]
  simp only [Option.bind_some]
  rw [run_bind, (blind_identifier hident).run_append hname]
  simp only [Option.bind_some]
  refine Blind.run_append (.asks hbrace ?_) h
  have hw' := walk_tail hident rfl hu' rfl
  exact .ite (fun hbrace => .bind (blind_implicitArgs hkeeps hblind (of_decide_eq_true hbrace) hw')
    fun _ _ _ => .pure _) fun _ => .pure _

theorem operand_append {a : Part} (hu : walk u 0 = some 0) (h : (operand deep).run u = some (a, v))
    (hv : v ≠ []) : (operand deep).run (u ++ t) = some (a, v ++ t) := by
  have hne : u ≠ [] := by
    rintro rfl
    exact hv (List.suffix_nil.mp (Parser.suffix _ h))
  by_cases hkind : Pieces.kind u = .mark .atSign
  · have hkind' : Pieces.kind (u ++ t) = .mark .atSign := by
      rw [kind_append hne (by simp [hkind]), hkind]
    have hrun {ps : List Piece} (hps : Pieces.kind ps = .mark .atSign) :
        (operand deep).run ps = (constructor deep).run ps := by
      simp only [operand, Parser.kind, run_bind, run_asks, Option.bind_some, hps]
    rw [hrun hkind] at h
    rw [hrun hkind']
    exact constructor_append hkeeps hblind hkind hu h hv
  · exact (blind_operand_of_ne hkeeps hblind hkind hne hu).run_append h

end

include hkeeps hext

/-- Items end in front of a comma, or in front of what ends the list. -/
theorem commaList_append {min : Level} {acc l : List String} (hmin : Level.additive ≤ min)
    (hu : walk u 0 = some 0)
    (h : (loop (commaRound ((·.dump) <$> deep min)) acc).run u = some (l, v)) (hv : Barred v) :
    (loop (commaRound ((·.dump) <$> deep min)) acc).run (u ++ t) = some (l, v ++ t) := by
  have hitem {u w : List Piece} {a : String} (hu : walk u 0 = some 0)
      (ha : ((·.dump) <$> deep min).run u = some (a, w)) (hw : Barred w) :
      ((·.dump) <$> deep min).run (u ++ t) = some (a, w ++ t) := by
    obtain ⟨b, x, hb, hpure⟩ := run_bind_eq_some.mp ha
    cases hpure
    exact run_bind_eq_some.mpr ⟨b, w ++ t, hext min u b w hmin hu hb hw, rfl⟩
  have hkind {w : List Piece} (hw : Barred w) (hcomma : Pieces.kind w ≠ .mark .comma) :
      Pieces.kind (w ++ t) ≠ .mark .comma := by
    rcases kind_append_or (t := t) hw.ne_nil with h | ⟨-, -, -, h⟩
    · rwa [h]
    · simp [h]
  change runLoop (commaRound ((·.dump) <$> deep min)) acc u = some (l, v) at h
  fun_induction runLoop (commaRound ((·.dump) <$> deep min)) acc u with
  | case1 acc u b w hstep =>
      cases h
      obtain ⟨a, x, ha, hround⟩ := run_commaRound_eq_some.mp hstep
      obtain ⟨-, hmore, -⟩ | ⟨hcomma, hdone, rfl⟩ := hround
      · cases hmore
      · refine run_loop_done (run_commaRound_eq_some.mpr ⟨a, v ++ t, hitem hu ha hv, .inr ?_⟩)
        exact ⟨hkind hv hcomma, hdone, rfl⟩
  | case2 acc u b w hstep hlt ih =>
      have hw := (Keeps.commaRound (fun ps => (hkeeps min ps 0).map _) acc u _ _ hstep).1.walk_eq hu
      obtain ⟨a, x, ha, hround⟩ := run_commaRound_eq_some.mp hstep
      obtain ⟨hcomma, hmore, rfl⟩ | ⟨-, hdone, -⟩ := hround
      · have hx : Barred x := ⟨ne_nil_of_kind hcomma rfl, by simp [hcomma]⟩
        have hcomma' := kind_append (t := t) hx.ne_nil (by simp [hcomma])
        refine (run_loop_more (run_commaRound_eq_some.mpr ⟨a, x ++ t, hitem hu ha hx,
          .inl ⟨hcomma'.trans hcomma, hmore, tail_append hx.ne_nil |>.symm⟩⟩) ?_).trans (ih hw h)
        simpa using hlt
      · cases hdone
  | case3 acc u b w hstep hge =>
      obtain ⟨a, x, ha, hround⟩ := run_commaRound_eq_some.mp hstep
      obtain ⟨hcomma, hmore, rfl⟩ | ⟨-, hdone, -⟩ := hround
      · refine absurd (Nat.lt_of_lt_of_le ?_ (Parser.suffix _ ha).length_le) hge
        rw [List.length_tail]
        exact Nat.sub_lt (List.length_pos_iff.mpr (ne_nil_of_kind hcomma rfl)) Nat.one_pos
      · cases hdone
  | case4 acc u hstep => cases h

/-- Type arguments end at a `>`, whatever stands behind it. -/
theorem typeArgs_append {args : List String} (hkind : Pieces.kind u = .mark .less)
    (hu : walk u 0 = some 0) (h : (typeArgs deep).run u = some (args, v)) :
    (typeArgs deep).run (u ++ t) = some (args, v ++ t) := by
  obtain ⟨_, _, hadvance, h⟩ := run_bind_eq_some.mp h
  rw [run_advance hkind rfl] at hadvance
  cases hadvance
  obtain ⟨l, w, hlist, h⟩ := run_bind_eq_some.mp h
  obtain ⟨_, x, hclose, hpure⟩ := run_bind_eq_some.mp h
  cases hpure
  simp only [closeAngle] at hclose
  split at hclose
  · rename_i hangle
    cases hclose
    have hw : Barred w := by
      constructor
      · rintro rfl
        rcases hangle with h | h <;> cases h
      · rcases hangle with h | h <;> simp [h]
    have hangle' : Pieces.kind (w ++ t) = .mark .greater ∨ Pieces.kind (w ++ t) = .mark .shiftRight := by
      rcases kind_append_or (t := t) hw.ne_nil with h | ⟨-, -, -, h⟩
      · rwa [h]
      · exact .inr h
    have hlist' := commaList_append hkeeps hext (Nat.le_refl _) (walk_tail hkind rfl hu rfl) hlist hw
    rw [typeArgs, run_bind, (Blind.advance_whole hkind rfl).run_append (run_advance hkind rfl)]
    refine run_bind_eq_some.mpr ⟨l, w ++ t, hlist', run_bind_eq_some.mpr ⟨(), w.tail ++ t, ?_, rfl⟩⟩
    simp only [closeAngle, if_pos hangle', tail_append hw.ne_nil]
  · cases hclose

omit hext in
include hblind in
theorem blind_valueArgs?_of_ne (hne : u ≠ []) (hu : walk u 0 = some 0) :
    (valueArgs? deep).Blind u t := by
  refine .asks ?_ <| .ite (fun hparen => ?_) fun _ => .asks (startsOperand_append hne hu) <|
    .ite (fun _ => .fail) fun _ => .pure _
  · obtain ⟨p, u, rfl⟩ := List.exists_cons_of_ne_nil hne
    rcases kind_append_or (t := t) hne with h | ⟨-, -, h, h'⟩
    · simp only [h]
      rfl
    · simp only [h, h']
      rfl
  · simp only [Bool.and_eq_true, decide_eq_true_eq] at hparen
    exact .behind hparen.1 rfl <|
      (blind_callArgs hkeeps hblind (walk_tail hparen.1 rfl hu rfl)).map _

omit hext in
include hblind in
/-- If nothing follows the type arguments, the text may go on with what begins no operand. -/
theorem valueArgs?_append {values : Option (List String)} (hu : walk u 0 = some 0)
    (hclosed : u = [] → startsOperand t = false) (h : (valueArgs? deep).run u = some (values, v)) :
    (valueArgs? deep).run (u ++ t) = some (values, v ++ t) := by
  by_cases hne : u = []
  · subst hne
    have hstarts := hclosed rfl
    obtain ⟨rfl, rfl⟩ : values = none ∧ v = [] := by
      cases h
      exact ⟨rfl, rfl⟩
    have hparen : Pieces.kind t ≠ .mark .leftParen := by
      intro hparen
      simp [startsOperand, hparen, Cursor.opensArgument] at hstarts
    simp only [List.nil_append, valueArgs?, looks, run_bind, run_asks, Option.bind_some, hparen,
      decide_false, Bool.false_and, Bool.false_eq_true, if_false, hstarts, run_pure]
  · exact (blind_valueArgs?_of_ne hkeeps hblind hne hu).run_append h

include hblind

theorem genericArgs_append {args : List String × Option (List String)}
    (hkind : Pieces.kind u = .mark .less) (hu : walk u 0 = some 0)
    (h : (genericArgs deep).run u = some (args, v)) (hv : v ≠ [] ∨ Closed u t) :
    (genericArgs deep).run (u ++ t) = some (args, v ++ t) := by
  obtain ⟨types, w, htypes, h⟩ := run_bind_eq_some.mp h
  obtain ⟨values, x, hvalues, hpure⟩ := run_bind_eq_some.mp h
  cases hpure
  have hclosed : w = [] → startsOperand t = false := by
    rintro rfl
    obtain rfl : v = [] := List.suffix_nil.mp (Parser.suffix _ hvalues)
    obtain ⟨us, p, rfl, hp⟩ := exists_of_typeArgs htypes
    exact (hv.resolve_left fun h => h rfl) p (by simp) hp
  have hw := (passes_typeArgs hkeeps hkind htypes).walk_eq hu
  exact run_bind_eq_some.mpr ⟨types, w ++ t, typeArgs_append hkeeps hext hkind hu htypes,
    run_bind_eq_some.mpr ⟨values, v ++ t, valueArgs?_append hkeeps hblind hw hclosed hvalues, rfl⟩⟩

omit hext in
/-- In front of the cut only type arguments depend on what stands behind it. -/
theorem blind_suffixRound_of (hne : u ≠ []) (hu : walk u 0 = some 0)
    (hgeneric : tight u = true → Pieces.kind u = .mark .less → head.bare = true →
      (genericArgs deep).Blind u t) : (suffixRound deep head).Blind u t := by
  have htight : tight (u ++ t) = tight u := by
    obtain ⟨p, u, rfl⟩ := List.exists_cons_of_ne_nil hne
    rfl
  refine .asks htight <| .ite (fun _ => .pure _) fun hloose => ?_
  rcases kind_append_or (t := t) hne with hsame | ⟨-, -, hgreater, hshift⟩
  · refine .asks hsame ?_
    split
    · exact (blind_call hkeeps hblind ‹_› hu).map _
    · refine .ite (fun hbare => ?_) fun _ => .pure _
      refine .bind (hgeneric (by simpa using hloose) ‹_› hbare).attempt fun found _ _ => ?_
      cases found <;> exact .pure _
    · refine .bind (blind_listSuffix ‹_› hu).attempt fun found _ _ => ?_
      cases found <;> exact .pure _
    · exact (blind_braces hkeeps hblind ‹_› hu).map _
    · exact .pure _
  · unfold Blind
    simp only [run_bind, Parser.kind, run_asks, Option.bind_some, hgreater, hshift, run_pure,
      Option.map_some]

/-- The suffixes of an operand end in front of a `<` or they do so wherever the text goes on. -/
theorem suffixes_append {b : Part} (hu : walk u 0 = some 0)
    (h : (suffixes deep head).run u = some (b, v)) (hv : Barred v) :
    (suffixes deep head).run (u ++ t) = some (b, v ++ t) := by
  change runLoop (suffixRound deep) head u = some (b, v) at h
  change (loop (suffixRound deep) head).run (u ++ t) = some (b, v ++ t)
  fun_induction runLoop (suffixRound deep) head u with
  | case1 head u b w hstep =>
      cases h
      obtain ⟨-, rfl⟩ | ⟨⟨_, hmore⟩, -⟩ := rounds_suffixRound deep head _ _ _ hstep
      · refine run_loop_done (Blind.run_append ?_ hstep)
        exact blind_suffixRound_of hkeeps hblind hv.ne_nil hu fun _ hless _ => absurd hless hv.kind
      · cases hmore
  | case2 head u b w hstep hlt ih =>
      have hw := (keeps_suffixRound hkeeps _ _ hstep).1.walk_eq hu
      have hne : w ≠ [] := by
        rintro rfl
        exact hv.ne_nil (List.suffix_nil.mp (suffix_runLoop h))
      have hne' : u ≠ [] := by
        rintro rfl
        exact absurd hlt (Nat.not_lt_zero _)
      refine (run_loop_more (Blind.run_append ?_ hstep) (by simpa using hlt)).trans (ih hw h)
      refine blind_suffixRound_of hkeeps hblind hne' hu fun htight hless hbare => ?_
      rw [run_suffixRound_less htight hless hbare] at hstep
      unfold Blind
      split at hstep
      · rename_i hargs
        cases hstep
        rw [hargs]
        exact genericArgs_append hkeeps hblind hext hless hu hargs (.inl hne)
      · cases hstep
  | case3 head u b w hstep hge =>
      obtain ⟨hdone, -⟩ | ⟨-, hlt⟩ := rounds_suffixRound deep head _ _ _ hstep
      · cases hdone
      · exact absurd hlt hge
  | case4 head u hstep => cases h

theorem leading_append {b : Part} (hu : walk u 0 = some 0)
    (h : (leading deep).run u = some (b, v)) (hv : Barred v) :
    (leading deep).run (u ++ t) = some (b, v ++ t) := by
  have hne : u ≠ [] := by
    rintro rfl
    exact hv.ne_nil (List.suffix_nil.mp (Parser.suffix _ h))
  have hsigned {op : UnaryOp} (hwhole : isWhole (Pieces.kind u) = true)
      (hopened : opened? (Pieces.kind u) 0 = some 0)
      (h : (signed deep op).run u = some (b, v)) : (signed deep op).run (u ++ t) = some (b, v ++ t) := by
    obtain ⟨_, _, hadvance, h⟩ := run_bind_eq_some.mp h
    have hrun : Parser.advance.run u = some ((), u.tail) := run_advance rfl hwhole
    rw [hrun] at hadvance
    cases hadvance
    obtain ⟨arg, w, harg, hpure⟩ := run_bind_eq_some.mp h
    cases hpure
    refine run_bind_eq_some.mpr ⟨(), u.tail ++ t, (Blind.advance_whole rfl hwhole).run_append hrun,
      run_bind_eq_some.mpr ⟨arg, v ++ t, ?_, rfl⟩⟩
    exact hext _ _ _ _ (by decide) (walk_tail rfl hwhole hu hopened) harg hv
  have hoperand (h : (operand deep >>= suffixes deep).run u = some (b, v)) :
      (operand deep >>= suffixes deep).run (u ++ t) = some (b, v ++ t) := by
    obtain ⟨head, w, hhead, hsuffixes⟩ := run_bind_eq_some.mp h
    have hw : w ≠ [] := by
      rintro rfl
      exact hv.ne_nil (List.suffix_nil.mp (Parser.suffix _ hsuffixes))
    exact run_bind_eq_some.mpr ⟨head, w ++ t, operand_append hkeeps hblind hu hhead hw,
      suffixes_append hkeeps hblind hext ((keeps_operand hkeeps _ _ hhead).1.walk_eq hu) hsuffixes hv⟩
  rw [leading, Parser.kind, run_asks_bind] at h ⊢
  rcases kind_append_or (t := t) hne with hsame | ⟨-, -, hgreater, hshift⟩
  · rw [hsame]
    split at h
    · rename_i hkind
      exact hsigned (by rw [hkind]; rfl) (by rw [hkind]; rfl) h
    · rename_i hkind
      exact hsigned (by rw [hkind]; rfl) (by rw [hkind]; rfl) h
    · exact hoperand h
  · rw [hgreater] at h
    rw [hshift]
    exact hoperand h

omit hext in
theorem blind_juxtaposed?_of (hne : u ≠ []) (hu : walk u 0 = some 0)
    (harg : Applies u head → (deep .suffix).Blind u t) : (juxtaposed? deep head).Blind u t := by
  have htight : tight (u ++ t) = tight u := by
    obtain ⟨p, u, rfl⟩ := List.exists_cons_of_ne_nil hne
    rfl
  rcases kind_append_or (t := t) hne with hsame | ⟨-, -, hgreater, hshift⟩
  · refine .asks (by simp only [hsame, htight]) <| .ite (fun hcall => ?_) fun hcall =>
      .asks (by simp only [hsame]) <| .ite (fun hbrace => ?_) fun hbrace =>
        .asks (by simp only [hsame]) <|
          .ite (fun hopens => .bind (harg ⟨hcall, hbrace, hopens⟩) fun _ _ _ => .pure _) fun _ => .pure _
    · simp only [Bool.and_eq_true, decide_eq_true_eq] at hcall
      exact (blind_call hkeeps hblind hcall.1.1 hu).map _
    · exact (blind_braces hkeeps hblind (of_decide_eq_true hbrace) hu).map _
  · unfold Blind
    rw [run_juxtaposed?_of_angle (.inl hgreater), run_juxtaposed?_of_angle (.inr hshift)]
    rfl

omit hkeeps hblind hext in
theorem blind_operatorRound_of {min : Level} (hne : u ≠ [])
    (hsame : Pieces.kind (u ++ t) = Pieces.kind u)
    (hrhs : ∀ op v, operator? (Pieces.kind u) min = some op → advance.run u = some ((), v) →
      (deep op.next).Blind v t) : (operatorRound deep min head).Blind u t := by
  refine .asks hsame ?_
  cases hop : operator? (Pieces.kind u) min with
  | none => exact .pure _
  | some op =>
      exact .bind (.advance hne (behind_append_of_kind hne hsame)) fun _ v hv =>
        .bind (hrhs op v hop hv) fun _ _ _ => .pure _

omit hkeeps hblind in
theorem operatorRound_append {min : Level} {round : Round Part} (hmin : Level.additive ≤ min)
    (hne : u ≠ []) (hu : walk u 0 = some 0) (h : (operatorRound deep min head).run u = some (round, v))
    (hv : Barred v) : (operatorRound deep min head).run (u ++ t) = some (round, v ++ t) := by
  rcases kind_append_or (t := t) hne with hsame | ⟨-, -, hgreater, hshift⟩
  · refine Blind.run_append (blind_operatorRound_of hne hsame fun op w hop hadvance => ?_) h
    obtain ⟨rhs, hrhs⟩ := rhs_of_operatorRound hop hadvance h
    obtain ⟨hbinding, hle⟩ := infix_of_operator? hop
    unfold Blind
    rw [hrhs]
    exact hext _ _ _ _ (Nat.le_trans hmin (Nat.le_trans hle (level_le_next op)))
      ((passes_operator hbinding hadvance).walk_eq hu) hrhs hv
  · rw [operatorRound, Parser.kind, run_asks_bind] at h ⊢
    rw [hgreater, operator?_angle hmin (.inl rfl)] at h
    rw [hshift, operator?_angle hmin (.inr rfl)]
    cases h
    rfl

variable (htakes : ∀ min, (deep min).Takes)
include htakes

theorem climbRound_append {min : Level} {round : Round Part} (hmin : Level.additive ≤ min)
    (hne : u ≠ []) (hu : walk u 0 = some 0) (h : (climbRound deep min head).run u = some (round, v))
    (hv : Barred v) : (climbRound deep min head).run (u ++ t) = some (round, v ++ t) := by
  unfold climbRound at h ⊢
  split_ifs at h ⊢ with hjuxtaposes
  · obtain ⟨found, w, hfound, hnext⟩ := run_bind_eq_some.mp h
    have hblind' (hw : found.isSome → w = v) : (juxtaposed? deep head).Blind u t := by
      refine blind_juxtaposed?_of hkeeps hblind hne hu fun happlies => ?_
      obtain ⟨hsome, arg, harg⟩ := arg_of_juxtaposed? happlies hfound
      rw [hw hsome] at harg
      unfold Blind
      rw [harg]
      exact hext _ _ _ _ (by decide) hu harg hv
    obtain ⟨rfl, rfl⟩ | ⟨⟨app, rfl⟩, -⟩ := juxtaposed?_cases htakes hfound
    · refine run_bind_eq_some.mpr ⟨none, w ++ t, ?_, operatorRound_append hext hmin hne hu hnext hv⟩
      exact (hblind' fun h => by cases h).run_append hfound
    · cases hnext
      exact run_bind_eq_some.mpr ⟨some app, v ++ t, (hblind' fun _ => rfl).run_append hfound, rfl⟩
  · exact operatorRound_append hext hmin hne hu h hv

/-- The arguments and operators of a sum end in front of a `<` or they do so wherever the text
goes on. -/
theorem climbing_append {min : Level} {b : Part} (hmin : Level.additive ≤ min)
    (hu : walk u 0 = some 0) (h : (loop (climbRound deep min) head).run u = some (b, v))
    (hv : Barred v) : (loop (climbRound deep min) head).run (u ++ t) = some (b, v ++ t) := by
  change runLoop (climbRound deep min) head u = some (b, v) at h
  fun_induction runLoop (climbRound deep min) head u with
  | case1 head u b w hstep =>
      cases h
      obtain ⟨-, rfl⟩ | ⟨⟨_, hmore⟩, -⟩ := rounds_climbRound htakes min head _ _ _ hstep
      · exact run_loop_done (climbRound_append hkeeps hblind hext htakes hmin hv.ne_nil hu hstep hv)
      · cases hmore
  | case2 head u b w hstep hlt ih =>
      have hne : u ≠ [] := by
        rintro rfl
        exact absurd hlt (Nat.not_lt_zero _)
      have hw : Barred w := by
        constructor
        · rintro rfl
          exact hv.ne_nil (List.suffix_nil.mp (suffix_runLoop h))
        · intro hless
          rw [runLoop, run_climbRound_less hmin hless] at h
          cases h
          exact hv.kind hless
      exact (run_loop_more (climbRound_append hkeeps hblind hext htakes hmin hne hu hstep hw)
        (by simpa using hlt)).trans (ih ((keeps_climbRound hkeeps htakes min _ _ hstep).1.walk_eq hu) h)
  | case3 head u b w hstep hge =>
      obtain ⟨hdone, -⟩ | ⟨-, hlt⟩ := rounds_climbRound htakes min head _ _ _ hstep
      · cases hdone
      · exact absurd hlt hge
  | case4 head u hstep => cases h

theorem expression_append {min : Level} {b : Part} (hmin : Level.additive ≤ min)
    (hu : walk u 0 = some 0) (h : (expression deep min).run u = some (b, v)) (hv : Barred v) :
    (expression deep min).run (u ++ t) = some (b, v ++ t) := by
  obtain ⟨lhs, w, hlhs, hclimb⟩ := run_bind_eq_some.mp h
  have hw : Barred w := by
    constructor
    · rintro rfl
      exact hv.ne_nil (List.suffix_nil.mp (Parser.suffix _ hclimb))
    · intro hless
      rw [run_loop_done (run_climbRound_less hmin hless)] at hclimb
      cases hclimb
      exact hv.kind hless
  have hw' := (keeps_leading hkeeps _ _ hlhs).1.walk_eq hu
  exact run_bind_eq_some.mpr ⟨lhs, w ++ t, leading_append hkeeps hblind hext hu hlhs hw,
    climbing_append hkeeps hblind hext htakes hmin hw' hclimb hv⟩

end Extends

theorem nested_append (k : Nat) {min : Level} {u v t : List Piece} {b : Part}
    (hmin : Level.additive ≤ min) (hu : walk u 0 = some 0) (h : (nested k min).run u = some (b, v))
    (hv : Barred v) : (nested k min).run (u ++ t) = some (b, v ++ t) := by
  induction k generalizing min u b v with
  | zero => cases h
  | succ k ih =>
      exact expression_append (keeps_nested k) (fun min _ _ hv => blind_nested k min hv)
        (fun _ _ _ _ hmin hu h hv => ih hmin hu h hv) (takes_nested k) hmin hu h hv

end Plain

end BendSyntax
