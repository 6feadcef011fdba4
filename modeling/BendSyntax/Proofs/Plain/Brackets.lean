import BendSyntax.Proofs.Plain

/-! What plain expressions are made of. An expression closes the brackets that it opens and no
others. If it ends with the `>` of type arguments, no operand can begin behind it. -/

namespace BendSyntax

namespace Pieces

/-- How many brackets are open behind a piece, given how many are open in front of it. -/
def opened? : TokenKind → Nat → Option Nat
  | .mark .leftParen, n | .mark .leftBracket, n | .mark .leftBrace, n => some (n + 1)
  | .mark .rightParen, n | .mark .rightBracket, n | .mark .rightBrace, n =>
      if n = 0 then none else some (n - 1)
  | _, n => some n

/-- How many brackets are open behind some pieces, unless one is closed that was not opened. -/
def walk : List Piece → Nat → Option Nat
  | [], n => some n
  | p :: ps, n => (opened? p.kind n).bind (walk ps)

theorem walk_append (ps qs : List Piece) (n : Nat) :
    walk (ps ++ qs) n = (walk ps n).bind (walk qs) := by
  induction ps generalizing n with
  | nil => rfl
  | cons p ps ih =>
      rw [List.cons_append, walk, walk]
      cases opened? p.kind n with
      | none => rfl
      | some m => exact ih m

theorem opened?_add {k : TokenKind} {m n : Nat} (h : opened? k n = some m) (l : Nat) :
    opened? k (n + l) = some (m + l) := by
  unfold opened? at *
  split at h <;> grind

/-- Brackets further out do not matter. -/
theorem walk_add {ps : List Piece} {m n : Nat} (h : walk ps n = some m) (l : Nat) :
    walk ps (n + l) = some (m + l) := by
  induction ps generalizing n with
  | nil =>
      cases h
      rfl
  | cons p ps ih =>
      obtain ⟨k, hk, hm⟩ := Option.bind_eq_some_iff.mp h
      rw [walk, opened?_add hk]
      exact ih hm

/-- From `ps` to `qs` one comes through pieces in front of which `i` brackets are open, and behind
which `j` are. -/
def Passes (ps qs : List Piece) (i j : Nat) : Prop :=
  ∃ us, ps = us ++ qs ∧ walk us i = some j

/-- If the last of some pieces is a `>`, no operand begins behind it. -/
def Closed (us qs : List Piece) : Prop :=
  ∀ p ∈ us.getLast?, isWhole p.kind = false → startsOperand qs = false

/-- From `ps` to `qs` one comes through pieces behind which no operand begins if they end with a
`>`. -/
def Calm (ps qs : List Piece) : Prop := ∃ us, ps = us ++ qs ∧ Closed us qs

theorem Closed.of_append {us vs qs : List Piece} (h : Closed (us ++ vs) qs) : Closed vs qs := by
  intro p hp hkind
  refine h p ?_ hkind
  rw [List.getLast?_append, Option.mem_def.mp hp]
  rfl

theorem Passes.refl (ps : List Piece) (n : Nat) : Passes ps ps n n := ⟨[], rfl, rfl⟩

theorem Passes.trans {ps qs rs : List Piece} {i j k : Nat} (h : Passes ps qs i j)
    (h' : Passes qs rs j k) : Passes ps rs i k := by
  obtain ⟨us, rfl, hus⟩ := h
  obtain ⟨vs, rfl, hvs⟩ := h'
  refine ⟨us ++ vs, (List.append_assoc _ _ _).symm, ?_⟩
  rw [walk_append, hus]
  exact hvs

theorem Passes.add {ps qs : List Piece} {i j : Nat} (h : Passes ps qs i j) (l : Nat) :
    Passes ps qs (i + l) (j + l) := by
  obtain ⟨us, rfl, hus⟩ := h
  exact ⟨us, rfl, walk_add hus l⟩

/-- What is left has to be closed by what is left of the text. -/
theorem Passes.walk_eq {ps qs : List Piece} {i j k : Nat} (h : Passes ps qs i j)
    (hps : walk ps i = some k) : walk qs j = some k := by
  obtain ⟨us, rfl, hus⟩ := h
  rw [walk_append, hus] at hps
  exact hps

theorem Calm.refl (ps : List Piece) : Calm ps ps := ⟨[], rfl, fun _ h => by cases h⟩

theorem Calm.of_lt {ps qs rs : List Piece} (h : qs <:+ ps) (h' : Calm qs rs)
    (hlt : rs.length < qs.length) : Calm ps rs := by
  obtain ⟨us, rfl⟩ := h
  obtain ⟨vs, rfl, hvs⟩ := h'
  refine ⟨us ++ vs, (List.append_assoc _ _ _).symm, ?_⟩
  unfold Closed at *
  cases hlast : vs.getLast? with
  | none =>
      rw [List.getLast?_eq_none_iff.mp hlast] at hlt
      exact absurd hlt (Nat.lt_irrefl _)
  | some p =>
      rw [hlast] at hvs
      rw [List.getLast?_append, hlast]
      exact hvs

theorem Calm.trans {ps qs rs : List Piece} (h : Calm ps qs) (h' : Calm qs rs) : Calm ps rs := by
  obtain ⟨vs, rfl, hvs⟩ := h'
  cases vs with
  | nil => exact h
  | cons p vs =>
      obtain ⟨us, rfl, -⟩ := h
      refine .of_lt (List.suffix_append us _) ⟨p :: vs, rfl, hvs⟩ ?_
      simp only [List.length_append, List.length_cons]
      omega

theorem Calm.of_not_startsOperand {ps qs : List Piece} (h : qs <:+ ps)
    (hstarts : startsOperand qs = false) : Calm ps qs := by
  obtain ⟨us, rfl⟩ := h
  exact ⟨us, rfl, fun _ _ _ => hstarts⟩

end Pieces

open Pieces BendSyntax.Parser
open Reading (Round)

/-- If a parser succeeds on `ps`, in front of which `i` brackets are open, then `j` are open behind
what it has taken, and it ends calmly. -/
def Parser.Keeps {α : Type} (r : Parser α) (ps : List Piece) (i j : Nat) : Prop :=
  ∀ a qs, r.run ps = some (a, qs) → Passes ps qs i j ∧ Calm ps qs

namespace Parser.Keeps

variable {α β : Type} {r : Parser α} {f : α → Parser β} {ps : List Piece} {i j k n : Nat}

theorem pure (a : α) (ps : List Piece) (n : Nat) : (Pure.pure a : Parser α).Keeps ps n n := by
  rintro b qs ⟨⟩
  exact ⟨.refl _ _, .refl _⟩

theorem fail : (Parser.fail : Parser α).Keeps ps i j := fun _ _ h => by cases h

theorem bind (h : r.Keeps ps i j)
    (hf : ∀ a qs, r.run ps = some (a, qs) → (f a).Keeps qs j k) : (r >>= f).Keeps ps i k := by
  intro b rs hrun
  obtain ⟨a, qs, hr, hb⟩ := run_bind_eq_some.mp hrun
  obtain ⟨hpasses, hcalm⟩ := h a qs hr
  obtain ⟨hpasses', hcalm'⟩ := hf a qs hr b rs hb
  exact ⟨hpasses.trans hpasses', hcalm.trans hcalm'⟩

theorem asks {g : List Piece → α} (h : (f (g ps)).Keeps ps i j) : (asks g >>= f).Keeps ps i j :=
  fun b rs hrun => h b rs hrun

theorem map (h : r.Keeps ps i j) (g : α → β) : (g <$> r).Keeps ps i j :=
  h.bind fun _ _ _ => .pure _ _ _

theorem ite {c : Prop} [Decidable c] {r' : Parser α} (h : c → r.Keeps ps i j)
    (h' : ¬c → r'.Keeps ps i j) : (if c then r else r').Keeps ps i j := by
  split
  · exact h ‹_›
  · exact h' ‹_›

theorem attempt (h : r.Keeps ps n n) : (attempt r).Keeps ps n n := by
  intro a qs hrun
  simp only [Parser.attempt] at hrun
  split at hrun
  · rename_i hr
    cases hrun
    exact h _ _ hr
  · cases hrun
    exact ⟨.refl _ _, .refl _⟩

theorem advance {k : TokenKind} (hkind : Pieces.kind ps = k) (hwhole : isWhole k = true)
    (hopened : opened? k i = some j) : advance.Keeps ps i j := by
  intro a qs h
  obtain ⟨p, hps, hp, -⟩ := exists_of_kind hkind hwhole
  obtain rfl : ps.tail = qs := by
    rw [run_advance hkind hwhole] at h
    cases h
    rfl
  refine ⟨⟨[p], hps, ?_⟩, [p], hps, ?_⟩
  · rw [walk, hp, hopened]
    rfl
  · rintro _ ⟨⟩ hq
    rw [← hp, show isWhole p.kind = _ from hq] at hwhole
    cases hwhole

theorem expect {k : TokenKind} (hwhole : isWhole k = true) (hopened : opened? k i = some j) :
    (expect k).Keeps ps i j :=
  .asks <| .ite (fun h => .advance (of_decide_eq_true h) hwhole hopened) fun _ => .fail

theorem accept {k : TokenKind} {g : Bool → Parser β} (hwhole : isWhole k = true)
    (hopened : opened? k i = some j) (hno : ∀ qs, (g false).Keeps qs i n)
    (hyes : ∀ qs, (g true).Keeps qs j n) : (accept k >>= g).Keeps ps i n := by
  intro b rs hrun
  obtain ⟨seen, qs, haccept, hb⟩ := run_bind_eq_some.mp hrun
  obtain ⟨_, _, ⟨⟩, haccept⟩ := run_bind_eq_some.mp haccept
  split at haccept
  · rename_i hseen
    obtain ⟨_, us, hadvance, hpure⟩ := run_bind_eq_some.mp haccept
    cases hpure
    obtain ⟨hpasses, hcalm⟩ :=
      Keeps.advance (of_decide_eq_true hseen) hwhole hopened _ _ hadvance
    obtain ⟨hpasses', hcalm'⟩ := hyes qs b rs hb
    exact ⟨hpasses.trans hpasses', hcalm.trans hcalm'⟩
  · cases haccept
    exact hno ps b rs hb

theorem loop {step : α → Parser (Round α)} (h : ∀ a ps, (step a).Keeps ps n n) (a : α) :
    (loop step a).Keeps ps n n := by
  intro b rs hrun
  change runLoop step a ps = some (b, rs) at hrun
  fun_induction runLoop step a ps with
  | case1 a ps b qs hstep =>
      cases hrun
      exact h a ps _ _ hstep
  | case2 a ps b qs hstep hlt ih =>
      obtain ⟨hpasses, hcalm⟩ := h a ps _ _ hstep
      obtain ⟨hpasses', hcalm'⟩ := ih hrun
      exact ⟨hpasses.trans hpasses', hcalm.trans hcalm'⟩
  | case3 a ps b qs hstep hge =>
      cases hrun
      exact h a ps _ _ hstep
  | case4 a ps hstep => cases hrun

theorem commaRound (h : ∀ ps, r.Keeps ps n n) (acc : List α) (ps : List Piece) :
    (commaRound r acc).Keeps ps n n :=
  .bind (h ps) fun _ _ _ => .accept rfl rfl (fun _ => .pure _ _ _) fun _ => .pure _ _ _

theorem commaList (h : ∀ ps, r.Keeps ps n n) : (commaList r).Keeps ps n n :=
  .loop (commaRound h) _

theorem separatedRound (h : ∀ ps, r.Keeps ps n n) (bracket : TokenKind) (acc : List α)
    (ps : List Piece) : (separatedRound bracket r acc).Keeps ps n n :=
  .asks <| .ite (fun _ => .pure _ _ _) fun _ => .commaRound h acc ps

theorem separated (h : ∀ ps, r.Keeps ps n n) (bracket : TokenKind) :
    (separated bracket r).Keeps ps n n :=
  .loop (separatedRound h bracket) _

end Parser.Keeps

theorem Parser.exists_of_closeAngle {ps qs : List Piece} (h : closeAngle.run ps = some ((), qs)) :
    ∃ p, ps = p :: qs ∧ (p.kind = .mark .greater ∨ p.kind = .mark .shiftRight) := by
  simp only [closeAngle] at h
  split at h
  · rename_i hangle
    cases h
    cases ps with
    | nil => rcases hangle with h | h <;> cases h
    | cons p ps =>
        refine ⟨p, rfl, ?_⟩
        unfold Pieces.kind at hangle
        split at hangle
        · rename_i hjoined
          cases ps with
          | nil => cases hjoined
          | cons q ps =>
              simp only [joined, Bool.and_eq_true, decide_eq_true_eq] at hjoined
              exact .inl hjoined.1.1
        · exact hangle
  · cases h

theorem Parser.passes_closeAngle {ps qs : List Piece} {n : Nat}
    (h : closeAngle.run ps = some ((), qs)) : Passes ps qs n n := by
  obtain ⟨p, rfl, hp⟩ := exists_of_closeAngle h
  refine ⟨[p], rfl, ?_⟩
  rcases hp with hp | hp <;> simp [walk, hp, opened?]

theorem Pieces.opened?_of_infix {k : TokenKind} {op : Infix} (h : Infix.ofKind? k = some op)
    (n : Nat) : opened? k n = some n := by
  cases k with
  | mark s => cases s <;> first | rfl | cases h
  | word w => rfl
  | _ => cases h

theorem Parser.passes_operator {op : Infix} {ps qs : List Piece} {n : Nat}
    (hop : Infix.ofKind? (Pieces.kind ps) = some op) (h : advance.run ps = some ((), qs)) :
    Passes ps qs n n := by
  match ps with
  | [] => cases h
  | p :: ps =>
      obtain rfl : behind (p :: ps) = qs := by
        cases h
        rfl
      unfold Pieces.kind at hop
      unfold behind
      split at hop
      · rename_i hjoined
        rw [if_pos hjoined]
        cases ps with
        | nil => cases hjoined
        | cons q ps =>
            simp only [joined, Bool.and_eq_true, decide_eq_true_eq] at hjoined
            exact ⟨[p, q], rfl, by simp [walk, hjoined, opened?]⟩
      · rename_i hjoined
        have hp : Infix.ofKind? p.kind = some op := hop
        rw [if_neg hjoined]
        exact ⟨[p], rfl, by simp [walk, opened?_of_infix hp]⟩

namespace Plain

theorem keeps_identifier {ps : List Piece} {n : Nat} : identifier.Keeps ps n n :=
  .asks <| .bind (.expect rfl rfl) fun _ _ _ => .pure _ _ _

theorem infix_of_operator? {k : TokenKind} {min : Level} {op : Infix}
    (h : operator? k min = some op) : Infix.ofKind? k = some op ∧ min ≤ op.level := by
  unfold operator? at h
  split at h
  · split at h
    · cases h
    · cases h
      exact ⟨‹_›, Nat.le_of_not_lt ‹_›⟩
  · cases h

theorem keeps_refl {ps : List Piece} {n : Nat} (h : atRefl ps = true) : refl.Keeps ps n n := by
  simp only [atRefl, Bool.and_eq_true, decide_eq_true_eq] at h
  obtain ⟨⟨hopen, heq⟩, hclose⟩ := h
  refine .bind (.advance hopen rfl rfl) fun _ qs hfirst => ?_
  obtain rfl : ps.tail = qs := by
    rw [run_advance hopen rfl] at hfirst
    cases hfirst
    rfl
  refine .bind (.advance heq rfl rfl) fun _ rs hsecond => ?_
  obtain rfl : ps.tail.tail = rs := by
    rw [run_advance heq rfl] at hsecond
    cases hsecond
    rfl
  exact .bind (.advance hclose rfl rfl) fun _ _ _ => .pure _ _ _

theorem keeps_listSuffix {ps : List Piece} {n : Nat} (h : Pieces.kind ps = .mark .leftBracket) :
    listSuffix.Keeps ps n n := by
  refine .asks <| .ite (fun hclose => .bind (.advance h rfl rfl) fun _ qs hfirst => ?_) fun _ => .fail
  rw [run_advance h rfl] at hfirst
  cases hfirst
  exact .advance (of_decide_eq_true hclose) rfl rfl

theorem keeps_negated {ps : List Piece} {negated : Bool}
    (h : Grammar.negated? (Pieces.kind ps) = some negated) (n : Nat) : advance.Keeps ps n n := by
  unfold Grammar.negated? at h
  split at h
  · exact .advance ‹_› rfl rfl
  · exact .advance ‹_› rfl rfl
  · cases h

theorem isWhole_of_isLiteral {k : TokenKind} (h : Grammar.isLiteral k = true) : isWhole k = true := by
  cases k with
  | mark s => cases h
  | eof => cases h
  | _ => rfl

theorem keeps_literal {ps : List Piece} {n : Nat}
    (h : Grammar.isLiteral (Pieces.kind ps) = true) : (literal (Pieces.kind ps)).Keeps ps n n := by
  refine .asks ?_
  split
  · refine .bind (.advance rfl (isWhole_of_isLiteral h) ?_) fun _ _ _ => .pure _ _ _
    generalize Pieces.kind ps = k at h
    cases k with
    | mark s => cases h
    | _ => rfl
  · exact .fail

section Keeps

variable {deep : Level → Parser Part} {head : Part} {ps : List Piece} {n : Nat}
  (hdeep : ∀ min ps n, (deep min).Keeps ps n n) (htakes : ∀ min, (deep min).Takes)
include hdeep

theorem keeps_inner : (inner deep).Keeps ps n n := (hdeep _ _ _).map _

theorem keeps_callArgs : (callArgs deep).Keeps ps (n + 1) n :=
  .bind (.separated (fun _ => keeps_inner hdeep) _) fun _ _ _ =>
    .bind (.expect rfl rfl) fun _ _ _ => .pure _ _ _

theorem keeps_call (hkind : Pieces.kind ps = .mark .leftParen) : (call deep head).Keeps ps n n :=
  .bind (.advance hkind rfl rfl) fun _ _ _ =>
    .bind (keeps_callArgs hdeep) fun _ _ _ => .pure _ _ _

theorem keeps_implicitArgs (hkind : Pieces.kind ps = .mark .leftBrace) :
    (implicitArgs deep).Keeps ps n n :=
  .bind (.advance hkind rfl rfl) fun _ _ _ =>
    .bind (.separated (fun _ => keeps_inner hdeep) _) fun _ _ _ =>
      .bind (.expect rfl rfl) fun _ _ _ => .pure _ _ _

/-- Type arguments end with a `>`, behind which anything may stand. -/
theorem passes_typeArgs {args : List String} {qs : List Piece}
    (hkind : Pieces.kind ps = .mark .less) (h : (typeArgs deep).run ps = some (args, qs)) :
    Passes ps qs n n := by
  obtain ⟨_, ps', hadvance, h⟩ := run_bind_eq_some.mp h
  obtain ⟨args', rs, hitems, h⟩ := run_bind_eq_some.mp h
  obtain ⟨_, us, hclose, h⟩ := run_bind_eq_some.mp h
  cases h
  have hfirst : Passes ps ps' n n :=
    (Parser.Keeps.advance hkind rfl rfl _ _ hadvance).1
  have hlist : Passes ps' rs n n := (Parser.Keeps.commaList (fun ps => (hdeep _ ps n).map _) _ _ hitems).1
  exact (hfirst.trans hlist).trans (passes_closeAngle hclose)

omit hdeep in
theorem exists_of_typeArgs {args : List String} {qs : List Piece}
    (h : (typeArgs deep).run ps = some (args, qs)) :
    ∃ us p, ps = us ++ p :: qs ∧ isWhole p.kind = false := by
  obtain ⟨_, qs', hadvance, h⟩ := run_bind_eq_some.mp h
  obtain ⟨args', rs, hitems, h⟩ := run_bind_eq_some.mp h
  obtain ⟨_, us, hclose, h⟩ := run_bind_eq_some.mp h
  cases h
  obtain ⟨p, rfl, hp⟩ := exists_of_closeAngle hclose
  obtain ⟨vs, hvs⟩ := ((commaList _).suffix hitems).trans (advance.suffix hadvance)
  refine ⟨vs, p, hvs.symm, ?_⟩
  rcases hp with hp | hp <;> rw [hp] <;> rfl

/-- Behind values, and where there are none, it is calm whatever stands in front. -/
theorem keeps_valueArgs? {values : Option (List String)} {qs : List Piece}
    (h : (valueArgs? deep).run ps = some (values, qs)) :
    Passes ps qs n n ∧ ∀ rs, ps <:+ rs → Calm rs qs := by
  obtain ⟨_, _, ⟨⟩, h⟩ := run_bind_eq_some.mp h
  split at h
  · rename_i hparen
    simp only [Bool.and_eq_true, decide_eq_true_eq] at hparen
    have hlt := takes_advance.bind _ _ _ _ h
    have hkeeps : (do advance; some <$> callArgs deep).Keeps ps n n :=
      .bind (.advance hparen.1 rfl rfl) fun _ _ _ =>
        (keeps_callArgs hdeep).map _
    obtain ⟨hpasses, hcalm⟩ := hkeeps _ _ h
    exact ⟨hpasses, fun rs hrs => .of_lt hrs hcalm hlt⟩
  · obtain ⟨_, _, ⟨⟩, h⟩ := run_bind_eq_some.mp h
    split at h
    · cases h
    · rename_i hstarts
      cases h
      exact ⟨.refl _ _, fun rs hrs => .of_not_startsOperand hrs (Bool.eq_false_iff.mpr hstarts)⟩

theorem keeps_genericArgs (hkind : Pieces.kind ps = .mark .less) :
    (genericArgs deep).Keeps ps n n := by
  intro a qs h
  obtain ⟨args, rs, hargs, h⟩ := run_bind_eq_some.mp h
  obtain ⟨values, us, hvalues, h⟩ := run_bind_eq_some.mp h
  cases h
  obtain ⟨hpasses, hcalm⟩ := keeps_valueArgs? hdeep hvalues
  exact ⟨(passes_typeArgs hdeep hkind hargs).trans hpasses,
    hcalm ps ((typeArgs deep).suffix hargs)⟩

theorem keeps_equality (hkind : Pieces.kind ps = .mark .leftBrace) :
    (equality deep).Keeps ps n n := by
  refine .bind (.advance hkind rfl rfl) fun _ qs _ => .bind (hdeep _ _ _) fun _ rs _ => .asks ?_
  cases hnegated : Grammar.negated? (Pieces.kind rs) with
  | none => exact .fail
  | some negated =>
      exact .bind (keeps_negated hnegated (n + 1)) fun _ _ _ => .bind (hdeep _ _ _) fun _ _ _ =>
        .bind (.expect rfl rfl) fun _ _ _ => .pure _ _ _

theorem keeps_braces (hkind : Pieces.kind ps = .mark .leftBrace) :
    (braces deep head).Keeps ps n n := by
  refine .asks <| .ite (fun hrefl => ?_) fun _ =>
    .bind (keeps_equality hdeep hkind).attempt fun found qs hfound => ?_
  · exact .bind (keeps_refl hrefl) fun _ _ _ => .pure _ _ _
  · cases found with
    | none =>
        obtain ⟨-, rfl⟩ := eq_of_attempt_none hfound
        exact .bind (keeps_implicitArgs hdeep hkind) fun _ _ _ => .pure _ _ _
    | some sides => exact .pure _ _ _

theorem keeps_suffixRound : (suffixRound deep head).Keeps ps n n := by
  refine .asks <| .ite (fun _ => .pure _ _ _) fun _ => .asks ?_
  split
  · exact (keeps_call hdeep ‹_›).map _
  · refine .ite (fun _ => .bind (keeps_genericArgs hdeep ‹_›).attempt fun found _ _ => ?_) fun _ =>
      .pure _ _ _
    cases found <;> exact .pure _ _ _
  · refine .bind (keeps_listSuffix ‹_›).attempt fun found _ _ => ?_
    cases found <;> exact .pure _ _ _
  · exact (keeps_braces hdeep ‹_›).map _
  · exact .pure _ _ _

theorem keeps_constructor (hkind : Pieces.kind ps = .mark .atSign) :
    (constructor deep).Keeps ps n n :=
  .bind (.advance hkind rfl rfl) fun _ _ _ =>
    .bind keeps_identifier fun _ _ _ => .asks <| .ite
      (fun hbrace => .bind (keeps_implicitArgs hdeep (of_decide_eq_true hbrace)) fun _ _ _ =>
        .pure _ _ _)
      fun _ => .pure _ _ _

theorem keeps_parentheses (hkind : Pieces.kind ps = .mark .leftParen) :
    (parentheses deep).Keeps ps n n :=
  .bind (.advance hkind rfl rfl) fun _ _ _ => .accept rfl rfl
    (fun _ => .bind (hdeep _ _ _) fun _ _ _ => .accept rfl rfl
      (fun _ => .bind (.expect rfl rfl) fun _ _ _ => .pure _ _ _)
      fun _ => .bind (keeps_callArgs hdeep) fun _ _ _ => .pure _ _ _)
    fun _ => .pure _ _ _

theorem keeps_listTerm (hkind : Pieces.kind ps = .mark .leftBracket) :
    (listTerm deep).Keeps ps n n :=
  .bind (.advance hkind rfl rfl) fun _ _ _ => .accept rfl rfl
    (fun _ => .bind (.separated (fun _ => keeps_inner hdeep) _) fun _ _ _ =>
      .bind (.expect rfl rfl) fun _ _ _ => .pure _ _ _)
    fun _ => .pure _ _ _

theorem keeps_operand : (operand deep).Keeps ps n n := by
  refine .asks ?_
  split
  · exact .bind keeps_identifier fun _ _ _ => .pure _ _ _
  · exact .bind (.advance ‹_› rfl rfl) fun _ _ _ => .pure _ _ _
  · exact keeps_constructor hdeep ‹_›
  · exact keeps_parentheses hdeep ‹_›
  · exact keeps_listTerm hdeep ‹_›
  · exact .asks <| .ite (fun hrefl => keeps_refl hrefl) fun _ => .fail
  · exact .ite (fun hliteral => keeps_literal hliteral) fun _ => .fail

theorem keeps_suffixes : (suffixes deep head).Keeps ps n n :=
  .loop (fun _ _ => keeps_suffixRound hdeep) _

theorem keeps_leading : (leading deep).Keeps ps n n := by
  refine .asks ?_
  split
  · exact .bind (.advance ‹_› rfl rfl) fun _ _ _ => .bind (hdeep _ _ _) fun _ _ _ => .pure _ _ _
  · exact .bind (.advance ‹_› rfl rfl) fun _ _ _ => .bind (hdeep _ _ _) fun _ _ _ => .pure _ _ _
  · exact .bind (keeps_operand hdeep) fun _ _ _ => keeps_suffixes hdeep

theorem keeps_juxtaposed? : (juxtaposed? deep head).Keeps ps n n := by
  refine .asks <| .ite (fun hcall => ?_) fun _ => .asks <| .ite (fun hbrace => ?_) fun _ =>
    .asks <| .ite (fun _ => .bind (hdeep _ _ _) fun _ _ _ => .pure _ _ _) fun _ => .pure _ _ _
  · simp only [Bool.and_eq_true, decide_eq_true_eq] at hcall
    exact (keeps_call hdeep hcall.1.1).map _
  · exact (keeps_braces hdeep (of_decide_eq_true hbrace)).map _

include htakes

/-- Behind an operator stands an operand. -/
theorem keeps_operatorRound (min : Level) : (operatorRound deep min head).Keeps ps n n := by
  refine .asks ?_
  cases hop : operator? (Pieces.kind ps) min with
  | none => exact .pure _ _ _
  | some op =>
      intro round rs h
      obtain ⟨_, qs, hadvance, h⟩ := run_bind_eq_some.mp h
      obtain ⟨rhs, us, hrhs, hpure⟩ := run_bind_eq_some.mp h
      cases hpure
      obtain ⟨hpasses, hcalm⟩ := hdeep _ _ n _ _ hrhs
      exact ⟨(passes_operator (infix_of_operator? hop).1 hadvance).trans hpasses,
        .of_lt (advance.suffix hadvance) hcalm (htakes _ _ _ _ hrhs)⟩

theorem keeps_climbRound (min : Level) : (climbRound deep min head).Keeps ps n n := by
  refine .ite (fun _ => .bind (keeps_juxtaposed? hdeep) fun found _ _ => ?_) fun _ =>
    keeps_operatorRound hdeep htakes min
  cases found with
  | none => exact keeps_operatorRound hdeep htakes min
  | some app => exact .pure _ _ _

theorem keeps_expression (min : Level) : (expression deep min).Keeps ps n n :=
  .bind (keeps_leading hdeep) fun _ _ _ => .loop (fun _ _ => keeps_climbRound hdeep htakes min) _

end Keeps

theorem takes_expression (deep : Level → Parser Part) (min : Level) : Takes (expression deep min) :=
  (takes_leading deep).bind _

theorem takes_nested (k : Nat) (min : Level) : Takes (nested k min) := by
  cases k with
  | zero => exact takes_fail
  | succ k => exact takes_expression _ min

theorem keeps_nested (k : Nat) (min : Level) (ps : List Piece) (n : Nat) :
    (nested k min).Keeps ps n n := by
  induction k generalizing min ps n with
  | zero => exact .fail
  | succ k ih => exact keeps_expression ih (takes_nested k) min

theorem takes_expr (min : Level) : Takes (expr min) :=
  fun ps => takes_nested (ps.length + 1) min ps

theorem keeps_expr (min : Level) (ps : List Piece) (n : Nat) : (expr min).Keeps ps n n :=
  keeps_nested (ps.length + 1) min ps n

end Plain

end BendSyntax
