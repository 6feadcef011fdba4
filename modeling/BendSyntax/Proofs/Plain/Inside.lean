import BendSyntax.Proofs.Plain.Brackets

/-! Inside of brackets nothing can be seen of what stands behind them: as long as a bracket is open
that the pieces of a text close, the same is read of these pieces wherever the text goes on. -/

namespace BendSyntax

namespace Pieces

variable {u t : List Piece} {k : TokenKind} {n : Nat}

/-- Only a `>` at the end may be half of a token. -/
theorem joined_append_or (hu : u ≠ []) :
    joined (u ++ t) = joined u ∨
      ∃ p, u = [p] ∧ p.kind = .mark .greater ∧ joined u = false ∧ joined (u ++ t) = true := by
  match u, hu with
  | [p], _ =>
      cases t with
      | nil => exact .inl rfl
      | cons q t =>
          by_cases hjoined : joined (p :: q :: t) = true
          · simp only [joined, Bool.and_eq_true, decide_eq_true_eq] at hjoined
            exact .inr ⟨p, rfl, hjoined.1.1, rfl, by simp [joined, hjoined]⟩
          · exact .inl (Bool.eq_false_iff.mpr hjoined)
  | p :: q :: u, _ => exact .inl rfl

theorem kind_append_or (hu : u ≠ []) :
    kind (u ++ t) = kind u ∨
      ∃ p, u = [p] ∧ kind u = .mark .greater ∧ kind (u ++ t) = .mark .shiftRight := by
  rcases joined_append_or (t := t) hu with h | ⟨p, rfl, hp, -, h⟩
  · obtain ⟨p, u, rfl⟩ := List.exists_cons_of_ne_nil hu
    refine .inl ?_
    simp only [kind, h]
    rfl
  · exact .inr ⟨p, rfl, hp, by simp only [kind, h, if_true]⟩

theorem joined_append (hu : u ≠ []) (hkind : kind u ≠ .mark .greater) : joined (u ++ t) = joined u := by
  rcases joined_append_or (t := t) hu with h | ⟨p, rfl, hp, -⟩
  · exact h
  · exact absurd hp hkind

theorem kind_append (hu : u ≠ []) (hkind : kind u ≠ .mark .greater) : kind (u ++ t) = kind u := by
  rcases kind_append_or (t := t) hu with h | ⟨-, -, h, -⟩
  · exact h
  · exact absurd h hkind

theorem kind_append_eq_iff (hu : u ≠ []) (hwhole : isWhole k = true) :
    kind (u ++ t) = k ↔ kind u = k := by
  rcases kind_append_or (t := t) hu with h | ⟨-, -, h, h'⟩
  · rw [h]
  · rw [h, h']
    constructor <;> rintro rfl <;> cases hwhole

theorem behind_append_of_kind (hu : u ≠ []) (hkind : kind (u ++ t) = kind u) :
    behind (u ++ t) = behind u ++ t := by
  rcases joined_append_or (t := t) hu with h | ⟨p, rfl, hp, hjoined, hjoined'⟩
  · simp only [behind, h]
    match u, hu with
    | [p], _ => simp [joined]
    | p :: q :: u, _ => split <;> rfl
  · unfold kind at hkind
    rw [hjoined, hjoined'] at hkind
    have hp' : TokenKind.mark .shiftRight = p.kind := hkind
    rw [hp] at hp'
    cases hp'

/-- Where a bracket is open, more pieces follow, and the next one is no half of a token of which the
other half stands behind the brackets. -/
theorem ne_of_open (h : walk u (n + 1) = some 0) : u ≠ [] ∧ (kind u = .mark .greater → 1 < u.length) := by
  match u with
  | [] => cases h
  | [p] =>
      refine ⟨List.cons_ne_nil p [], fun hkind => ?_⟩
      have hp : p.kind = .mark .greater := hkind
      simp [walk, hp, opened?] at h
  | p :: q :: u => exact ⟨List.cons_ne_nil p _, fun _ => by simp⟩

theorem joined_of_open (h : walk u (n + 1) = some 0) : joined (u ++ t) = joined u := by
  match u with
  | [] => cases h
  | [p] =>
      refine joined_append (List.cons_ne_nil p []) fun hkind => ?_
      exact absurd ((ne_of_open h).2 hkind) (Nat.lt_irrefl 1)
  | p :: q :: u => rfl

theorem kind_of_open (h : walk u (n + 1) = some 0) : kind (u ++ t) = kind u := by
  obtain ⟨p, v, rfl⟩ := List.exists_cons_of_ne_nil (ne_of_open h).1
  simp only [kind, joined_of_open h]
  rfl

theorem head?_of_open (h : walk u (n + 1) = some 0) : (u ++ t).head? = u.head? := by
  obtain ⟨p, v, rfl⟩ := List.exists_cons_of_ne_nil (ne_of_open h).1
  rfl

theorem behind_of_open (h : walk u (n + 1) = some 0) : behind (u ++ t) = behind u ++ t :=
  behind_append_of_kind (ne_of_open h).1 (kind_of_open h)

/-- A bracket that is opened is closed by what stands behind it. -/
theorem walk_tail {m : Nat} (hkind : kind u = k) (hwhole : isWhole k = true) (h : walk u n = some 0)
    (hopened : opened? k n = some m) : walk u.tail m = some 0 := by
  obtain ⟨p, hu, hp, -⟩ := exists_of_kind hkind hwhole
  rw [hu, walk, hp, hopened] at h
  exact h

theorem tail_append (hu : u ≠ []) : (u ++ t).tail = u.tail ++ t := by
  obtain ⟨p, u, rfl⟩ := List.exists_cons_of_ne_nil hu
  rfl

theorem ne_nil_of_kind (hkind : kind u = k) (hwhole : isWhole k = true) : u ≠ [] := by
  obtain ⟨p, hu, -⟩ := exists_of_kind hkind hwhole
  rw [hu]
  exact List.cons_ne_nil p _

theorem atRefl_append (hu : u ≠ []) (h : walk u n = some 0) : atRefl (u ++ t) = atRefl u := by
  by_cases hbrace : kind u = .mark .leftBrace
  · have hopen := walk_tail hbrace rfl h rfl
    have hfirst := kind_append (t := t) hu (by simp [hbrace])
    simp only [atRefl, hfirst, tail_append hu, kind_of_open hopen]
    by_cases heq : kind u.tail = .mark .eqEq
    · rw [tail_append (ne_of_open hopen).1, kind_of_open (walk_tail heq rfl hopen rfl)]
    · simp [heq]
  · have hfirst : kind (u ++ t) ≠ .mark .leftBrace := by
      rcases kind_append_or (t := t) hu with h | ⟨-, -, -, h⟩
      · rwa [h]
      · simp [h]
    simp [atRefl, hbrace, hfirst]

theorem startsOperand_append (hu : u ≠ []) (h : walk u n = some 0) :
    startsOperand (u ++ t) = startsOperand u := by
  simp only [startsOperand, atRefl_append hu h]
  rcases kind_append_or (t := t) hu with hkind | ⟨-, -, hkind, hkind'⟩
  · rw [hkind]
  · rw [hkind, hkind']
    rfl

end Pieces

open Pieces BendSyntax.Parser
open Reading (Round)

/-- A parser reads the same of `u` wherever the text goes on with `t`. -/
def Parser.Blind {α : Type} (r : Parser α) (u t : List Piece) : Prop :=
  r.run (u ++ t) = (r.run u).map fun x => (x.1, x.2 ++ t)

namespace Parser.Blind

variable {α β : Type} {r : Parser α} {f : α → Parser β} {u t : List Piece} {n : Nat}

theorem pure (a : α) : (Pure.pure a : Parser α).Blind u t := rfl

theorem fail : (Parser.fail : Parser α).Blind u t := rfl

theorem bind (h : r.Blind u t) (hf : ∀ a v, r.run u = some (a, v) → (f a).Blind v t) :
    (r >>= f).Blind u t := by
  unfold Blind at *
  rw [run_bind, run_bind, h]
  cases hr : r.run u with
  | none => rfl
  | some x => exact hf x.1 x.2 hr

theorem asks {g : List Piece → α} (hg : g (u ++ t) = g u) (h : (f (g u)).Blind u t) :
    (asks g >>= f).Blind u t := by
  unfold Blind at *
  rw [run_bind, run_bind, run_asks, run_asks, hg]
  exact h

theorem map (h : r.Blind u t) (g : α → β) : (g <$> r).Blind u t := h.bind fun _ _ _ => .pure _

theorem ite {c : Prop} [Decidable c] {r' : Parser α} (h : c → r.Blind u t)
    (h' : ¬c → r'.Blind u t) : (if c then r else r').Blind u t := by
  split
  · exact h ‹_›
  · exact h' ‹_›

theorem attempt (h : r.Blind u t) : (attempt r).Blind u t := by
  unfold Blind at *
  simp only [Parser.attempt, h]
  cases r.run u <;> rfl

theorem advance (hu : u ≠ []) (hbehind : behind (u ++ t) = behind u ++ t) : advance.Blind u t := by
  obtain ⟨p, u, rfl⟩ := List.exists_cons_of_ne_nil hu
  exact congrArg (fun qs => some ((), qs)) hbehind

theorem advance_whole {k : TokenKind} (hkind : Pieces.kind u = k) (hwhole : isWhole k = true) :
    Parser.advance.Blind u t := by
  refine advance (ne_nil_of_kind hkind hwhole) (behind_append_of_kind (ne_nil_of_kind hkind hwhole)
    (kind_append (ne_nil_of_kind hkind hwhole) ?_))
  rintro hgreater
  rw [← hkind, hgreater] at hwhole
  cases hwhole

theorem behind {k : TokenKind} {g : Unit → Parser β} (hkind : Pieces.kind u = k)
    (hwhole : isWhole k = true) (h : (g ()).Blind u.tail t) : (Parser.advance >>= g).Blind u t := by
  refine .bind (advance_whole hkind hwhole) fun _ v hv => ?_
  rw [run_advance hkind hwhole] at hv
  cases hv
  exact h

/-! ## Where a bracket is open -/

theorem advance_open (hu : walk u (n + 1) = some 0) : Parser.advance.Blind u t :=
  advance (ne_of_open hu).1 (behind_of_open hu)

theorem kind (hu : walk u (n + 1) = some 0) {f : TokenKind → Parser β}
    (h : (f (Pieces.kind u)).Blind u t) : (kind >>= f).Blind u t := asks (kind_of_open hu) h

theorem sees (hu : walk u (n + 1) = some 0) (k : TokenKind) {f : Bool → Parser β}
    (h : (f (decide (Pieces.kind u = k))).Blind u t) : (sees k >>= f).Blind u t :=
  asks (by rw [kind_of_open hu]) h

theorem expect (hu : walk u (n + 1) = some 0) (k : TokenKind) : (expect k).Blind u t :=
  .sees hu k (.ite (fun _ => .advance_open hu) fun _ => .fail)

theorem accept {k : TokenKind} {g : Bool → Parser β} (hu : walk u (n + 1) = some 0)
    (hwhole : isWhole k = true) (hno : (g false).Blind u t)
    (hyes : Pieces.kind u = k → (g true).Blind u.tail t) : (accept k >>= g).Blind u t := by
  by_cases hkind : Pieces.kind u = k
  · have hkind' : Pieces.kind (u ++ t) = k := (kind_of_open hu).trans hkind
    have hrun {ps : List Piece} (hps : Pieces.kind ps = k) :
        (Parser.accept k >>= g).run ps = (g true).run ps.tail := by
      simp only [Parser.accept, Parser.sees, looks, run_bind, run_asks, hps, decide_true, if_true,
        Option.bind_some, run_advance hps hwhole, run_pure]
    unfold Blind
    rw [hrun hkind, hrun hkind', tail_append (ne_of_open hu).1]
    exact hyes hkind
  · have hkind' : Pieces.kind (u ++ t) ≠ k := by rwa [kind_of_open hu]
    have hrun {ps : List Piece} (hps : Pieces.kind ps ≠ k) :
        (Parser.accept k >>= g).run ps = (g false).run ps := by
      simp only [Parser.accept, Parser.sees, looks, run_bind, run_asks, hps, decide_false,
        Bool.false_eq_true, if_false, Option.bind_some, run_pure]
    unfold Blind
    rw [hrun hkind, hrun hkind']
    exact hno

theorem closeAngle (hu : walk u (n + 1) = some 0) : closeAngle.Blind u t := by
  unfold Blind
  simp only [Parser.closeAngle, kind_of_open hu, tail_append (ne_of_open hu).1]
  split <;> rfl

/-- Rounds that leave the same brackets open. -/
theorem loop {step : α → Parser (Round α)} (hkeeps : ∀ a ps, (step a).Keeps ps (n + 1) (n + 1))
    (h : ∀ a v, walk v (n + 1) = some 0 → (step a).Blind v t) (a : α)
    (hu : walk u (n + 1) = some 0) : (loop step a).Blind u t := by
  unfold Blind at *
  change runLoop step a (u ++ t) = (runLoop step a u).map _
  fun_induction runLoop step a u with
  | case1 a u b v hstep =>
      rw [runLoop, h a u hu, hstep]
      rfl
  | case2 a u b v hstep hlt ih =>
      rw [runLoop, h a u hu, hstep]
      have hlt' : (v ++ t).length < (u ++ t).length := by simpa using hlt
      exact (if_pos hlt').trans (ih ((hkeeps a u _ _ hstep).1.walk_eq hu))
  | case3 a u b v hstep hge =>
      rw [runLoop, h a u hu, hstep]
      have hge' : ¬(v ++ t).length < (u ++ t).length := by simpa using hge
      exact if_neg hge'
  | case4 a u hstep =>
      rw [runLoop, h a u hu, hstep]
      rfl

variable (hkeeps : ∀ ps, r.Keeps ps (n + 1) (n + 1))
  (h : ∀ v, walk v (n + 1) = some 0 → r.Blind v t)
include hkeeps h

theorem commaRound (acc : List α) (hu : walk u (n + 1) = some 0) :
    (commaRound r acc).Blind u t :=
  .bind (h u hu) fun _ _ hv => .accept ((hkeeps u _ _ hv).1.walk_eq hu) rfl (.pure _) fun _ => .pure _

theorem commaList (hu : walk u (n + 1) = some 0) : (commaList r).Blind u t :=
  .loop (.commaRound hkeeps) (fun acc _ hv => commaRound hkeeps h acc hv) _ hu

theorem separated (bracket : TokenKind) (hu : walk u (n + 1) = some 0) :
    (separated bracket r).Blind u t :=
  .loop (.separatedRound hkeeps bracket) (fun acc _ hv => .sees hv bracket <|
    .ite (fun _ => .pure _) fun _ => commaRound hkeeps h acc hv) _ hu

end Parser.Blind

namespace Plain

theorem blind_refl {u t : List Piece} (h : atRefl u = true) : refl.Blind u t := by
  simp only [atRefl, Bool.and_eq_true, decide_eq_true_eq] at h
  exact .behind h.1.1 rfl <| .behind h.1.2 rfl <| .behind h.2 rfl <| .pure _

theorem blind_listSuffix {u t : List Piece} {n : Nat} (hkind : Pieces.kind u = .mark .leftBracket)
    (hu : walk u n = some 0) : listSuffix.Blind u t := by
  have hopen := walk_tail hkind rfl hu rfl
  refine .asks (by rw [tail_append (ne_nil_of_kind hkind rfl), kind_of_open hopen]) <|
    .ite (fun _ => .behind hkind rfl (.advance_open hopen)) fun _ => .fail

theorem blind_literal {u t : List Piece} (h : Grammar.isLiteral (Pieces.kind u) = true) :
    (literal (Pieces.kind u)).Blind u t := by
  have hwhole := isWhole_of_isLiteral h
  obtain ⟨p, hu, -⟩ := exists_of_kind rfl hwhole
  refine .asks (by rw [hu]; rfl) ?_
  split
  · exact .behind rfl hwhole (.pure _)
  · exact .fail

section Blind

variable {deep : Level → Parser Part} {head : Part} {u t : List Piece} {n : Nat}
  (hkeeps : ∀ min ps n, (deep min).Keeps ps n n)
  (h : ∀ min v n, walk v (n + 1) = some 0 → (deep min).Blind v t)
include hkeeps h

theorem blind_callArgs (hu : walk u (n + 1) = some 0) : (callArgs deep).Blind u t := by
  have hinner (ps : List Piece) : (inner deep).Keeps ps (n + 1) (n + 1) := keeps_inner hkeeps
  refine .bind (.separated hinner (fun v hv => (h _ v n hv).map _) _ hu) fun args v hv =>
    .bind (.expect ((Keeps.separated hinner _ _ _ hv).1.walk_eq hu) _) fun _ _ _ => .pure _

theorem blind_call (hkind : Pieces.kind u = .mark .leftParen) (hu : walk u n = some 0) :
    (call deep head).Blind u t :=
  .behind hkind rfl <| .bind (blind_callArgs hkeeps h (walk_tail hkind rfl hu rfl)) fun _ _ _ =>
    .pure _

theorem blind_implicitArgs (hkind : Pieces.kind u = .mark .leftBrace) (hu : walk u n = some 0) :
    (implicitArgs deep).Blind u t := by
  have hopen := walk_tail hkind rfl hu rfl
  have hinner (ps : List Piece) : (inner deep).Keeps ps (n + 1) (n + 1) := keeps_inner hkeeps
  exact .behind hkind rfl <| .bind (.separated hinner (fun v hv => (h _ v n hv).map _) _ hopen)
    fun _ _ hv => .bind (.expect ((Keeps.separated hinner _ _ _ hv).1.walk_eq hopen) _)
      fun _ _ _ => .pure _

theorem blind_equality (hkind : Pieces.kind u = .mark .leftBrace) (hu : walk u n = some 0) :
    (equality deep).Blind u t := by
  have hopen := walk_tail hkind rfl hu rfl
  refine .behind hkind rfl <| .bind (h _ _ n hopen) fun _ v hv => ?_
  have hv' := (hkeeps _ _ _ _ _ hv).1.walk_eq hopen
  refine .kind hv' ?_
  cases hnegated : Grammar.negated? (Pieces.kind v) with
  | none => exact .fail
  | some negated =>
      refine .bind (.advance_open hv') fun _ w hw => ?_
      have hw' := ((keeps_negated hnegated (n + 1)) _ _ hw).1.walk_eq hv'
      exact .bind (h _ _ n hw') fun _ _ hx =>
        .bind (.expect ((hkeeps _ _ _ _ _ hx).1.walk_eq hw') _) fun _ _ _ => .pure _

theorem blind_braces (hkind : Pieces.kind u = .mark .leftBrace) (hu : walk u n = some 0) :
    (braces deep head).Blind u t := by
  refine .asks (atRefl_append (ne_nil_of_kind hkind rfl) hu) <| .ite
    (fun hrefl => .bind (blind_refl hrefl) fun _ _ _ => .pure _) fun _ =>
      .bind (blind_equality hkeeps h hkind hu).attempt fun found v hfound => ?_
  cases found with
  | some sides => exact .pure _
  | none =>
      obtain ⟨-, rfl⟩ := eq_of_attempt_none hfound
      exact .bind (blind_implicitArgs hkeeps h hkind hu) fun _ _ _ => .pure _

theorem blind_valueArgs? (hu : walk u (n + 1) = some 0) : (valueArgs? deep).Blind u t := by
  refine .asks (by simp only [kind_of_open hu, tight, head?_of_open hu]) <| .ite (fun hparen => ?_)
    fun _ => .asks (startsOperand_append (ne_of_open hu).1 hu) <|
      .ite (fun _ => .fail) fun _ => .pure _
  simp only [Bool.and_eq_true, decide_eq_true_eq] at hparen
  exact .behind hparen.1 rfl <|
    (blind_callArgs hkeeps h (walk_tail hparen.1 rfl hu rfl)).map _

theorem blind_genericArgs (hkind : Pieces.kind u = .mark .less) (hu : walk u (n + 1) = some 0) :
    (genericArgs deep).Blind u t := by
  have hopen := walk_tail hkind rfl hu rfl
  have hitem (ps : List Piece) : ((·.dump) <$> deep Level.additive).Keeps ps (n + 1) (n + 1) :=
    (hkeeps _ ps _).map _
  refine .bind (.behind hkind rfl <| .bind (.commaList hitem (fun v hv => (h _ v n hv).map _) hopen)
    fun _ _ hv => .bind (.closeAngle ((Keeps.commaList hitem _ _ hv).1.walk_eq hopen))
      fun _ _ _ => .pure _) fun args v hargs => ?_
  have hv := (passes_typeArgs hkeeps hkind hargs).walk_eq hu
  exact .bind (blind_valueArgs? hkeeps h hv) fun _ _ _ => .pure _

theorem blind_suffixRound (hu : walk u (n + 1) = some 0) : (suffixRound deep head).Blind u t := by
  refine .asks (by simp only [tight, head?_of_open hu]) <| .ite (fun _ => .pure _) fun _ =>
    .kind hu ?_
  split
  · exact (blind_call hkeeps h ‹_› hu).map _
  · refine .ite (fun _ => .bind (blind_genericArgs hkeeps h ‹_› hu).attempt fun found _ _ => ?_)
      fun _ => .pure _
    cases found <;> exact .pure _
  · refine .bind (blind_listSuffix ‹_› hu).attempt fun found _ _ => ?_
    cases found <;> exact .pure _
  · exact (blind_braces hkeeps h ‹_› hu).map _
  · exact .pure _

theorem blind_constructor (hkind : Pieces.kind u = .mark .atSign) (hu : walk u (n + 1) = some 0) :
    (constructor deep).Blind u t := by
  have hopen := walk_tail hkind rfl hu rfl
  refine .behind hkind rfl <| .bind (.asks (by simp only [lexeme, head?_of_open hopen]) <|
    .bind (.expect hopen _) fun _ _ _ => .pure _) fun name v hname => ?_
  have hv := (keeps_identifier (n := n + 1) _ _ hname).1.walk_eq hopen
  exact .sees hv _ <| .ite
    (fun hbrace => .bind (blind_implicitArgs hkeeps h (of_decide_eq_true hbrace) hv)
      fun _ _ _ => .pure _) fun _ => .pure _

theorem blind_parentheses (hkind : Pieces.kind u = .mark .leftParen) (hu : walk u n = some 0) :
    (parentheses deep).Blind u t := by
  have hopen := walk_tail hkind rfl hu rfl
  refine .behind hkind rfl <| .accept hopen rfl (.bind (h _ _ n hopen) fun first v hv => ?_) fun _ =>
    .pure _
  have hv' := (hkeeps _ _ _ _ _ hv).1.walk_eq hopen
  exact .accept hv' rfl (.bind (.expect hv' _) fun _ _ _ => .pure _) fun hcomma =>
    .bind (blind_callArgs hkeeps h (walk_tail hcomma rfl hv' rfl)) fun _ _ _ => .pure _

theorem blind_listTerm (hkind : Pieces.kind u = .mark .leftBracket) (hu : walk u n = some 0) :
    (listTerm deep).Blind u t := by
  have hopen := walk_tail hkind rfl hu rfl
  have hinner (ps : List Piece) : (inner deep).Keeps ps (n + 1) (n + 1) := keeps_inner hkeeps
  exact .behind hkind rfl <| .accept hopen rfl
    (.bind (.separated hinner (fun v hv => (h _ v n hv).map _) _ hopen) fun _ _ hv =>
      .bind (.expect ((Keeps.separated hinner _ _ _ hv).1.walk_eq hopen) _) fun _ _ _ => .pure _)
    fun _ => .pure _

theorem blind_operand (hu : walk u (n + 1) = some 0) : (operand deep).Blind u t := by
  refine .kind hu ?_
  split
  · exact .bind (.asks (by simp only [lexeme, head?_of_open hu]) <|
      .bind (.expect hu _) fun _ _ _ => .pure _) fun _ _ _ => .pure _
  · exact .behind ‹_› rfl (.pure _)
  · exact blind_constructor hkeeps h ‹_› hu
  · exact blind_parentheses hkeeps h ‹_› hu
  · exact blind_listTerm hkeeps h ‹_› hu
  · exact .asks (atRefl_append (ne_of_open hu).1 hu) <|
      .ite (fun hrefl => blind_refl hrefl) fun _ => .fail
  · exact .ite (fun hliteral => blind_literal hliteral) fun _ => .fail

theorem blind_leading (hu : walk u (n + 1) = some 0) : (leading deep).Blind u t := by
  refine .kind hu ?_
  split
  · exact .behind ‹_› rfl <| .bind (h _ _ n (walk_tail ‹_› rfl hu rfl)) fun _ _ _ => .pure _
  · exact .behind ‹_› rfl <| .bind (h _ _ n (walk_tail ‹_› rfl hu rfl)) fun _ _ _ => .pure _
  · exact .bind (blind_operand hkeeps h hu) fun head v hv =>
      .loop (fun _ _ => keeps_suffixRound hkeeps) (fun _ _ hw => blind_suffixRound hkeeps h hw) head
        ((keeps_operand hkeeps _ _ hv).1.walk_eq hu)

theorem blind_juxtaposed? (hu : walk u (n + 1) = some 0) : (juxtaposed? deep head).Blind u t := by
  refine .asks (by simp only [kind_of_open hu, tight, head?_of_open hu]) <| .ite (fun hcall => ?_)
    fun _ => .sees hu _ <| .ite (fun hbrace => ?_) fun _ => .asks (by rw [kind_of_open hu]) <|
      .ite (fun _ => .bind (h _ _ n hu) fun _ _ _ => .pure _) fun _ => .pure _
  · simp only [Bool.and_eq_true, decide_eq_true_eq] at hcall
    exact (blind_call hkeeps h hcall.1.1 hu).map _
  · exact (blind_braces hkeeps h (of_decide_eq_true hbrace) hu).map _

omit hkeeps in
theorem blind_operatorRound (min : Level) (hu : walk u (n + 1) = some 0) :
    (operatorRound deep min head).Blind u t := by
  refine .kind hu ?_
  cases hop : operator? (Pieces.kind u) min with
  | none => exact .pure _
  | some op =>
      exact .bind (.advance_open hu) fun _ v hv =>
        .bind (h _ _ n ((passes_operator (infix_of_operator? hop).1 hv).walk_eq hu)) fun _ _ _ =>
          .pure _

theorem blind_climbRound (min : Level) (hu : walk u (n + 1) = some 0) :
    (climbRound deep min head).Blind u t := by
  refine .ite (fun _ => .bind (blind_juxtaposed? hkeeps h hu) fun found v hv => ?_) fun _ =>
    blind_operatorRound h min hu
  cases found with
  | none => exact blind_operatorRound h min ((keeps_juxtaposed? hkeeps _ _ hv).1.walk_eq hu)
  | some app => exact .pure _

theorem blind_expression (htakes : ∀ min, (deep min).Takes) (min : Level)
    (hu : walk u (n + 1) = some 0) : (expression deep min).Blind u t :=
  .bind (blind_leading hkeeps h hu) fun lhs _ hv =>
    .loop (fun _ _ => keeps_climbRound hkeeps htakes min)
      (fun _ _ hw => blind_climbRound hkeeps h min hw) lhs ((keeps_leading hkeeps _ _ hv).1.walk_eq hu)

end Blind

theorem blind_nested (k : Nat) (min : Level) {u t : List Piece} {n : Nat}
    (hu : walk u (n + 1) = some 0) : (nested k min).Blind u t := by
  induction k generalizing min u n with
  | zero => exact .fail
  | succ k ih =>
      exact blind_expression (keeps_nested k) (fun min v n hv => ih min hv) (takes_nested k) min hu

end Plain

end BendSyntax
