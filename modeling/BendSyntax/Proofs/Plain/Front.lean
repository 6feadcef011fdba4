import BendSyntax.Proofs.Plain.Cut

/-! What is read of the front of a text is read of the front alone: as far as an expression has come
in front of a cut, it comes there if the text ends at the cut. -/

namespace BendSyntax

open Pieces BendSyntax.Parser
open Reading (Round)

/-- What is read of `u` in front of `t` is read of `u` alone. -/
def Parser.Fronts {α : Type} (r : Parser α) (u t : List Piece) : Prop :=
  ∀ a q, r.run (u ++ t) = some (a, q ++ t) → r.run u = some (a, q)

namespace Parser

variable {α β : Type} {r : Parser α} {f : α → Parser β} {u t : List Piece}

theorem Blind.fronts (h : r.Blind u t) : r.Fronts u t := by
  intro a q hr
  rw [h] at hr
  obtain ⟨⟨b, v⟩, hv, heq⟩ := Option.map_eq_some_iff.mp hr
  obtain ⟨rfl, hvq⟩ := Prod.mk.inj heq
  obtain rfl : v = q := List.append_cancel_right hvq
  exact hv

/-- What takes something does not leave off at the cut where it begins. -/
theorem Takes.fronts_nil (h : Takes r) : r.Fronts [] t := by
  intro a q hr
  have hlt := h _ _ _ hr
  rw [List.nil_append, List.length_append] at hlt
  exact absurd hlt (Nat.not_lt_of_le (Nat.le_add_left _ _))

theorem Fronts.bind (hu : Settled u t) (hkeeps : r.Keeps u 0 0) (h : r.Fronts u t)
    (hf : ∀ a v, r.run u = some (a, v) → Settled v t → (f a).Fronts v t) :
    (r >>= f).Fronts u t := by
  intro b q hrun
  obtain ⟨a, ps, hr, hb⟩ := run_bind_eq_some.mp hrun
  obtain ⟨v, rfl, -, -⟩ := exists_of_suffix (r.suffix hr) ((f a).suffix hb)
  have hv := h a v hr
  exact run_bind_eq_some.mpr ⟨a, v, hv, hf a v hv (hu.of_passes (hkeeps a v hv).1) b q hb⟩

theorem Fronts.asks {g : List Piece → α} (hg : g (u ++ t) = g u) (h : (f (g u)).Fronts u t) :
    (Parser.asks g >>= f).Fronts u t := by
  intro b q hrun
  rw [run_asks_bind, hg] at hrun
  exact h b q hrun

theorem Fronts.map (h : r.Fronts u t) (g : α → β) : (g <$> r).Fronts u t := by
  intro b q hrun
  obtain ⟨a, ps, hr, hpure⟩ := run_bind_eq_some.mp hrun
  cases hpure
  exact run_bind_eq_some.mpr ⟨a, q, h a q hr, rfl⟩

theorem Fronts.loop {step : α → Parser (Round α)} (hkeeps : ∀ a ps, (step a).Keeps ps 0 0)
    (h : ∀ a v, Settled v t → (step a).Fronts v t) (a : α) (hu : Settled u t) :
    (loop step a).Fronts u t := by
  intro b q hrun
  change runLoop step a (u ++ t) = some (b, q ++ t) at hrun
  generalize hps : u ++ t = ps at hrun
  fun_induction runLoop step a ps generalizing u with
  | case1 a ps b qs hstep =>
      subst hps
      cases hrun
      exact run_loop_done (h a u hu _ _ hstep)
  | case2 a ps b qs hstep hlt ih =>
      subst hps
      obtain ⟨v, rfl, -, -⟩ := exists_of_suffix ((step a).suffix hstep) (suffix_runLoop hrun)
      have hv := h a u hu _ _ hstep
      exact (run_loop_more hv (by simpa using hlt)).trans
        (ih (hu.of_passes (hkeeps a u _ _ hv).1) rfl hrun)
  | case3 a ps b qs hstep hge =>
      subst hps
      cases hrun
      have hv := h a u hu _ _ hstep
      rw [run_loop, hv]
      exact if_neg (by simpa using hge)
  | case4 a ps hstep => cases hrun

end Parser

/-- A `>` that is half of a `>>` is taken together with the other half. -/
theorem Parser.length_of_advance_shiftRight {p : Piece} {ps qs : List Piece}
    (hp : p.kind = .mark .greater) (hkind : Pieces.kind (p :: ps) = .mark .shiftRight)
    (h : advance.run (p :: ps) = some ((), qs)) : qs.length < ps.length := by
  cases h
  unfold Pieces.kind at hkind
  unfold behind
  split_ifs at hkind ⊢ with hjoined
  · cases ps with
    | nil => cases hjoined
    | cons q ps => exact Nat.lt_succ_self _
  · have hp' : p.kind = .mark .shiftRight := hkind
    rw [hp] at hp'
    cases hp'

/-- Behind the cut less is left than in front of it. -/
theorem Pieces.tail_ne_append {q t : List Piece} (h : t ≠ []) : t.tail ≠ q ++ t := by
  intro heq
  have hlength := congrArg List.length heq
  have hpos := List.length_pos_iff.mpr h
  rw [List.length_tail, List.length_append] at hlength
  omega

namespace Plain

theorem Applies.append {func : Part} {u : List Piece} (h : Applies u func) (hne : u ≠ [])
    {t : List Piece} : Applies (u ++ t) func := by
  have htight : tight (u ++ t) = tight u := by
    obtain ⟨p, u, rfl⟩ := List.exists_cons_of_ne_nil hne
    rfl
  have hkind : Pieces.kind (u ++ t) = Pieces.kind u := by
    refine kind_append hne fun hgreater => ?_
    have hopens := h.opens
    rw [hgreater] at hopens
    cases hopens
  exact ⟨by rw [hkind, htight]; exact h.call, by rw [hkind]; exact h.brace, by rw [hkind]; exact h.opens⟩

/-- A `>` binds less tightly than a `>>`. -/
theorem operator?_greater {min : Level} (h : operator? (.mark .shiftRight) min = none) :
    operator? (.mark .greater) min = none := by
  have hlt : Level.shift < min := by
    by_cases hlt : Level.shift < min
    · exact hlt
    · cases (if_neg hlt).symm.trans h
  exact if_pos (Nat.lt_trans (show Level.comparison < Level.shift by decide) hlt)

theorem fronts_closeAngle (u t : List Piece) : closeAngle.Fronts u t := by
  intro a q h
  simp only [closeAngle] at h ⊢
  split at h
  · rename_i hangle
    obtain ⟨-, hq⟩ := Prod.mk.inj (Option.some.inj h)
    by_cases hne : u = []
    · subst hne
      refine absurd hq (tail_ne_append ?_)
      rintro rfl
      rcases hangle with h | h <;> cases h
    · rw [tail_append hne] at hq
      rw [List.append_cancel_right hq]
      rcases kind_append_or (t := t) hne with hsame | ⟨-, -, hgreater, -⟩
      · rw [hsame] at hangle
        rw [if_pos hangle]
      · rw [if_pos (.inl hgreater)]
  · cases h

theorem fronts_accept {k : TokenKind} (hwhole : isWhole k = true) (u t : List Piece) :
    (accept k).Fronts u t := by
  intro seen q h
  rw [run_accept hwhole] at h ⊢
  by_cases hne : u = []
  · subst hne
    split at h
    · obtain ⟨-, hq⟩ := Prod.mk.inj (Option.some.inj h)
      exact absurd hq (tail_ne_append (ne_nil_of_kind ‹_› hwhole))
    · obtain ⟨rfl, hq⟩ := Prod.mk.inj (Option.some.inj h)
      obtain rfl : q = [] := by simpa using hq
      rw [if_neg]
      intro heof
      subst heof
      cases hwhole
  · simp only [kind_append_eq_iff hne hwhole] at h
    split at h
    · rw [tail_append hne] at h
      obtain ⟨rfl, hq⟩ := Prod.mk.inj (Option.some.inj h)
      rw [if_pos ‹_›, List.append_cancel_right hq]
    · obtain ⟨rfl, hq⟩ := Prod.mk.inj (Option.some.inj h)
      rw [if_neg ‹_›, List.append_cancel_right hq]

theorem fronts_identifier (u t : List Piece) : identifier.Fronts u t := by
  by_cases hne : u = []
  · subst hne
    exact takes_identifier.fronts_nil
  · intro name q h
    have hkind := (kind_append_eq_iff hne rfl).mp (kind_of_identifier h).1
    exact (blind_identifier hkind).fronts name q h

section Fronts

variable {deep : Level → Parser Part} {head : Part} {u v t : List Piece}
  (hkeeps : ∀ min ps n, (deep min).Keeps ps n n)
  (hblind : ∀ min v n, walk v (n + 1) = some 0 → (deep min).Blind v t)
  (hext : ∀ min u a v, Level.additive ≤ min → walk u 0 = some 0 →
    (deep min).run u = some (a, v) → Barred v → (deep min).run (u ++ t) = some (a, v ++ t))
  (htakes : ∀ min, (deep min).Takes)
  (hfront : ∀ min u, Settled u t → (deep min).Fronts u t)

include hkeeps hfront

theorem fronts_commaList {min : Level} (acc : List String) (hu : Settled u t) :
    (loop (commaRound ((·.dump) <$> deep min)) acc).Fronts u t := by
  have hitem (ps : List Piece) : ((·.dump) <$> deep min).Keeps ps 0 0 := (hkeeps min ps 0).map _
  refine .loop (.commaRound hitem) (fun acc v hv => ?_) acc hu
  refine .bind hv (hitem v) ((hfront min v hv).map _) fun a w _ _ => ?_
  intro round q h
  obtain ⟨seen, ps, hseen, h⟩ := run_bind_eq_some.mp h
  obtain rfl : ps = q ++ t := by
    cases seen <;> cases h <;> rfl
  refine run_bind_eq_some.mpr ⟨seen, q, fronts_accept rfl w t seen q hseen, ?_⟩
  cases seen <;> cases h <;> rfl

include hkeeps

theorem fronts_typeArgs (hkind : Pieces.kind u = .mark .less) (hu : Settled u t) :
    (typeArgs deep).Fronts u t := by
  have hitem (ps : List Piece) : ((·.dump) <$> deep Level.additive).Keeps ps 0 0 :=
    (hkeeps _ ps 0).map _
  refine .bind hu (.advance hkind rfl rfl) (Blind.advance_whole hkind rfl).fronts fun _ v _ hv =>
    .bind hv (.commaList hitem) (fronts_commaList hkeeps hfront [] hv) fun args w _ hw => ?_
  intro l q h
  obtain ⟨_, ps, hclose, hpure⟩ := run_bind_eq_some.mp h
  cases hpure
  exact run_bind_eq_some.mpr ⟨(), q, fronts_closeAngle w t () q hclose, rfl⟩

include hblind

omit hfront in
theorem fronts_valueArgs? (hu : Settled u t) : (valueArgs? deep).Fronts u t := by
  by_cases hne : u = []
  · subst hne
    intro values q h
    obtain ⟨_, _, ⟨⟩, h⟩ := run_bind_eq_some.mp h
    split at h
    · have hlt := takes_advance.bind _ _ _ _ h
      rw [List.nil_append, List.length_append] at hlt
      omega
    · obtain ⟨_, _, ⟨⟩, h⟩ := run_bind_eq_some.mp h
      split at h
      · cases h
      · obtain ⟨rfl, hq⟩ := Prod.mk.inj (Option.some.inj h)
        obtain rfl : q = [] := by simpa using hq
        rfl
  · exact (blind_valueArgs?_of_ne hkeeps hblind hne hu.walk).fronts

theorem fronts_genericArgs (hkind : Pieces.kind u = .mark .less) (hu : Settled u t) :
    (genericArgs deep).Fronts u t := by
  intro args q h
  obtain ⟨types, ps, htypes, h⟩ := run_bind_eq_some.mp h
  obtain ⟨values, ps', hvalues, hpure⟩ := run_bind_eq_some.mp h
  cases hpure
  obtain ⟨v, rfl, -, -⟩ := exists_of_suffix (Parser.suffix _ htypes) (Parser.suffix _ hvalues)
  have hv := fronts_typeArgs hkeeps hfront hkind hu _ _ htypes
  have hsettled := hu.of_passes (passes_typeArgs hkeeps hkind hv)
  exact run_bind_eq_some.mpr ⟨types, v, hv, run_bind_eq_some.mpr
    ⟨values, q, fronts_valueArgs? hkeeps hblind hsettled _ _ hvalues, rfl⟩⟩

include hext

/-- Type arguments in front of a cut at which the whole text is not over yet are accepted or
declined whatever stands behind the cut. -/
theorem blind_genericArgs_of_front (hkind : Pieces.kind u = .mark .less) (hu : Settled u t)
    (hfull : ∀ args ps, (genericArgs deep).run (u ++ t) = some (args, ps) → t <:+ ps) :
    (genericArgs deep).Blind u t := by
  unfold Blind
  cases hrun : (genericArgs deep).run (u ++ t) with
  | some x =>
      obtain ⟨q, hq⟩ := hfull x.1 x.2 hrun
      have hrun' : (genericArgs deep).run (u ++ t) = some (x.1, q ++ t) := by
        rw [hrun, hq]
      rw [fronts_genericArgs hkeeps hblind hfront hkind hu _ _ hrun', Option.map_some, hq]
  | none =>
      cases hrun' : (genericArgs deep).run u with
      | none => rfl
      | some x =>
          rw [genericArgs_append hkeeps hblind hext hkind hu.walk hrun' (.inr hu.closed)] at hrun
          cases hrun

theorem fronts_suffixRound (hu : Settled u t) : (suffixRound deep head).Fronts u t := by
  intro round q h
  by_cases hne : u = []
  · subst hne
    obtain ⟨rfl, hq⟩ | ⟨-, hlt⟩ := rounds_suffixRound deep head _ _ _ h
    · obtain rfl : q = [] := by simpa using hq
      rfl
    · rw [List.nil_append, List.length_append] at hlt
      omega
  · refine (blind_suffixRound_of hkeeps hblind hne hu.walk fun htight hless hbare => ?_).fronts _ _ h
    refine blind_genericArgs_of_front hkeeps hblind hext hfront hless hu fun args ps hargs => ?_
    have htight' : tight (u ++ t) = true := by
      obtain ⟨p, u, rfl⟩ := List.exists_cons_of_ne_nil hne
      exact htight
    have hless' := (kind_append_eq_iff (t := t) hne rfl).mpr hless
    rw [run_suffixRound_less htight' hless' hbare, hargs] at h
    cases h
    exact List.suffix_append q t

omit hext hfront in
theorem fronts_constructor (hkind : Pieces.kind u = .mark .atSign) (hu : Settled u t) :
    (constructor deep).Fronts u t := by
  refine .bind hu (.advance hkind rfl rfl) (Blind.advance_whole hkind rfl).fronts fun _ v _ hv =>
    .bind hv keeps_identifier (fronts_identifier v t) fun name w _ hw => ?_
  by_cases hne : w = []
  · subst hne
    intro a q h
    rw [sees, looks, run_asks_bind] at h
    split at h
    · have hlt := (takes_advance.bind _).bind _ _ _ _ h
      rw [List.nil_append, List.length_append] at hlt
      omega
    · obtain ⟨rfl, hq⟩ := Prod.mk.inj (Option.some.inj h)
      obtain rfl : q = [] := by simpa using hq
      rfl
  · refine Blind.fronts (.asks ?_ <| .ite (fun hbrace => .bind
      (blind_implicitArgs hkeeps hblind (of_decide_eq_true hbrace) hw.walk) fun _ _ _ => .pure _)
        fun _ => .pure _)
    simp only [kind_append_eq_iff hne (k := .mark .leftBrace) rfl]

omit hext hfront in
theorem fronts_operand (hu : Settled u t) : (operand deep).Fronts u t := by
  by_cases hne : u = []
  · subst hne
    exact (takes_operand deep).fronts_nil
  · by_cases hkind : Pieces.kind u = .mark .atSign
    · have hrun {ps : List Piece} (hps : Pieces.kind ps = .mark .atSign) :
          (operand deep).run ps = (constructor deep).run ps := by
        simp only [operand, Parser.kind, run_bind, run_asks, Option.bind_some, hps]
      intro a q h
      rw [hrun ((kind_append_eq_iff hne rfl).mpr hkind)] at h
      rw [hrun hkind]
      exact fronts_constructor hkeeps hblind hkind hu a q h
    · exact (blind_operand_of_ne hkeeps hblind hkind hne hu.walk).fronts

theorem fronts_suffixes (hu : Settled u t) : (suffixes deep head).Fronts u t :=
  .loop (fun _ _ => keeps_suffixRound hkeeps)
    (fun _ _ hv => fronts_suffixRound hkeeps hblind hext hfront hv) head hu

omit hkeeps hblind hext in
theorem fronts_signed {k : TokenKind} (hkind : Pieces.kind u = k) (hwhole : isWhole k = true)
    (hopened : opened? k 0 = some 0) (hu : Settled u t) (op : UnaryOp) :
    (signed deep op).Fronts u t :=
  .bind hu (.advance hkind hwhole hopened) (Blind.advance_whole hkind hwhole).fronts fun _ v _ hv =>
    (hfront _ v hv).map fun arg => part (.op1 op arg.dump)

theorem fronts_leading (hu : Settled u t) : (leading deep).Fronts u t := by
  have hoperand : (operand deep >>= suffixes deep).Fronts u t :=
    .bind hu (keeps_operand hkeeps) (fronts_operand hkeeps hblind hu) fun _ _ _ hv =>
      fronts_suffixes hkeeps hblind hext hfront hv
  by_cases hne : u = []
  · subst hne
    exact (takes_leading deep).fronts_nil
  · rcases kind_append_or (t := t) hne with hsame | ⟨-, -, hgreater, hshift⟩
    · refine .asks hsame ?_
      split
      · exact fronts_signed hfront ‹_› rfl rfl hu _
      · exact fronts_signed hfront ‹_› rfl rfl hu _
      · exact hoperand
    · intro a q h
      rw [leading, Parser.kind, run_asks_bind] at h ⊢
      rw [hshift] at h
      rw [hgreater]
      exact hoperand a q h

include htakes

omit hext in
theorem fronts_juxtaposed? (hu : Settled u t) : (juxtaposed? deep head).Fronts u t := by
  intro found q h
  by_cases hne : u = []
  · subst hne
    obtain ⟨rfl, hq⟩ | ⟨-, hlt⟩ := juxtaposed?_cases htakes h
    · obtain rfl : q = [] := by simpa using hq
      rfl
    · rw [List.nil_append, List.length_append] at hlt
      omega
  · refine (blind_juxtaposed?_of hkeeps hblind hne hu.walk fun happlies => ?_).fronts found q h
    obtain ⟨-, arg, harg⟩ := arg_of_juxtaposed? (happlies.append hne) h
    unfold Blind
    rw [harg, hfront _ u hu _ _ harg]
    rfl

omit hkeeps hblind hext htakes in
theorem fronts_operatorRound (min : Level) (hu : Settled u t) :
    (operatorRound deep min head).Fronts u t := by
  intro round q h
  by_cases hne : u = []
  · subst hne
    obtain ⟨rfl, hq⟩ | ⟨-, hlt⟩ := rounds_operatorRound deep min head _ _ _ h
    · obtain rfl : q = [] := by simpa using hq
      rfl
    · rw [List.nil_append, List.length_append] at hlt
      omega
  · rcases kind_append_or (t := t) hne with hsame | ⟨p, rfl, hgreater, hshift⟩
    · refine (blind_operatorRound_of hne hsame fun op v hop hadvance => ?_).fronts round q h
      have hadvance' : advance.run (u ++ t) = some ((), v ++ t) :=
        (Blind.advance hne (behind_append_of_kind hne hsame)).run_append hadvance
      rw [← hsame] at hop
      obtain ⟨rhs, hrhs⟩ := rhs_of_operatorRound hop hadvance' h
      rw [hsame] at hop
      have hv := hu.of_passes (passes_operator (infix_of_operator? hop).1 hadvance)
      unfold Blind
      rw [hrhs, hfront _ v hv _ _ hrhs]
      rfl
    · rw [operatorRound, Parser.kind, run_asks_bind] at h ⊢
      rw [hgreater]
      rw [hshift] at h
      cases hop : operator? (.mark .shiftRight) min with
      | none =>
          rw [hop] at h
          obtain ⟨rfl, hq⟩ := Prod.mk.inj (Option.some.inj h)
          rw [operator?_greater hop, List.append_cancel_right hq]
          rfl
      | some op =>
          -- a `>>` that is taken ends behind the cut
          rw [hop] at h
          obtain ⟨_, ps, hadvance, h⟩ := run_bind_eq_some.mp h
          obtain ⟨rhs, qs, hrhs, hpure⟩ := run_bind_eq_some.mp h
          cases hpure
          have hps := length_of_advance_shiftRight hgreater hshift hadvance
          refine absurd (Nat.lt_of_le_of_lt (Parser.suffix _ hrhs).length_le hps) ?_
          simp

omit hext in
theorem fronts_climbRound (min : Level) (hu : Settled u t) : (climbRound deep min head).Fronts u t := by
  unfold climbRound
  split
  · refine .bind hu (keeps_juxtaposed? hkeeps)
      (fronts_juxtaposed? hkeeps hblind htakes hfront hu) fun found v _ hv => ?_
    cases found with
    | none => exact fronts_operatorRound hfront min hv
    | some app => exact Blind.fronts (.pure _)
  · exact fronts_operatorRound hfront min hu

theorem fronts_expression (min : Level) (hu : Settled u t) : (expression deep min).Fronts u t :=
  .bind hu (keeps_leading hkeeps) (fronts_leading hkeeps hblind hext hfront hu) fun lhs _ _ hv =>
    .loop (fun _ _ => keeps_climbRound hkeeps htakes min)
      (fun _ _ hw => fronts_climbRound hkeeps hblind htakes hfront min hw) lhs hv

end Fronts

theorem fronts_nested (k : Nat) (min : Level) {u t : List Piece} (hu : Settled u t) :
    (nested k min).Fronts u t := by
  induction k generalizing min u with
  | zero => exact Blind.fronts .fail
  | succ k ih =>
      exact fronts_expression (keeps_nested k) (fun min _ _ hv => blind_nested k min hv)
        (fun _ _ _ _ hmin hu h hv => nested_append k hmin hu h hv) (takes_nested k)
        (fun min _ hu => ih min hu) min hu

/-! ## Expressions -/

/-- An expression is nested less deeply than a longer text might be. -/
theorem run_expr_eq_nested {k : Nat} (min : Level) {ps : List Piece} (h : ps.length ≤ k) :
    (expr min).run ps = (nested (k + 1) min).run ps :=
  below_nested (Nat.le_refl _) (Nat.succ_le_succ h) min ps (Nat.lt_succ_self _)

section Expressions

variable {min : Level} {u v t : List Piece}

theorem blind_expr {n : Nat} (hu : walk u (n + 1) = some 0) : (expr min).Blind u t := by
  unfold Blind
  rw [run_expr_eq_nested min (Nat.le_refl _),
    run_expr_eq_nested (k := (u ++ t).length) min (by simp)]
  exact blind_nested _ min hu

theorem expr_append {b : Part} (hmin : Level.additive ≤ min) (hu : walk u 0 = some 0)
    (h : (expr min).run u = some (b, v)) (hv : Barred v) :
    (expr min).run (u ++ t) = some (b, v ++ t) := by
  rw [run_expr_eq_nested (k := (u ++ t).length) min (by simp)] at h
  rw [run_expr_eq_nested min (Nat.le_refl _)]
  exact nested_append _ hmin hu h hv

theorem fronts_expr (hu : Settled u t) : (expr min).Fronts u t := by
  intro b q h
  rw [run_expr_eq_nested min (Nat.le_refl _)] at h
  rw [run_expr_eq_nested (k := (u ++ t).length) min (by simp)]
  exact fronts_nested _ min hu b q h

end Expressions

end Plain

end BendSyntax
