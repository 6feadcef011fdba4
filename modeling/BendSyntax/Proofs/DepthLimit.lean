import BendSyntax.Proofs.Results

/-! The depth limit is never passed over in silence. What a text is read as, unless it is reported
to be nested too deeply, does not depend on the limit, nor on anything that a reading beyond the
limit would do: the run under a limit is compared with one that reads on beyond it, and the first
refusal, in however many attempts, ends in a report. -/

namespace BendSyntax

open Reading Grammar

namespace Grammar

/-- `nested` with other readings in place of the refusal to go deeper. -/
def nestedUpon (beyond : Deeper) : Nat → Deeper
  | 0 => beyond
  | d + 1 => produce (nestedUpon beyond d)

theorem nestedUpon_refuse (d : Nat) : nestedUpon (fun _ => refuse) d = nested d := by
  induction d with
  | zero => rfl
  | succ d ih => rw [nestedUpon, ih]; rfl

theorem nestedUpon_nested (e d : Nat) : nestedUpon (nested e) d = nested (d + e) := by
  induction d with
  | zero => rw [Nat.zero_add]; rfl
  | succ d ih => rw [nestedUpon, ih, Nat.succ_add]; rfl

end Grammar

/-- A report that a text is nested too deeply. -/
def tooDeeplyNested (ds : List Diagnostic) : Prop := ∃ d ∈ ds, d.kind = .tooDeep

instance (ds : List Diagnostic) : Decidable (tooDeeplyNested ds) :=
  inferInstanceAs (Decidable (∃ d ∈ ds, d.kind = .tooDeep))

namespace Comparison

/-- A run that refuses to go beyond its limit, and one that may have another limit. -/
def limited (l : Lexing) (config config' : Config) : Comparison :=
  sameText l.tokens ⟨config, true, .empty, l.diagnostics.toArray⟩
    ⟨config', true, .empty, l.diagnostics.toArray⟩ Eq Eq Eq True False fun _ _ => False

section Limited

variable {l : Lexing} {config config' : Config}

instance : (limited l config config').Lawful :=
  sameText_lawful (fun _ => rfl) (fun h h' => by rw [h, h']) (fun h => by rw [h])
    (fun _ => rfl) fun h _ _ => h.elim

instance : (limited l config config').Retractable :=
  ⟨fun h _ => h.elim, fun h _ => h.elim⟩

instance : (limited l config config').Recalling := sameText_recalling rfl

/-- The runs agree at every depth: where one of them refuses, it is excused. -/
theorem limited_levels (beyond : Deeper) (d : Nat) :
    (limited l config config').Levels (nested d) (nestedUpon beyond d) := by
  induction d with
  | zero => exact fun g c c' _ slot slot' s t _ _ _ _ => .leftTooDeep trivial rfl
  | succ d ih => exact agrees_produce ih.supports

/-- A refusal has been reported in the first session. -/
def refused (s _ : Session) : Prop := tooDeeplyNested s.diagnostics.toList

theorem limited_reporting (hrecover : config.recover = config'.recover) :
    (limited l config config').Reporting refused where
  recover := hrecover
  startsItem h := by rw [h.2.1.kind]
  of_void h := h.elim
  onward h hs _ := by
    obtain ⟨d, hd, hkind⟩ := h
    exact ⟨d, hs.diagnostics.subset hd, hkind⟩
  leftDiscard _ h := h
  rightDiscard _ h := h
  leftReport s t _ he :=
    ⟨SyntaxError.toDiagnostic _, by simp [Session.report], (SyntaxError.isFatal_iff_kind _).mp he⟩
  rightReport _ _ hx _ := hx.elim

/-- Unless a refusal is reported, both runs have the same end. -/
theorem limited_outcomes {α : Type} {Q : α → α → Prop} (hQ : ∀ {a b}, Q a b → a = b)
    {o p : Outcome α} (h : ((limited l config config').beyond refused).Outcomes Q o p)
    (hdeep : ¬tooDeeplyNested o.reports.toList) : o.Same p := by
  have hequal {s t : Session} (hst : (limited l config config').Sessions s t) :
      s.tree = t.tree ∧ s.diagnostics = t.diagnostics := sameText_sessions hst rfl rfl rfl
  cases h with
  | @ok a b s t hab hst =>
      obtain rfl := hQ hab
      exact .ok (hequal hst).1 (hequal hst).2
  | @error e f s t he hst =>
      obtain rfl : e = f := he
      exact .error (hequal hst).1 (hequal hst).2
  | leftTooDeep hx he =>
      exact absurd ⟨SyntaxError.toDiagnostic _, by simp [Outcome.reports],
        (SyntaxError.isFatal_iff_kind _).mp he⟩ hdeep
  | rightTooDeep hx he => exact hx.elim
  | void hv =>
      obtain ⟨d, hd, hkind⟩ := hv
      refine absurd ⟨d, ?_, hkind⟩ hdeep
      cases o with
      | ok a s => exact hd
      | error e s => simpa [Outcome.reports] using .inl (Array.mem_toList_iff.mp hd)

end Limited

end Comparison

/-! ## Readers -/

section Readers

variable (source : String) (config config' : Config)

/-- A text that is read under a limit and beyond it. -/
theorem onText_same {α : Type} {Q : α → α → Prop} (hQ : ∀ {a b}, Q a b → a = b) {r q : Reading α}
    (h : ((Comparison.limited (.ofText source) config config').beyond
      Comparison.refused).Agrees r q Q)
    (hdeep : ¬tooDeeplyNested (r.onText config true source).reports.toList) :
    (r.onText config true source).Same (q.onText config' true source) := by
  have hinitial : (Comparison.limited (.ofText source) config config').Sessions
      (initial (Lexing.ofText source)) (initial (Lexing.ofText source)) :=
    ⟨⟨.start (Lexing.eof_kind_onward _ _ _), ⟨rfl, rfl, rfl, rfl⟩, rfl⟩, .start _ _ _,
      .start _ _ _, .start _ _ _, rfl⟩
  exact Comparison.limited_outcomes hQ
    (h _ _ hinitial.cursor (.free .term) (.free .term) _ _ ⟨rfl, rfl⟩ hinitial rfl rfl) hdeep

variable (hrecover : config.recover = config'.recover) (beyond : Deeper)

include hrecover

/-- A program that is not reported to be nested too deeply is the same whatever is done beyond
the limit. -/
theorem Program.ofText_beyond
    (hdeep : ¬tooDeeplyNested (Program.ofText source config).diagnostics) :
    ((sourceFile (nestedUpon beyond config.maxDepth)).onText config' true source).report =
      Program.ofText source config := by
  have hlevels : (Comparison.limited (.ofText source) config config').Levels
      (nested config.maxDepth) (nestedUpon beyond config.maxDepth) :=
    Comparison.limited_levels beyond _
  have hterms : (Comparison.limited (.ofText source) config config').terms = Eq :=
    Comparison.sameText_terms rfl rfl
  have hagree := Comparison.agrees_sourceFile hlevels (Comparison.limited_reporting hrecover)
    fun c d hcd hc => hcd.2.1.kind ▸ hc
  rw [hterms] at hagree
  rw [Program.ofText, Program.read_eq] at hdeep ⊢
  rw [Outcome.diagnostics_report] at hdeep
  exact (onText_same source config config' (forall₂_eq Item.Alike.eq) hagree hdeep).report.symm

/-- An expression that is not reported to be nested too deeply is the same whatever is done
beyond the limit. -/
theorem Expression.ofText_beyond
    (hdeep : ∀ ds, Expression.ofText source config = .error ds → ¬tooDeeplyNested ds) :
    ((wholeStatement (nestedUpon beyond config.maxDepth)).onText config' true source).expression =
      Expression.ofText source config := by
  have hlevels : (Comparison.limited (.ofText source) config config').Levels
      (nested config.maxDepth) (nestedUpon beyond config.maxDepth) :=
    Comparison.limited_levels beyond _
  have hterms : (Comparison.limited (.ofText source) config config').terms = Eq :=
    Comparison.sameText_terms rfl rfl
  have hagree := fun c d hcd => (Comparison.agrees_wholeStatement hlevels
    (fun _ _ h => by rw [h.2.1.kind]) c d hcd).beyond (Comparison.limited_reporting hrecover)
  rw [hterms] at hagree
  rw [Expression.ofText, Expression.read_eq] at hdeep ⊢
  have hreports := Outcome.forall_reports_of_expression (P := fun d => d.kind ≠ .tooDeep)
    fun ds hds d hd hkind => hdeep ds hds ⟨d, hd, hkind⟩
  exact (onText_same source config config' id hagree (by
    rintro ⟨d, hd, hkind⟩
    exact hreports d hd hkind)).expression.symm

end Readers

/-- A text that is not reported to be nested too deeply under some limit is read alike under every
higher limit, and alike whatever is done in place of a refusal to go deeper: no refusal that has
come up was taken for another failure. -/
theorem depth_limit_monotone (source : String) (recover : Bool) (d : Nat) :
    (¬tooDeeplyNested (Program.ofText source ⟨d, recover⟩).diagnostics →
      (∀ d' ≥ d, Program.ofText source ⟨d', recover⟩ = Program.ofText source ⟨d, recover⟩) ∧
      ∀ beyond, ((sourceFile (nestedUpon beyond d)).onText ⟨d, recover⟩ true source).report =
        Program.ofText source ⟨d, recover⟩) ∧
    ((∀ ds, Expression.ofText source ⟨d, recover⟩ = .error ds → ¬tooDeeplyNested ds) →
      (∀ d' ≥ d, Expression.ofText source ⟨d', recover⟩ = Expression.ofText source ⟨d, recover⟩) ∧
      ∀ beyond,
        ((wholeStatement (nestedUpon beyond d)).onText ⟨d, recover⟩ true source).expression =
          Expression.ofText source ⟨d, recover⟩) := by
  refine ⟨fun hdeep => ⟨fun d' hd => ?_, fun beyond => ?_⟩,
    fun hdeep => ⟨fun d' hd => ?_, fun beyond => ?_⟩⟩
  · obtain ⟨e, rfl⟩ := Nat.exists_eq_add_of_le hd
    have hbeyond := Program.ofText_beyond source ⟨d, recover⟩ ⟨d + e, recover⟩ rfl (nested e) hdeep
    rwa [nestedUpon_nested] at hbeyond
  · exact Program.ofText_beyond source ⟨d, recover⟩ ⟨d, recover⟩ rfl beyond hdeep
  · obtain ⟨e, rfl⟩ := Nat.exists_eq_add_of_le hd
    have hbeyond := Expression.ofText_beyond source ⟨d, recover⟩ ⟨d + e, recover⟩ rfl (nested e)
      hdeep
    rwa [nestedUpon_nested] at hbeyond
  · exact Expression.ofText_beyond source ⟨d, recover⟩ ⟨d, recover⟩ rfl beyond hdeep

set_option maxRecDepth 100000 in
/-- At the limit: five levels are enough for this text and four are not. -/
theorem depth_limit_monotone_attempts :
    (¬tooDeeplyNested (Program.ofText "f{a<b c, d}" ⟨5, true⟩).diagnostics ∧
      Program.ofText "f{a<b c, d}" ⟨256, true⟩ = Program.ofText "f{a<b c, d}" ⟨5, true⟩) ∧
    Expression.ofText "f{a<b c, d}" ⟨256, false⟩ = Expression.ofText "f{a<b c, d}" ⟨5, false⟩ ∧
    tooDeeplyNested (Program.ofText "f{a<b c, d}" ⟨4, true⟩).diagnostics := by
  have hprogram : ¬tooDeeplyNested (Program.ofText "f{a<b c, d}" ⟨5, true⟩).diagnostics := by
    decide +kernel
  have hok : (Expression.ofText "f{a<b c, d}" ⟨5, false⟩).toOption.isSome = true := by
    decide +kernel
  refine ⟨⟨hprogram, ((depth_limit_monotone _ true 5).1 hprogram).1 256 (by decide)⟩, ?_,
    by decide +kernel⟩
  refine ((depth_limit_monotone _ false 5).2 fun ds hds => ?_).1 256 (by decide)
  rw [hds] at hok
  cases hok

end BendSyntax
