import BendSyntax.Proofs.Results
import BendSyntax.Proofs.Retrying

/-! What is remembered about failed attempts does not change what a text is read as, as long as
no attempt is passed over under other restrictions than it failed under. A run that remembers
is compared with one that does not: whatever is remembered, the other run finds out again. -/

namespace BendSyntax

open Reading Grammar

namespace Failure

/-- Failures before the same token that are the same attempt came up under the same
restrictions. -/
def Coherent (log : List Failure) : Prop :=
  ∀ f ∈ log, ∀ g ∈ log, f.matches g → f.what.restrictions f.slot = f.what.restrictions g.slot

instance (log : List Failure) : Decidable (Coherent log) :=
  inferInstanceAs (Decidable (∀ f ∈ log, ∀ g ∈ log, f.matches g →
    f.what.restrictions f.slot = f.what.restrictions g.slot))

theorem Coherent.mono {l m : List Failure} (h : Coherent m) (hlm : l <:+ m) : Coherent l :=
  fun f hf g hg => h f (hlm.mem hf) g (hlm.mem hg)

/-- A failure that comes up without memory, too. -/
def Sound (ts : Tokens) (config : Config) (f : Failure) : Prop :=
  ∃ d s, s.cursor.On ts ∧ s.cursor.index = f.index ∧
    (f.what.reading (nested d)).Fruitless ⟨config, false, f.slot⟩ s

end Failure

/-- The token at which an attempt is made. -/
def Attempt.opener : Attempt → TokenKind
  | generic => .mark .less
  | equality => .mark .leftBrace
  | typedLet => .ident

namespace Cursor

theorem SamePlace.trans {c d e : Cursor} (h : c.SamePlace d) (k : d.SamePlace e) :
    c.SamePlace e :=
  ⟨h.rest.trans k.rest, h.eof.trans k.eof, h.index.trans k.index, h.split.trans k.split⟩

theorem SamePlace.on {ts : Tokens} {c d : Cursor} (h : c.SamePlace d) (hc : c.On ts) : d.On ts := by
  rw [h.eq_setLast]
  exact ⟨hc.rest, hc.eof, hc.kind, hc.split⟩

/-- At the token of an attempt the index tells the place. -/
theorem On.samePlace {ts : Tokens} {c d : Cursor} (hc : c.On ts) (hd : d.On ts)
    (hindex : c.index = d.index) {what : Attempt} (hkind : d.kind = what.opener) :
    c.SamePlace d := by
  have hrest : c.rest = d.rest := by rw [hc.rest, hd.rest, hindex]
  have heof : c.eof = d.eof := hc.eof.trans hd.eof.symm
  have htoken : c.token = d.token := by simp [token, hrest, heof]
  have hd' : d.split = false := hd.split_eq_false (by rw [hkind]; cases what <;> decide)
  have hc' : c.split = false := by
    by_contra hsplit
    have hshift := hc.split (by simpa using hsplit)
    rw [htoken, ← kind_of_not_split hd', hkind] at hshift
    cases what <;> cases hshift
  exact ⟨hrest, heof, hindex, hc'.trans hd'.symm⟩

end Cursor

namespace Comparison

/-- A run that remembers, and one that does not. -/
def remembering (ts : Tokens) (config : Config) (diagnostics : Array Diagnostic) : Comparison :=
  sameText ts ⟨config, true, .empty, diagnostics⟩ ⟨config, false, .empty, diagnostics⟩ Eq Eq
    (fun log _ => ∀ f ∈ log, f.Sound ts config) False True fun s _ => ¬Failure.Coherent s.failures

section Remembering

variable {ts : Tokens} {config : Config} {diagnostics : Array Diagnostic}

instance : (remembering ts config diagnostics).Lawful :=
  sameText_lawful (fun _ => rfl) (fun h h' => by rw [h, h']) (fun h => by rw [h])
    (fun _ => rfl) fun h hs _ hcoherent => h (hcoherent.mono hs.failures)

instance : (remembering ts config diagnostics).Retractable := ⟨fun h _ => h, fun h _ => h⟩

/-- What is passed over comes to nothing without memory, and what is tried does so in both runs
or in none. -/
theorem agree_attempt_remembering (what : Attempt) {d d' : Nat} {c c' : Cursor}
    (hcc : (remembering ts config diagnostics).cursors c c') (hkind : c.kind = what.opener)
    (h : (remembering ts config diagnostics).Levels (nested d) (nested d')) :
    (remembering ts config diagnostics).Agree c c' (attempt what (what.reading (nested d)))
      (attempt what (what.reading (nested d')))
      (Option.Rel ((remembering ts config diagnostics).attempted what)) := by
  intro slot slot' s t hslot hst hs ht
  have hne : c.kind ≠ .eof := by rw [hkind]; cases what <;> decide
  obtain rfl := sameText_slots hslot
  subst hs ht
  have hnew : (what.reading (nested d')).Fruitless ⟨config, false, slot⟩ t →
      ∀ log : List Failure, (∀ f ∈ log, f.Sound ts config) →
        ∀ f ∈ (⟨s.cursor.index, what, slot⟩ :: log : List Failure), f.Sound ts config :=
    fun hfruitless log hlog =>
    List.forall_mem_cons.mpr
      ⟨⟨d', t, hcc.2.1.on hcc.1, hcc.2.1.index.symm, hfruitless⟩, hlog⟩
  have hfruitless (u : Session) :
      ((what.reading (nested d')).run ⟨config, false, slot⟩ t).retracted t = .ok none u →
        (what.reading (nested d')).Fruitless ⟨config, false, slot⟩ t := fruitless_of_retracted
  simp only [run_attempt, Side.setting, remembering, sameText, Bool.true_and, Bool.false_and,
    Bool.false_eq_true, if_false]
  by_cases hknown : s.failures.any (⟨s.cursor.index, what, slot⟩ : Failure).matches = true
  · rw [if_pos hknown]
    by_cases hcoherent : Failure.Coherent (⟨s.cursor.index, what, slot⟩ :: s.failures)
    · obtain ⟨g, hg, hmatches⟩ := List.any_eq_true.mp hknown
      have hslots := hcoherent _ (.head _) g (.tail _ hg) hmatches
      obtain ⟨depth, u, hu, huindex, hdone⟩ := hst.failures g hg
      obtain ⟨hindex, hwhat⟩ : s.cursor.index = g.index ∧ what = g.what := by
        simpa [Failure.matches] using hmatches
      subst hwhat
      have hplace := (hu.samePlace hcc.1 (huindex.trans hindex.symm) hkind).trans hcc.2.1
      have hne' : u.cursor.kind ≠ .eof := by rwa [hplace.kind, ← hcc.2.1.kind]
      rcases Attempt.retracted_again d' hdone hu hplace hne' hslots.symm with
        ⟨v, hv, hsame⟩ | ⟨e, v, hv, he⟩
      · rw [hv]
        refine .ok .none ⟨?_, ?_, ?_, ?_, hnew (hfruitless _ hv) _ hst.failures⟩
        · exact hsame.cursor ▸ hst.cursor
        · exact hsame.tree ▸ hst.terms
        · exact hsame.tree ▸ hst.patterns
        · exact hsame.diagnostics ▸ hst.diagnostics
      · rw [hv]
        exact .rightTooDeep trivial he
    · exact .void hcoherent
  · rw [if_neg hknown]
    have hspeculate := agree_speculate (agree_reading h what hcc (moves_of_kind hcc hne)) slot slot s t hslot hst rfl rfl
    simp only [speculate, Side.setting, remembering, sameText] at hspeculate
    generalize ((what.reading (nested d)).run ⟨config, true, slot⟩ s).retracted s = o at hspeculate ⊢
    generalize hp : ((what.reading (nested d')).run ⟨config, false, slot⟩ t).retracted t = p
      at hspeculate ⊢
    cases hspeculate with
    | ok hab hnow =>
        cases hab with
        | none => exact .ok .none ⟨hnow.cursor, hnow.terms, hnow.patterns, hnow.diagnostics,
            hnew (hfruitless _ hp) _ hnow.failures⟩
        | some hab => exact .ok (.some hab) hnow
    | error he hnow => exact .error he hnow
    | leftTooDeep hx he => exact .leftTooDeep hx he
    | rightTooDeep hx he => exact .rightTooDeep hx he
    | void hv =>
        refine .void fun hcoherent => hv (hcoherent.mono ?_)
        refine (Outcome.andThen_onward o fun answer now => ?_).failures
        cases answer with
        | none => exact .remember now _
        | some answer => exact .refl now

theorem remembering_levels (d : Nat) :
    (remembering ts config diagnostics).Levels (nested d) (nested d) := by
  induction d with
  | zero =>
      refine fun g => agrees_refuse fun {c c'} hcc => ?_
      show SyntaxError.tooDeep _ _ = .tooDeep _ _
      rw [hcc.2.1.span]
      rfl
  | succ d ih =>
      refine agrees_produce ⟨ih, fun hcc hkind => ?_, fun hcc hkind => ?_, fun hcc hkind => ?_⟩
      · exact agree_attempt_remembering .generic hcc hkind ih
      · exact agree_attempt_remembering .equality hcc hkind ih
      · exact agree_attempt_remembering .typedLet hcc hkind ih

/-- Sessions that are not compared any further, once errors are reported and reading goes on. -/
def incomparable (s t : Session) : Prop :=
  ¬Failure.Coherent s.failures ∨ ∃ d ∈ t.diagnostics.toList, d.kind = .tooDeep

theorem remembering_reporting : (remembering ts config diagnostics).Reporting incomparable where
  recover := rfl
  startsItem h := by rw [h.2.1.kind]
  of_void h := .inl h
  onward h hs ht := by
    rcases h with h | ⟨d, hd, hkind⟩
    · exact .inl fun hcoherent => h (hcoherent.mono hs.failures)
    · exact .inr ⟨d, ht.diagnostics.subset hd, hkind⟩
  leftDiscard _ h := h
  rightDiscard _ h := h
  leftReport _ _ hx _ := hx.elim
  rightReport s t _ he :=
    .inr ⟨SyntaxError.toDiagnostic _, by simp [Session.report],
      (SyntaxError.isFatal_iff_kind _).mp he⟩

theorem remembering_initial (lexing : Lexing) (h : lexing.tokens.eof.kind = .eof) :
    (remembering lexing.tokens config lexing.diagnostics.toArray).Sessions (initial lexing)
      (initial lexing) :=
  ⟨⟨.start h, ⟨rfl, rfl, rfl, rfl⟩, rfl⟩, .start _ _ _, .start _ _ _, .start _ _ _, nofun⟩

/-- Runs that are compared to their ends have the same end, except for what they remember. -/
theorem remembering_outcomes {α : Type} {Q : α → α → Prop} (hQ : ∀ {a b}, Q a b → a = b)
    {o p : Outcome α} (h : ((remembering ts config diagnostics).beyond incomparable).Outcomes Q o p)
    (hcoherent : Failure.Coherent o.session.failures)
    (hdeep : ∀ d ∈ p.reports.toList, d.kind ≠ .tooDeep) : o.Same p := by
  have hequal {s t : Session} (hst : (remembering ts config diagnostics).Sessions s t) :
      s.tree = t.tree ∧ s.diagnostics = t.diagnostics := sameText_sessions hst rfl rfl rfl
  cases h with
  | @ok a b s t hab hst =>
      obtain rfl := hQ hab
      exact .ok (hequal hst).1 (hequal hst).2
  | @error e f s t he hst =>
      obtain rfl : e = f := he
      exact .error (hequal hst).1 (hequal hst).2
  | leftTooDeep hx he => exact hx.elim
  | rightTooDeep hx he =>
      exact absurd ((SyntaxError.isFatal_iff_kind _).mp he)
        (hdeep (SyntaxError.toDiagnostic _) (by simp [Outcome.reports]))
  | void hv =>
      rcases hv with hv | ⟨d, hd, hkind⟩
      · exact absurd hcoherent hv
      · refine absurd hkind (hdeep d ?_)
        cases p with
        | ok a s => exact hd
        | error e s => simpa [Outcome.reports] using .inl (Array.mem_toList_iff.mp hd)

end Remembering

end Comparison

/-! ## Readers -/

/-- What is known to fail at the end of a source file. -/
def Program.failures (config : Config) (source : String) : List Failure :=
  ((sourceFile (nested config.maxDepth)).onText config true source).session.failures

/-- What is known to fail at the end of an expression. -/
def Expression.failures (config : Config) (source : String) : List Failure :=
  ((wholeStatement (nested config.maxDepth)).onText config true source).session.failures

section Readers

variable (config : Config) (source : String)

/-- A text that is read with memory and without it. -/
theorem onText_outcomes {α : Type} {Q : α → α → Prop} {r : Reading α}
    (h : ((Comparison.remembering (Lexing.ofText source).tokens config
      (Lexing.ofText source).diagnostics.toArray).beyond Comparison.incomparable).Agrees r r Q) :
    ((Comparison.remembering (Lexing.ofText source).tokens config
      (Lexing.ofText source).diagnostics.toArray).beyond Comparison.incomparable).Outcomes Q
      (r.onText config true source) (r.onText config false source) :=
  have hinitial := Comparison.remembering_initial _ (Lexing.eof_kind_onward _ _ _)
  h _ _ hinitial.cursor (.free .term) (.free .term) _ _ ⟨rfl, rfl⟩ hinitial rfl rfl

theorem Program.read_of_coherent (hcoherent : Failure.Coherent (Program.failures config source))
    (hdeep : ∀ d ∈ (Program.read config false source).diagnostics, d.kind ≠ .tooDeep) :
    Program.read config true source = Program.read config false source := by
  have hrun := onText_outcomes config source (Comparison.agrees_sourceFile
    (Comparison.remembering_levels config.maxDepth) Comparison.remembering_reporting
    fun c d hcd hc => hcd.2.1.kind ▸ hc)
  have hterms : (Comparison.remembering (Lexing.ofText source).tokens config
      (Lexing.ofText source).diagnostics.toArray).terms = Eq := Comparison.sameText_terms rfl rfl
  rw [hterms] at hrun
  rw [Program.read_eq, Program.read_eq] at *
  rw [Outcome.diagnostics_report] at hdeep
  exact (Comparison.remembering_outcomes (forall₂_eq Item.Alike.eq) hrun hcoherent hdeep).report

theorem Expression.read_of_coherent (hcoherent : Failure.Coherent (Expression.failures config source))
    (hdeep : ∀ ds, Expression.read config false source = .error ds → ∀ d ∈ ds, d.kind ≠ .tooDeep) :
    Expression.read config true source = Expression.read config false source := by
  have hrun := onText_outcomes config source fun c d hcd =>
    (Comparison.agrees_wholeStatement (Comparison.remembering_levels config.maxDepth)
      (fun _ _ h => by rw [h.2.1.kind]) c d hcd).beyond Comparison.remembering_reporting
  have hterms : (Comparison.remembering (Lexing.ofText source).tokens config
      (Lexing.ofText source).diagnostics.toArray).terms = Eq := Comparison.sameText_terms rfl rfl
  rw [hterms] at hrun
  rw [Expression.read_eq, Expression.read_eq] at *
  exact (Comparison.remembering_outcomes id hrun hcoherent
    (Outcome.forall_reports_of_expression hdeep)).expression

/-- As long as no attempt is passed over under other restrictions than it failed under, and no
repeated attempt meets the depth limit, it makes no difference that failures are remembered. -/
theorem read_memory_transparent (config : Config) (source : String) :
    (Failure.Coherent (Program.failures config source) →
      (∀ d ∈ (Program.read config false source).diagnostics, d.kind ≠ .tooDeep) →
        Program.ofText source config = Program.read config false source) ∧
    (Failure.Coherent (Expression.failures config source) →
      (∀ ds, Expression.read config false source = .error ds → ∀ d ∈ ds, d.kind ≠ .tooDeep) →
        Expression.ofText source config = Expression.read config false source) :=
  ⟨Program.read_of_coherent config source, Expression.read_of_coherent config source⟩

set_option maxRecDepth 100000 in
theorem read_memory_transparent_braces :
    Program.ofText "f{a<b c, d}" .standard = Program.read .standard false "f{a<b c, d}" ∧
      Expression.ofText "f{a<b c, d}" .standard =
        Expression.read .standard false "f{a<b c, d}" := by
  obtain ⟨hprogram, hexpression⟩ := read_memory_transparent .standard "f{a<b c, d}"
  refine ⟨hprogram (by decide +kernel) (by decide +kernel), hexpression (by decide +kernel) ?_⟩
  have hok : (Expression.read .standard false "f{a<b c, d}").toOption.isSome = true := by
    decide +kernel
  intro ds hds
  rw [hds] at hok
  cases hok

set_option maxRecDepth 100000 in
/-- Inside the speculative bracket `b<c>` is followed by an argument, in the case block by the
head of the next case. -/
theorem read_memory_not_transparent :
    ¬Failure.Coherent (Expression.failures .standard "λ{False: a<b<c> True: d}") ∧
      (Expression.ofText "λ{False: a<b<c> True: d}" .standard).toOption = none ∧
      (Expression.read .standard false "λ{False: a<b<c> True: d}").toOption.map Expression.dump =
        some "(lam (bool-match (False (< a (tyapp b c))) (True d)))" := by
  decide +kernel

end Readers

end BendSyntax
