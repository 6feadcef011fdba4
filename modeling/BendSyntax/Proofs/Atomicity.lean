import BendSyntax.Proofs.Retrying
import BendSyntax.Reader

/-! A trial that comes to nothing leaves no trace. Going back cuts the tree down to the nodes that were
there before; for the tree to be the same again, none of these may have been written. A run is compared
with itself: what it reads and writes are nodes that it has added. -/

namespace BendSyntax

open Reading Grammar

/-! ## Cursors in a text -/

namespace Cursor

theorem kind_eq_eof_iff {c : Cursor} : c.kind = .eof ↔ c.token.kind = .eof := by
  unfold kind
  split
  · simp_all
  · rfl

namespace Reaches

variable {ts : Tokens} {c d : Cursor}

theorem rest_start (h : (start ts).Reaches c) : c.rest = ts.body.drop c.index := by
  obtain ⟨n, -, hrest, hindex, -⟩ := h
  rw [hrest, hindex]
  simp [start]

theorem eof_start (h : (start ts).Reaches c) : c.eof = ts.eof := by
  obtain ⟨-, -, -, -, heof⟩ := h
  exact heof

/-- Cursors at the same index stand in front of the same token. -/
theorem token_eq (hc : (start ts).Reaches c) (hd : (start ts).Reaches d) (h : d.index = c.index) :
    d.token = c.token := by
  simp [token, hc.rest_start, hd.rest_start, hc.eof_start, hd.eof_start, h]

theorem rest_ne_nil (h : (start ts).Reaches c) (heof : ts.eof.kind = .eof) (hc : c.kind ≠ .eof) :
    c.rest ≠ [] := by
  intro hrest
  refine hc (kind_eq_eof_iff.mpr ?_)
  simp [token, hrest, h.eof_start, heof]

end Reaches

end Cursor

/-! ## A run beside itself -/

namespace Comparison

/-- A run on a text beside itself, from a session with any tree. -/
def beside (source : String) (side : Side) : Comparison :=
  { sameText (Lexing.ofText source).tokens side side Eq Eq Eq False False fun _ _ => False with
    cursors := fun c d => (Cursor.start (Lexing.ofText source).tokens).Reaches c ∧ c = d }

variable {source : String} {side : Side}

instance : (beside source side).Lawful where
  kind h := h.2 ▸ .same _
  eof h := by rw [h.1.eof_start]; exact Lexing.eof_kind_onward _ _ _
  inside _ _ _ _ h _ := by rw [h.2]
  rest h hc :=
    have hrest := h.1.rest_ne_nil (Lexing.eof_kind_onward _ _ _) hc
    ⟨hrest, h.2 ▸ hrest⟩
  token h _ := by rw [h.2]; exact ⟨rfl, rfl, rfl⟩
  caseHead h := by rw [h.2]
  advance h _ := ⟨h.1.trans (.advance _), by rw [h.2]⟩
  halve h _ := ⟨h.1.trans (.halve _), by rw [h.2]⟩
  whole h := ⟨h.1.trans (.whole _), by rw [h.2]⟩
  mark h _ := congrArg Cursor.span h.2
  span h := congrArg Cursor.span h.2
  last h := congrArg Cursor.last h.2
  index h h' := by rw [h.2, h'.2]
  index_kind {c _ c' _} h h' hindex hc := by
    have htoken : c'.whole.token = c.token := h.1.token_eq h'.1 hindex
    rwa [Ne, Cursor.kind_eq_eof_iff, htoken, ← Cursor.kind_eq_eof_iff]
  remaining h h' := by rw [h.2, h'.2]
  marks_spans h := h
  marks_hull h h' := congrArg₂ Span.hull h h'
  named_ident h _ := congrArg Cursor.span h.2
  named_hull h h' := congrArg₂ Span.hull h h'
  named_length h := by rw [h]
  spans_zero := rfl
  spans_hull h h' := congrArg₂ Span.hull h h'
  spans_opening h := congrArg Span.opening h
  usages_refl _ := rfl
  errors_fatal h := by rw [h]
  expected _ h := by rw [h.2]; rfl
  invalid _ h _ _ := by rw [h.2]; rfl
  noDefinition h := congrArg _ h
  void_onward h _ _ := h.elim

instance : (beside source side).Retractable := ⟨fun h _ => h.elim, fun h _ => h.elim⟩

instance : (beside source side).Recalling where
  known what hcd hl := by
    obtain ⟨-, rfl⟩ := hcd
    obtain rfl := hl
    rfl
  remember what hcd _ hslot hl := by
    obtain ⟨-, rfl⟩ := hcd
    obtain rfl := hl
    obtain rfl := @sameText_slots (Lexing.ofText source).tokens side side Eq Eq False False
      (fun _ _ => False) _ _ ⟨hslot.flags, hslot.usage⟩
    rfl

theorem beside_levels (d : Nat) : (beside source side).Levels (nested d) (nested d) := by
  induction d with
  | zero => exact fun g => agrees_refuse fun hcd => by rw [hcd.2]; rfl
  | succ d ih => exact agrees_produce ih.supports

theorem beside_moves {c : Cursor} (hc : (Cursor.start (Lexing.ofText source).tokens).Reaches c) :
    (beside source side).Moves c c :=
  ⟨rfl, hc.trans (.advance c), rfl⟩

end Comparison

namespace Reading

/-- What is there when a run begins, in the setting of the run. -/
def sideOf (setting : Setting) (s : Session) : Side :=
  ⟨setting.config, setting.remembers, s.tree, s.diagnostics⟩

/-- A reading that agrees with itself writes no node that was there before it. -/
theorem rewind_of_agree {α : Type} {r : Reading α} {Q : α → α → Prop} {source : String}
    {setting : Setting} {s : Session}
    (hs : (Cursor.start (Lexing.ofText source).tokens).Reaches s.cursor)
    (h : (Comparison.beside source (sideOf setting s)).Agree s.cursor s.cursor r r Q) :
    (r.run setting s).session.tree.rewind s.tree.mark = s.tree := by
  have hst : (Comparison.beside source (sideOf setting s)).Sessions s s :=
    ⟨⟨hs, rfl⟩, .start _ _ _, .start _ _ _, .start _ _ _, rfl⟩
  have hrun := h setting.slot setting.slot s s ⟨rfl, rfl⟩ hst rfl rfl
  have hrewound {t u : Session} (hnow : (Comparison.beside source (sideOf setting s)).Sessions t u) :
      u.tree.rewind s.tree.mark = s.tree :=
    congrArg₂ Tree.mk hnow.terms.take_right hnow.patterns.take_right
  change Comparison.Outcomes _ _ (r.run setting s) (r.run setting s) at hrun
  generalize r.run setting s = o at hrun
  cases hrun with
  | ok _ hnow => exact hrewound hnow
  | error _ hnow => exact hrewound hnow
  | leftTooDeep hx _ => exact hx.elim
  | rightTooDeep hx _ => exact hx.elim
  | void hv => exact hv.elim

end Reading

/-! ## Trials -/

/-- What the grammar tries: the attempts whose failures are remembered, a type with `=` behind it, and
the head of a superposition with a long label. -/
inductive Trial where
  | attempt (what : Attempt)
  | definitionType
  | superpositionHead
  deriving DecidableEq

namespace Trial

/-- What a successful reading gives. -/
abbrev Tried : Trial → Type
  | attempt what => Option what.Result
  | definitionType => TermId
  | superpositionHead => Span

abbrev Answer : Trial → Type
  | attempt what => Option what.Result
  | definitionType => Option TermId
  | superpositionHead => Bool

variable (deep : Deeper)

/-- What is read on trial. -/
def tried : (trial : Trial) → Reading trial.Tried
  | attempt what => what.reading deep
  | definitionType => equationType deep
  | superpositionHead => do
      let _ ← supTag deep
      expect (.mark .colon)

/-- The trial as the grammar makes it. -/
def reading : (trial : Trial) → Reading trial.Answer
  | attempt .generic => genericArgs? deep
  | attempt .equality => equality? deep
  | attempt .typedLet => typedName? deep
  | definitionType => speculate (some <$> equationType deep)
  | superpositionHead => atLongSupHead deep

/-- Whether nothing is kept of what was read: it declined or failed for a reason that is not fatal. Of
a head nothing is kept in any case. -/
def Vain : (trial : Trial) → Outcome trial.Tried → Prop
  | attempt _, .ok answer _ => answer = none
  | definitionType, .ok _ _ => False
  | superpositionHead, .ok _ _ => True
  | _, .error e _ => e.isFatal = false

/-- Whether an answer says that nothing was kept. -/
def Empty : (trial : Trial) → trial.Answer → Prop
  | attempt _, answer => answer = none
  | definitionType, answer => answer = none
  | superpositionHead, _ => True

end Trial

/-- A session that is what it was, except that more may be known to fail. -/
structure Session.Restored (s t : Session) : Prop extends s.SameButFailures t where
  failures : s.failures <:+ t.failures

theorem Session.Restored.refl (s : Session) : s.Restored s where
  cursor := rfl
  tree := rfl
  diagnostics := rfl
  failures := List.suffix_refl _

theorem Session.Onward.restored {s t : Session} (h : s.Onward t)
    (htree : t.tree.rewind s.tree.mark = s.tree) : s.Restored (t.rewind s) where
  cursor := rfl
  tree := htree
  diagnostics := h.diagnostics_rewind
  failures := h.failures

theorem Session.Restored.remember {s t : Session} (h : s.Restored t) (f : Failure) :
    s.Restored (t.remember f) where
  cursor := h.cursor
  tree := h.tree
  diagnostics := h.diagnostics
  failures := h.failures.trans (List.suffix_cons f t.failures)

namespace Trial

variable {deep : Deeper} {setting : Setting} {s : Session}

theorem reading_attempt (what : Attempt) :
    (attempt what).reading deep = Reading.attempt what (what.reading deep) := by
  cases what <;> rfl

theorem run_definitionType : (definitionType.reading deep).run setting s =
    (((equationType deep).run setting s).andThen fun type t => .ok (some type) t).retracted s := rfl

theorem run_superpositionHead : (superpositionHead.reading deep).run setting s =
    ((superpositionHead.tried deep).run setting s).tested s := rfl

/-- The readings on trial agree with themselves. -/
theorem exists_agree {source : String} {side : Side} {c : Cursor} (trial : Trial) (depth : Nat)
    (hc : (Cursor.start (Lexing.ofText source).tokens).Reaches c) :
    ∃ Q, (Comparison.beside source side).Agree c c (trial.tried (nested depth))
      (trial.tried (nested depth)) Q := by
  have hcc : (Comparison.beside source side).cursors c c := ⟨hc, rfl⟩
  have hlevels := @Comparison.beside_levels source side depth
  cases trial with
  | attempt what =>
      exact ⟨_, Comparison.agree_reading hlevels what hcc (Comparison.beside_moves hc)⟩
  | definitionType => exact ⟨_, Comparison.agrees_equationType hlevels c c hcc⟩
  | superpositionHead =>
      exact ⟨_, Comparison.agrees_bind (Comparison.agrees_supTag hlevels)
        (fun _ _ _ => Comparison.agrees_expect rfl) c c hcc⟩

/-- However a reading on trial ends, it has written no node that was there before it. -/
theorem frame {source : String} (hs : (initial (Lexing.ofText source)).Onward s) (trial : Trial)
    (depth : Nat) (setting : Setting) :
    ((trial.tried (nested depth)).run setting s).session.tree.rewind s.tree.mark = s.tree := by
  obtain ⟨Q, hagree⟩ := trial.exists_agree depth hs.cursor
  exact rewind_of_agree hs.cursor hagree

/-- A reading on trial that leaves nothing to keep does not fail the trial. -/
theorem exists_run_of_vain {trial : Trial} (h : trial.Vain ((trial.tried deep).run setting s)) :
    ∃ answer t, (trial.reading deep).run setting s = .ok answer t ∧ trial.Empty answer := by
  cases trial with
  | attempt what =>
      have hfruitless : (what.reading deep).Fruitless setting s := by
        unfold Fruitless
        change (attempt what).Vain ((what.reading deep).run setting s) at h
        generalize (what.reading deep).run setting s = o at h
        cases o with
        | ok answer t =>
            obtain rfl : answer = none := h
            exact .inl ⟨t, rfl⟩
        | error e t => exact .inr ⟨e, t, h, rfl⟩
      rw [reading_attempt, run_attempt, hfruitless.retracted]
      dsimp only
      split
      · exact ⟨none, _, rfl, rfl⟩
      · exact ⟨none, _, rfl, rfl⟩
  | definitionType =>
      rw [run_definitionType]
      change definitionType.Vain ((equationType deep).run setting s) at h
      generalize (equationType deep).run setting s = o at h
      cases o with
      | ok type t => exact h.elim
      | error e t =>
          have he : e.isFatal = false := h
          exact ⟨none, t.rewind s, by simp [Outcome.retracted, he], rfl⟩
  | superpositionHead =>
      rw [run_superpositionHead]
      generalize (superpositionHead.tried deep).run setting s = o at h
      cases o with
      | ok span t => exact ⟨true, t.rewind s, rfl, trivial⟩
      | error e t =>
          have he : e.isFatal = false := h
          exact ⟨false, t.rewind s, by simp [Outcome.tested, he], trivial⟩

/-- A trial of which nothing is kept goes back to where it began. -/
theorem restored_of_run {trial : Trial} {answer : trial.Answer} {t : Session}
    (hframe : ((trial.tried deep).run setting s).session.tree.rewind s.tree.mark = s.tree)
    (hrun : (trial.reading deep).run setting s = .ok answer t) (hempty : trial.Empty answer) :
    s.Restored t := by
  have hback := ((trial.tried deep).onward setting s).restored hframe
  cases trial with
  | attempt what =>
      obtain rfl : answer = none := hempty
      rw [reading_attempt, run_attempt] at hrun
      dsimp only at hrun
      split at hrun
      · cases hrun
        exact (Session.Restored.refl s).remember _
      · cases hretracted : ((what.reading deep).run setting s).retracted s with
        | error e u =>
            rw [hretracted] at hrun
            cases hrun
        | ok answer u =>
            rw [hretracted, Outcome.andThen_ok] at hrun
            obtain ⟨rfl, rfl⟩ := Outcome.ok.inj hrun
            have hfruitless := (fruitless_of_retracted hretracted).retracted
            obtain rfl := (Outcome.ok.inj (hretracted.symm.trans hfruitless)).2
            exact hback.remember _
  | definitionType =>
      obtain rfl : answer = none := hempty
      rw [run_definitionType] at hrun
      change s.Restored (((equationType deep).run setting s).session.rewind s) at hback
      generalize (equationType deep).run setting s = o at hrun hback
      cases o with
      | ok type u => cases hrun
      | error e u =>
          simp only [Outcome.andThen_error, Outcome.retracted] at hrun
          split at hrun <;> cases hrun
          exact hback
  | superpositionHead =>
      rw [run_superpositionHead] at hrun
      generalize (superpositionHead.tried deep).run setting s = o at hrun hback
      cases o with
      | ok span u =>
          cases hrun
          exact hback
      | error e u =>
          simp only [Outcome.tested] at hrun
          split at hrun <;> cases hrun
          exact hback

end Trial

/-- What a trial does to a session. -/
structure Trial.Atomic (trial : Trial) (deep : Deeper) (setting : Setting) (s : Session) : Prop where
  /-- However the reading on trial ends, it has written no node that was there before it. -/
  frame : ((trial.tried deep).run setting s).session.tree.rewind s.tree.mark = s.tree
  /-- If it leaves nothing to keep, the trial does not fail. -/
  answers : trial.Vain ((trial.tried deep).run setting s) →
    ∃ answer t, (trial.reading deep).run setting s = .ok answer t ∧ trial.Empty answer
  /-- If nothing is kept, cursor, nodes and reports are what they were. -/
  restored : ∀ answer t, (trial.reading deep).run setting s = .ok answer t → trial.Empty answer →
    s.Restored t
  /-- What follows is read in the slot and at the depth in which the trial was made. -/
  resumed : ∀ answer t, (trial.reading deep).run setting s = .ok answer t →
    ∀ {α : Type} (f : trial.Answer → Reading α),
      (trial.reading deep >>= f).run setting s = (f answer).run setting t

/-- Trials are atomic. In every session that reading a text can lead to, a trial that comes to nothing
leaves cursor, nodes and reports as they were; only more may be known to fail. -/
theorem trials_atomic (source : String) {s : Session}
    (hs : (initial (Lexing.ofText source)).Onward s) (trial : Trial) (depth : Nat)
    (setting : Setting) : trial.Atomic (nested depth) setting s where
  frame := trial.frame hs depth setting
  answers := Trial.exists_run_of_vain
  restored _ _ := Trial.restored_of_run (trial.frame hs depth setting)
  resumed answer t hrun α f := by rw [run_bind, hrun, Outcome.andThen_ok]

/-- An operand behind the arguments makes the bracket a comparison. By then the name between the
parentheses has been added and its span extended. -/
theorem trials_atomic_parentheses :
    let name : Reading TermId := identifier >>= fun x => addTerm (.var x.1) x.2
    let s := (name.run (setting .standard true) (initial (Lexing.ofText "f<(A)> x"))).session
    s.tree.terms.size = 1 ∧ ∃ t,
      (genericArgs? (nested 8)).run (setting .standard true) s = .ok none t ∧
        s.Restored t ∧ t.failures.length = 1 := by
  intro name s
  have hs : (initial (Lexing.ofText "f<(A)> x")).Onward s := name.onward _ _
  have hatomic := trials_atomic "f<(A)> x" hs (.attempt .generic) 8 (setting .standard true)
  have hnone : (match (genericArgs? (nested 8)).run (setting .standard true) s with
      | .ok none t => t.failures.length == 1
      | _ => false) = true := by decide +kernel
  split at hnone
  · rename_i t hrun
    exact ⟨by decide +kernel, t, hrun, hatomic.restored none t hrun rfl, beq_iff_eq.mp hnone⟩
  · cases hnone

end BendSyntax
