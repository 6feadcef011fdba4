import BendSyntax.Proofs.Agreement.Nesting
import BendSyntax.Proofs.SameText

/-! What an attempt comes to when it is made again. It depends on the place in the text and on
a part of the slot, but not on the tree, the usages or the depth at which it is made, unless
the depth limit is met. -/

namespace BendSyntax

open Reading Grammar

/-! ## Attempts and slots -/

/-- The restrictions that an attempt depends on. -/
def Attempt.restrictions : Attempt → Slot → Slot
  | generic, s => { Slot.free .term with caseHeads := s.caseHeads, fieldHeads := s.fieldHeads }
  | equality, _ => .free .term
  | typedLet, s => s.withUsage .term

abbrev Attempt.Result : Attempt → Type
  | generic => List TermId × Option (List TermId)
  | equality => TermId × Bool × TermId
  | typedLet => String × Span × TermId

/-- What is attempted, given the readings of the next level. -/
def Attempt.reading (deep : Deeper) : (what : Attempt) → Reading (Option what.Result)
  | generic => genericArgs deep
  | equality => Grammar.equality deep
  | typedLet => typedName deep

namespace Reading

variable {α : Type}

/-- A reading that declines, or fails for a reason that is not fatal. -/
def Fruitless (r : Reading (Option α)) (setting : Setting) (s : Session) : Prop :=
  (∃ t, r.run setting s = .ok none t) ∨ ∃ e t, e.isFatal = false ∧ r.run setting s = .error e t

/-- A fruitless reading that is tried leaves no answer. -/
theorem Fruitless.retracted {r : Reading (Option α)} {setting : Setting} {s : Session}
    (h : r.Fruitless setting s) :
    (r.run setting s).retracted s = .ok none ((r.run setting s).session.rewind s) := by
  rcases h with ⟨t, h⟩ | ⟨e, t, he, h⟩ <;> rw [h]
  · rfl
  · simp [Outcome.retracted, he]

/-- A reading without an answer is fruitless or met the depth limit. -/
theorem fruitless_of_retracted {r : Reading (Option α)} {setting : Setting} {s t : Session}
    (h : (r.run setting s).retracted s = .ok none t) : r.Fruitless setting s := by
  unfold Fruitless
  generalize r.run setting s = o at h
  match o with
  | .ok (some a) u => cases h
  | .ok none u => exact .inl ⟨u, rfl⟩
  | .error e u =>
      by_cases he : e.isFatal = true
      · simp [Outcome.retracted, he] at h
      · exact .inr ⟨e, u, by simpa using he, rfl⟩

end Reading

/-! ## Slots -/

namespace Reading

variable {α β : Type} {σ τ : Setting} {s : Session}

theorem run_bind_congr {r : Reading α} {f : α → Reading β} (h : r.run σ s = r.run τ s)
    (hf : ∀ a t, (f a).run σ t = (f a).run τ t) : (r >>= f).run σ s = (r >>= f).run τ s := by
  rw [run_bind, run_bind, h]
  congr 1
  funext a t
  exact hf a t

end Reading

section Slots

variable (deep : Deeper) (config : Config) (remembers : Bool) (slot : Slot) (s : Session)

theorem closeAngle_run (slot' : Slot) :
    closeAngle.run ⟨config, remembers, slot⟩ s = closeAngle.run ⟨config, remembers, slot'⟩ s :=
  run_bind_congr rfl fun k t => by split <;> rfl

theorem callArgs_run {slot' : Slot} (h : slot.usage = slot'.usage) :
    (callArgs deep).run ⟨config, remembers, slot⟩ s =
      (callArgs deep).run ⟨config, remembers, slot'⟩ s := by
  refine run_bind_congr ?_ fun args t => run_bind_congr ?_ fun _ _ => rfl
  · simp only [delimited, within, Slot.delimited, h]
  · exact run_bind_congr rfl fun b t => by cases b <;> rfl

theorem typeArgs_run {slot' : Slot} (h : slot.usage = slot'.usage) :
    (typeArgs deep).run ⟨config, remembers, slot⟩ s =
      (typeArgs deep).run ⟨config, remembers, slot'⟩ s := by
  refine run_bind_congr rfl fun _ _ => run_bind_congr ?_ fun _ t => run_bind_congr ?_ fun _ _ => rfl
  · simp only [delimited, within, Slot.delimited, h]
  · exact closeAngle_run config remembers slot t slot'

/-- Of the slot, type arguments only see which heads end an expression. -/
theorem genericArgs_run :
    (genericArgs deep).run ⟨config, remembers, slot⟩ s =
      (genericArgs deep).run
        ⟨config, remembers, (Attempt.generic.restrictions slot).withUsage slot.usage⟩ s := by
  refine run_bind_congr (typeArgs_run deep config remembers slot s rfl) fun args t => ?_
  refine run_bind_congr rfl fun c t => ?_
  split
  · refine run_bind_congr rfl fun _ t => ?_
    exact run_bind_congr (callArgs_run deep config remembers slot t rfl) fun _ _ => rfl
  · simp only [run_bind, Reading.slot, asks, Outcome.andThen_ok]
    have hstarts : c.startsOperand slot =
        c.startsOperand ((Attempt.generic.restrictions slot).withUsage slot.usage) := rfl
    rw [← hstarts]
    split <;> rfl

theorem equality_run :
    (equality deep).run ⟨config, remembers, slot⟩ s =
      (equality deep).run
        ⟨config, remembers, (Attempt.equality.restrictions slot).withUsage slot.usage⟩ s := by
  refine run_bind_congr rfl fun _ _ => run_bind_congr rfl fun sides t => ?_
  cases sides with
  | none => rfl
  | some sides =>
      refine run_bind_congr ?_ fun closed _ => by cases closed <;> rfl
      exact run_bind_congr rfl fun b t => by cases b <;> rfl

/-- What is read depends on the restrictions that count for the attempt, and on the usage. -/
theorem reading_run (what : Attempt) :
    (what.reading deep).run ⟨config, remembers, slot⟩ s =
      (what.reading deep).run ⟨config, remembers, (what.restrictions slot).withUsage slot.usage⟩ s := by
  cases what with
  | generic => exact genericArgs_run deep config remembers slot s
  | equality => exact equality_run deep config remembers slot s
  | typedLet => rfl

end Slots

/-! ## The same attempt again -/

namespace Comparison

variable {C : Comparison}

def attempted (C : Comparison) : (what : Attempt) → what.Result → what.Result → Prop
  | .generic => C.GenericArgs
  | .equality => C.Equalities
  | .typedLet => C.TypedNames

theorem agree_reading [C.Lawful] {deep deep' : Deeper} [deep.Balanced] (h : C.Levels deep deep') (what : Attempt)
    {c d : Cursor} (hcd : C.cursors c d) (hmoves : C.Moves c d) :
    C.Agree c d (what.reading deep) (what.reading deep') (Option.Rel (C.attempted what)) := by
  cases what with
  | generic => exact agree_genericArgs h hmoves
  | equality => exact agree_equality h hmoves
  | typedLet => exact agrees_typedName h c d hcd

/-- Two runs without memory at the same place of a text, whatever their trees are. -/
def retrying (ts : Tokens) (config : Config) (s t : Session) : Comparison :=
  sameText ts ⟨config, false, s.tree, s.diagnostics⟩ ⟨config, false, t.tree, t.diagnostics⟩
    (fun _ _ => True) (fun _ _ => True) (fun _ _ => True) True True fun _ _ => False

section Retrying

variable {ts : Tokens} {config : Config} {s t : Session}

instance : (retrying ts config s t).Lawful :=
  sameText_lawful (fun _ => trivial) (fun _ _ => trivial) (fun _ => trivial)
    (fun _ => trivial) fun h _ _ => h.elim

instance : (retrying ts config s t).Retractable := ⟨fun h _ => h.elim, fun h _ => h.elim⟩

instance : (retrying ts config s t).Recalling := ⟨fun _ _ _ => rfl, fun _ _ _ _ _ => trivial⟩

theorem retrying_levels (d d' : Nat) :
    (retrying ts config s t).Levels (nested d) (nested d') := by
  induction d generalizing d' with
  | zero => exact fun g c c' _ slot slot' u v _ _ _ _ => .leftTooDeep trivial rfl
  | succ d ih =>
      cases d' with
      | zero => exact fun g c c' _ slot slot' u v _ _ _ _ => .rightTooDeep trivial rfl
      | succ d' => exact agrees_produce (ih d').supports

end Retrying

end Comparison

/-- A session that is what it was, except for what is known to fail. -/
structure Session.SameButFailures (s t : Session) : Prop where
  cursor : t.cursor = s.cursor
  tree : t.tree = s.tree
  diagnostics : t.diagnostics = s.diagnostics

theorem Grown.take_right {α β : Type} {R : α → β → Prop} {a : Array α} {b : Array β} {x : Array α}
    {y : Array β} (h : Grown R a b x y) : y.take b.size = b := by
  obtain ⟨k, l, -, hy, -⟩ := h
  apply Array.toList_inj.mp
  simp [hy]

/-- An attempt that came to nothing comes to nothing at the same place again, and leaves the
session as it was, or it meets the depth limit. -/
theorem Attempt.retracted_again {what : Attempt} {ts : Tokens} {config : Config} {d : Nat} (d' : Nat)
    {slot slot' : Slot} {s t : Session}
    (h : (what.reading (nested d)).Fruitless ⟨config, false, slot⟩ s) (hs : s.cursor.On ts)
    (hplace : s.cursor.SamePlace t.cursor) (hne : s.cursor.kind ≠ .eof)
    (hslot : what.restrictions slot = what.restrictions slot') :
    (∃ u, ((what.reading (nested d')).run ⟨config, false, slot'⟩ t).retracted t = .ok none u ∧
        t.SameButFailures u) ∨
      ∃ e u, ((what.reading (nested d')).run ⟨config, false, slot'⟩ t).retracted t = .error e u ∧
        e.isFatal = true := by
  have hst : (Comparison.retrying ts config s t).Sessions s t :=
    ⟨⟨hs, hplace, trivial⟩, .start _ _ _, .start _ _ _, .start _ _ _, trivial⟩
  have hslots : (Comparison.retrying ts config s t).Slots
      ((what.restrictions slot).withUsage slot.usage)
      ((what.restrictions slot').withUsage slot'.usage) := ⟨by rw [hslot]; rfl, trivial⟩
  have hagree := Comparison.agree_reading (Comparison.retrying_levels d d') what hst.cursor
    (Comparison.moves_of_kind hst.cursor hne) _ _ s t hslots hst rfl rfl
  have honward := (what.reading (nested d')).onward ⟨config, false, slot'⟩ t
  change Comparison.Outcomes _ _ ((what.reading (nested d)).run ⟨config, false, _⟩ s)
    ((what.reading (nested d')).run ⟨config, false, _⟩ t) at hagree
  rw [← reading_run, ← reading_run] at hagree
  unfold Fruitless at h
  generalize (what.reading (nested d)).run ⟨config, false, slot⟩ s = o at h hagree
  generalize (what.reading (nested d')).run ⟨config, false, slot'⟩ t = p at hagree honward ⊢
  have hrewound {u v : Session} (hnow : (Comparison.retrying ts config s t).Sessions u v)
      (hv : t.Onward v) : t.SameButFailures (v.rewind t) :=
    ⟨rfl, congrArg₂ Tree.mk hnow.terms.take_right hnow.patterns.take_right, hv.diagnostics_rewind⟩
  cases hagree with
  | @ok a b u v hab hnow =>
      cases hab with
      | none => exact .inl ⟨_, rfl, hrewound hnow honward⟩
      | some hab => rcases h with ⟨u, h⟩ | ⟨e, u, he, h⟩ <;> cases h
  | @error e f u v he hnow =>
      rcases h with ⟨u, h⟩ | ⟨e, u, hfatal, h⟩ <;> cases h
      obtain rfl : e = f := he
      exact .inl ⟨_, by simp [Outcome.retracted, hfatal], hrewound hnow honward⟩
  | leftTooDeep hx he =>
      rcases h with ⟨u, h⟩ | ⟨e, u, hfatal, h⟩ <;> cases h
      simp [he] at hfatal
  | @rightTooDeep _ f v hx hf => exact .inr ⟨f, v, by simp [Outcome.retracted, hf], hf⟩
  | void hv => exact hv.elim

end BendSyntax
