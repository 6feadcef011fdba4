import BendSyntax.Proofs.Plain.Front
import Mathlib.Logic.Relation

/-! Terms as far as they have been read: an operand with some of its suffixes, or an operand with
some of the arguments and operators behind it. Such a term is what is read of its own text. -/

namespace BendSyntax

open Pieces BendSyntax.Parser
open Reading (Round)
open Relation (ReflTransGen)

/-- A parser does not look whether the first piece touches something or is half of a token. -/
def Parser.Overlooks {α : Type} (r : Parser α) (p : Piece) (ps : List Piece) : Prop :=
  ∀ tight second, r.run ({ p with tight, second } :: ps) = r.run (p :: ps)

namespace Parser.Overlooks

variable {α β : Type} {r : Parser α} {f : α → Parser β} {p : Piece} {ps : List Piece}

theorem bind (h : r.Overlooks p ps) : (r >>= f).Overlooks p ps := fun tight second => by
  rw [run_bind, run_bind, h]

theorem asks {g : List Piece → α} (hg : ∀ tight second, g ({ p with tight, second } :: ps) = g (p :: ps))
    (h : (f (g (p :: ps))).Overlooks p ps) : (Parser.asks g >>= f).Overlooks p ps :=
  fun tight second => by rw [run_asks_bind, run_asks_bind, hg, h]

theorem fail : (Parser.fail : Parser α).Overlooks p ps := fun _ _ => rfl

theorem ite {c : Prop} [Decidable c] {r' : Parser α} (h : r.Overlooks p ps)
    (h' : r'.Overlooks p ps) : (if c then r else r').Overlooks p ps := by
  split
  · exact h
  · exact h'

theorem kind_front (tight second : Bool) :
    Pieces.kind ({ p with tight, second } :: ps) = Pieces.kind (p :: ps) := by
  cases ps <;> rfl

theorem advance : Parser.advance.Overlooks p ps := fun tight second => by
  cases ps <;> rfl

theorem kind {f : TokenKind → Parser β} (h : (f (Pieces.kind (p :: ps))).Overlooks p ps) :
    (Parser.kind >>= f).Overlooks p ps := asks kind_front h

end Parser.Overlooks

namespace Plain

variable {a b : Part} {ps qs rs t u : List Piece}

/-- A round goes on from one term to the next. -/
def Goes (step : Part → Parser (Round Part)) (x y : Part × List Piece) : Prop :=
  (step x.1).run x.2 = some (.more y.1, y.2)

/-- An operand with some of its suffixes. -/
def Heads (ps : List Piece) (b : Part) (qs : List Piece) : Prop :=
  ∃ x, (operand expr).run ps = some x ∧ ReflTransGen (Goes (suffixRound expr)) x (b, qs)

/-- What an expression begins with, with some of the arguments and operators behind it. -/
def Chains (ps : List Piece) (b : Part) (qs : List Piece) : Prop :=
  ∃ x, (leading expr).run ps = some x ∧
    ReflTransGen (Goes (climbRound expr .assignment)) x (b, qs)

/-- A term that has been read, whatever follows it. -/
def Grown (ps : List Piece) (b : Part) (qs : List Piece) : Prop := Heads ps b qs ∨ Chains ps b qs

theorem Heads.of_operand (h : (operand expr).run ps = some (b, qs)) : Heads ps b qs :=
  ⟨_, h, .refl⟩

theorem Heads.suffix (h : Heads ps a qs) (hround : (suffixRound expr a).run qs = some (.more b, rs)) :
    Heads ps b rs := by
  obtain ⟨x, hx, hgoes⟩ := h
  exact ⟨x, hx, hgoes.tail hround⟩

theorem Chains.of_leading (h : (leading expr).run ps = some (b, qs)) : Chains ps b qs :=
  ⟨_, h, .refl⟩

theorem assignment_le_level {k : TokenKind} {op : Infix} (h : Infix.ofKind? k = some op) :
    Level.assignment ≤ op.level := by
  cases k with
  | mark s => cases s <;> cases h <;> decide
  | word w => cases w <;> cases h <;> decide
  | _ => cases h

/-- No operator binds as tightly as an application does. -/
theorem level_le_application {k : TokenKind} {op : Infix} (h : Infix.ofKind? k = some op) :
    op.level ≤ Level.application := by
  cases k with
  | mark s => cases s <;> cases h <;> decide
  | word w => cases w <;> cases h <;> decide
  | _ => cases h

/-- What binds tightly enough somewhere binds tightly enough where everything does. -/
theorem operatorRound_lower {min : Level}
    (h : (operatorRound expr min a).run ps = some (.more b, qs)) :
    min ≤ Level.application ∧ (operatorRound expr .assignment a).run ps = some (.more b, qs) := by
  rw [operatorRound, Parser.kind, run_asks_bind] at h ⊢
  cases hop : operator? (Pieces.kind ps) min with
  | none =>
      rw [hop] at h
      cases h
  | some op =>
      obtain ⟨hbinding, hle⟩ := infix_of_operator? hop
      have hlow : operator? (Pieces.kind ps) .assignment = some op := by
        rw [operator?, hbinding]
        exact if_neg (Nat.not_lt_of_le (assignment_le_level hbinding))
      rw [hop] at h
      exact ⟨Nat.le_trans hle (level_le_application hbinding), by rwa [hlow]⟩

theorem climbRound_lower {min : Level}
    (h : (climbRound expr min a).run ps = some (.more b, qs)) :
    (climbRound expr .assignment a).run ps = some (.more b, qs) := by
  unfold climbRound at h ⊢
  rw [if_pos (show Level.assignment ≤ Level.application by decide)]
  split at h
  · obtain ⟨found, rs, hfound, hnext⟩ := run_bind_eq_some.mp h
    refine run_bind_eq_some.mpr ⟨found, rs, hfound, ?_⟩
    cases found with
    | none => exact (operatorRound_lower hnext).2
    | some app => exact hnext
  · exact absurd (operatorRound_lower h).1 ‹_›

theorem Chains.climb {min : Level} (h : Chains ps a qs)
    (hround : (climbRound expr min a).run qs = some (.more b, rs)) : Chains ps b rs := by
  obtain ⟨x, hx, hgoes⟩ := h
  exact ⟨x, hx, hgoes.tail (climbRound_lower hround)⟩

/-! ## The text of a term -/

section Rounds

variable {step : Part → Parser (Round Part)} {x y : Part × List Piece}
  (hkeeps : ∀ a ps, (step a).Keeps ps 0 0)

include hkeeps

theorem passes_goes (h : ReflTransGen (Goes step) x y) :
    Passes x.2 y.2 0 0 ∧ Calm x.2 y.2 := by
  induction h with
  | refl => exact ⟨.refl _ _, .refl _⟩
  | tail _ hround ih =>
      obtain ⟨hpasses, hcalm⟩ := hkeeps _ _ _ _ hround
      exact ⟨ih.1.trans hpasses, ih.2.trans hcalm⟩

variable (hrounds : ∀ a, Rounds (step a) a) (hfronts : ∀ a u, Settled u t → (step a).Fronts u t)
include hrounds hfronts

/-- Rounds up to a cut are made in front of the cut, too. -/
theorem run_loop_goes (h : ReflTransGen (Goes step) (a, u ++ t) (b, t)) (hu : Settled u t) :
    (loop step a).run u = (loop step b).run [] := by
  generalize hx : (a, u ++ t) = x at h
  induction h using ReflTransGen.head_induction_on generalizing a u with
  | refl =>
      obtain ⟨rfl, hu⟩ := Prod.mk.inj hx
      obtain rfl : u = [] := by simpa using hu
      rfl
  | @head x y hround hgoes ih =>
      obtain ⟨c, rs⟩ := y
      obtain ⟨us, hus, -⟩ := (passes_goes hkeeps hgoes).1
      obtain rfl : rs = us ++ t := hus
      subst hx
      have hfront := hfronts a u hu _ _ hround
      obtain ⟨hdone, -⟩ | ⟨-, hlt⟩ := hrounds a _ _ _ hfront
      · cases hdone
      · exact (run_loop_more hfront hlt).trans
          (ih (hu.of_passes (hkeeps a u _ _ hfront).1) rfl)

end Rounds

theorem Grown.passes (h : Grown ps b qs) : Passes ps qs 0 0 ∧ Calm ps qs := by
  obtain ⟨x, hx, hgoes⟩ | ⟨x, hx, hgoes⟩ := h
  · obtain ⟨hpasses, hcalm⟩ := keeps_operand (n := 0) keeps_expr _ _ hx
    obtain ⟨hpasses', hcalm'⟩ := passes_goes (fun _ _ => keeps_suffixRound keeps_expr) hgoes
    exact ⟨hpasses.trans hpasses', hcalm.trans hcalm'⟩
  · obtain ⟨hpasses, hcalm⟩ := keeps_leading (n := 0) keeps_expr _ _ hx
    obtain ⟨hpasses', hcalm'⟩ :=
      passes_goes (fun _ _ => keeps_climbRound keeps_expr takes_expr _) hgoes
    exact ⟨hpasses.trans hpasses', hcalm.trans hcalm'⟩

theorem Grown.settled (h : Grown (u ++ t) b t) : Settled u t := by
  obtain ⟨⟨us, hus, hwalk⟩, vs, hvs, hclosed⟩ := h.passes
  obtain rfl : u = us := List.append_cancel_right hus
  obtain rfl : u = vs := List.append_cancel_right hvs
  exact ⟨hwalk, hclosed⟩

theorem run_suffixes_nil (b : Part) : (suffixes expr b).run [] = some (b, []) :=
  run_loop_done rfl

theorem run_climb_nil (b : Part) : (loop (climbRound expr .assignment) b).run [] = some (b, []) :=
  run_loop_done rfl

/-- An expression begins with an operand and its suffixes if it begins with an operand at all. -/
theorem run_leading_of_operand {x : Part × List Piece} (h : (operand expr).run ps = some x) :
    (leading expr).run ps = (suffixes expr x.1).run x.2 := by
  have hother : (leading expr).run ps = (operand expr >>= suffixes expr).run ps := by
    rw [leading, Parser.kind, run_asks_bind]
    split
    · rename_i hkind
      simp [operand, Parser.kind, run_bind, hkind, Grammar.isLiteral] at h
    · rename_i hkind
      simp [operand, Parser.kind, run_bind, hkind, Grammar.isLiteral] at h
    · rfl
  rw [hother, run_bind, h]
  rfl

/-- What a term has been read from is read as this term if it stands alone. -/
theorem Grown.run_expr (h : Grown (u ++ t) b t) : (expr .assignment).run u = some (b, []) := by
  have hu := h.settled
  rw [Plain.run_expr]
  refine run_bind_eq_some.mpr ?_
  have hblind (min : Level) (v : List Piece) (n : Nat) (hv : walk v (n + 1) = some 0) :
      (expr min).Blind v t := blind_expr hv
  have hext (min : Level) (u : List Piece) (a : Part) (v : List Piece)
      (hmin : Level.additive ≤ min) (hu : walk u 0 = some 0) (h : (expr min).run u = some (a, v))
      (hv : Barred v) : (expr min).run (u ++ t) = some (a, v ++ t) := expr_append hmin hu h hv
  have hfront (min : Level) (u : List Piece) (hu : Settled u t) : (expr min).Fronts u t :=
    fronts_expr hu
  obtain ⟨⟨a, rs⟩, hx, hgoes⟩ | ⟨⟨a, rs⟩, hx, hgoes⟩ := h
  · have hkeeps (a : Part) (ps : List Piece) : (suffixRound expr a).Keeps ps 0 0 :=
      keeps_suffixRound keeps_expr
    obtain ⟨us, hus, -⟩ := (passes_goes hkeeps hgoes).1
    obtain rfl : rs = us ++ t := hus
    have hoperand := fronts_operand keeps_expr hblind hu _ _ hx
    have hus := hu.of_passes (keeps_operand keeps_expr _ _ hoperand).1
    have hsuffixes : (suffixes expr a).run us = some (b, []) :=
      (run_loop_goes hkeeps (rounds_suffixRound expr)
        (fun _ _ hv => fronts_suffixRound keeps_expr hblind hext hfront hv) hgoes hus).trans
        (run_suffixes_nil b)
    exact ⟨b, [], (run_leading_of_operand hoperand).trans hsuffixes, run_climb_nil b⟩
  · have hkeeps (a : Part) (ps : List Piece) : (climbRound expr .assignment a).Keeps ps 0 0 :=
      keeps_climbRound keeps_expr takes_expr _
    obtain ⟨us, hus, -⟩ := (passes_goes hkeeps hgoes).1
    obtain rfl : rs = us ++ t := hus
    have hleading := fronts_leading keeps_expr hblind hext hfront hu _ _ hx
    have hus := hu.of_passes (keeps_leading keeps_expr _ _ hleading).1
    refine ⟨a, us, hleading, ?_⟩
    exact (run_loop_goes hkeeps (rounds_climbRound takes_expr .assignment)
      (fun _ _ hv => fronts_climbRound keeps_expr hblind takes_expr hfront _ hv) hgoes hus).trans
      (run_climb_nil b)

/-! ## The front of a text -/

theorem overlooks_operand (deep : Level → Parser Part) (p : Piece) (ps : List Piece) :
    (operand deep).Overlooks p ps := by
  refine .kind ?_
  split
  · exact .bind <| .asks (fun _ _ => rfl) <| .bind <| .asks (fun _ _ => by rw [Overlooks.kind_front]) <|
      .ite .advance .fail
  · exact .bind .advance
  · exact .bind .advance
  · exact .bind .advance
  · exact .bind .advance
  · refine .asks (fun _ _ => ?_) <| .ite (.bind .advance) .fail
    rw [atRefl, atRefl, Overlooks.kind_front]
    rfl
  · refine .ite (.asks (fun _ _ => rfl) ?_) .fail
    split
    · exact .bind .advance
    · exact .fail

theorem overlooks_expression (deep : Level → Parser Part) (min : Level) (p : Piece)
    (ps : List Piece) : (expression deep min).Overlooks p ps := by
  refine .bind <| .kind ?_
  split
  · exact .bind .advance
  · exact .bind .advance
  · exact .bind (overlooks_operand deep p ps)

/-- It does not matter for an expression what it is preceded by. -/
theorem overlooks_expr (min : Level) (p : Piece) (ps : List Piece) : (expr min).Overlooks p ps :=
  fun tight second => by rw [run_expr, run_expr, overlooks_expression expr min p ps]

end Plain

end BendSyntax
