import BendSyntax.Proofs.Layout.Bindings

/-! How a chain of names with operators between them is grouped. There is only one way to group a
chain so that every operator binds its operands as the table says. -/

namespace BendSyntax

/-- A chain of names with operators between them, grouped into operands. -/
inductive Grouping where
  | name (x : String)
  | node (form : InfixForm) (lhs rhs : Grouping)
  deriving Repr, DecidableEq

namespace Grouping

/-- The operator that is applied last. -/
def top? : Grouping → Option InfixForm
  | name _ => none
  | node form _ _ => some form

/-- The name in front of all operators. -/
def first : Grouping → String
  | name x => x
  | node _ lhs _ => lhs.first

/-- The operators in the order of the text, each with the name behind it. -/
def rest : Grouping → List (InfixForm × String)
  | name _ => []
  | node form lhs rhs => lhs.rest ++ (form, rhs.first) :: rhs.rest

/-- An operator that is an operand binds more tightly than the one that it belongs to, or as
tightly on the side to which their level groups. -/
def Grouped : Grouping → Prop
  | name _ => True
  | node form lhs rhs =>
      (∀ operand ∈ lhs.top?, form.binding.level < operand.binding.level ∨
        operand.binding.level = form.binding.level ∧ form.binding.associativity = .left) ∧
      (∀ operand ∈ rhs.top?, form.binding.level < operand.binding.level ∨
        operand.binding.level = form.binding.level ∧ form.binding.associativity = .right) ∧
      lhs.Grouped ∧ rhs.Grouped

/-- Whether all operators bind at a level or more tightly. -/
def AtLeast (level : Level) (g : Grouping) : Prop := ∀ form ∈ g.top?, level ≤ form.binding.level

theorem grouped_node {form : InfixForm} {lhs rhs : Grouping} :
    (node form lhs rhs).Grouped ↔ lhs.AtLeast form.binding.previous ∧
      rhs.AtLeast form.binding.next ∧ lhs.Grouped ∧ rhs.Grouped := by
  simp only [Grouped, AtLeast, Infix.previous_le_iff, Infix.next_le_iff]

/-- No operator of a grouped chain binds less tightly than the one that is applied last. -/
theorem le_of_mem_rest {g : Grouping} (hg : g.Grouped) {level : Level} (htop : g.AtLeast level)
    {step : InfixForm × String} (hstep : step ∈ g.rest) : level ≤ step.1.binding.level := by
  induction g generalizing level with
  | name x => cases hstep
  | node form lhs rhs ihl ihr =>
      obtain ⟨hl, hr, hlhs, hrhs⟩ := grouped_node.mp hg
      have hform : level ≤ form.binding.level := htop form rfl
      rcases List.mem_append.mp hstep with hstep | hstep
      · exact Nat.le_trans hform
          (Nat.le_trans form.binding.level_le_previous (ihl hlhs hl hstep))
      · rcases List.mem_cons.mp hstep with rfl | hstep
        · exact hform
        · exact Nat.le_trans hform (Nat.le_trans form.binding.level_le_next (ihr hrhs hr hstep))

/-- Of two operators, not each can be among the operands of the other. -/
theorem eq_nil_of_rest_eq {f f' : InfixForm} {l r l' r' : Grouping}
    (hg : (node f l r).Grouped) (hg' : (node f' l' r').Grouped) {m : List (InfixForm × String)}
    (hl : l'.rest = l.rest ++ m) (hr : (f, r.first) :: r.rest = m ++ (f', r'.first) :: r'.rest) :
    m = [] := by
  cases m with
  | nil => rfl
  | cons step m =>
      rw [List.cons_append, List.cons.injEq] at hr
      obtain ⟨rfl, hr⟩ := hr
      obtain ⟨-, hright, -, hrhs⟩ := grouped_node.mp hg
      obtain ⟨hleft, -, hlhs, -⟩ := grouped_node.mp hg'
      have hmem : (f, r.first) ∈ l'.rest := by simp [hl]
      have hmem' : (f', r'.first) ∈ r.rest := by simp [hr]
      have hbefore : f'.binding.previous ≤ f.binding.level := le_of_mem_rest hlhs hleft hmem
      have hbehind : f.binding.next ≤ f'.binding.level := le_of_mem_rest hrhs hright hmem'
      exact absurd (InfixForm.previous_le_iff_lt_next.mp hbefore) (Nat.not_lt.mpr hbehind)

/-- There is only one way to group a chain. -/
theorem eq_of_rest_eq {g g' : Grouping} (hg : g.Grouped) (hg' : g'.Grouped)
    (hfirst : g.first = g'.first) (hrest : g.rest = g'.rest) : g = g' := by
  induction g generalizing g' with
  | name x =>
      cases g' with
      | name x' => exact congrArg name hfirst
      | node f' l' r' => simp [rest] at hrest
  | node f l r ihl ihr =>
      cases g' with
      | name x' => simp [rest] at hrest
      | node f' l' r' =>
          have hsame : l.rest = l'.rest ∧
              (f, r.first) :: r.rest = (f', r'.first) :: r'.rest := by
            rcases List.append_eq_append_iff.mp hrest with ⟨m, hl, hr⟩ | ⟨m, hl, hr⟩
            · obtain rfl := eq_nil_of_rest_eq hg hg' hl hr
              exact ⟨by simpa using hl.symm, hr⟩
            · obtain rfl := eq_nil_of_rest_eq hg' hg hl hr
              exact ⟨by simpa using hl, hr.symm⟩
          obtain ⟨hl, hr⟩ := hsame
          obtain ⟨hstep, htail⟩ := List.cons.inj hr
          obtain ⟨rfl, hname⟩ := Prod.mk.inj hstep
          obtain ⟨-, -, hlhs, hrhs⟩ := grouped_node.mp hg
          obtain ⟨-, -, hlhs', hrhs'⟩ := grouped_node.mp hg'
          rw [ihl hlhs hlhs' hfirst hl, ihr hrhs hrhs' hname htail]

end Grouping

end BendSyntax
