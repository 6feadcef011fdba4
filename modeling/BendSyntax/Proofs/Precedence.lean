import BendSyntax.Proofs.Layout.Texts

/-! The operators of an accepted text are grouped as the table says, wherever they stand: a bare
operator is an operand of another one only if it binds more tightly, or as tightly on the side to
which its level groups, and it is nowhere an operand of what binds more tightly than any operator. -/

namespace BendSyntax

/-- The operands that bind more tightly than any operator: of an application, of a sign, and the
heads of what is written directly behind them. -/
def Term.tightOperands {τ π : Type} : Term τ π → List τ
  | app func arg => [func, arg]
  | call head _ _ | implicit head _ _ | tyApp head _ | genericCall head _ _ => [head]
  | listType item => [item]
  | eql type _ _ _ => [type]
  | op1 _ arg | sub arg | tilde arg => [arg]
  | tildeMatch scrutinee _ => [scrutinee]
  | _ => []

theorem Term.tight_mem_demands {t : Term TermId PatternId} {id : TermId}
    (h : id ∈ t.tightOperands) : ⟨.term id, .operand⟩ ∈ t.demands := by
  cases t <;> simp_all [tightOperands, demands]

/-- A tree in which the operators are grouped as the table says. -/
structure Tree.Grouped (t : Tree) : Prop where
  left : ∀ id term form lhs rhs, t.term? id = some term → term.infix? = some (form, lhs, rhs) →
    ∀ operand ∈ t.bareInfix? lhs, form.binding.level < operand.binding.level ∨
      operand.binding.level = form.binding.level ∧ form.binding.associativity = .left
  right : ∀ id term form lhs rhs, t.term? id = some term → term.infix? = some (form, lhs, rhs) →
    ∀ operand ∈ t.bareInfix? rhs, form.binding.level < operand.binding.level ∨
      operand.binding.level = form.binding.level ∧ form.binding.associativity = .right
  tight : ∀ id term, t.term? id = some term → ∀ operand ∈ term.tightOperands,
    t.bareInfix? operand = none

namespace Tree.Sound

variable {t : Tree}

/-- A child of a term of a sound tree binds as tightly as is asked of it. -/
theorem binds (h : t.Sound) {id : TermId} {term : Term TermId PatternId}
    (hterm : t.term? id = some term) {child : Held} (hchild : child ∈ term.demands) :
    t.Binds child.level child.ref := by
  obtain ⟨node, hnode, rfl⟩ := Option.map_eq_some_iff.mp hterm
  exact ((h.terms id.index node hnode).placed.mem hchild).binds

theorem grouped (h : t.Sound) : t.Grouped where
  left id term form lhs rhs hterm hoperands operand hoperand := by
    have hmem : ⟨.term lhs, form.binding.previous⟩ ∈ term.demands := by
      simp [Term.demands_of_infix? hoperands]
    exact (form.binding.previous_le_iff _).mp (h.binds hterm hmem operand hoperand)
  right id term form lhs rhs hterm hoperands operand hoperand := by
    have hmem : ⟨.term rhs, form.binding.next⟩ ∈ term.demands := by
      simp [Term.demands_of_infix? hoperands]
    exact (form.binding.next_le_iff _).mp (h.binds hterm hmem operand hoperand)
  tight id term hterm operand hoperand :=
    bareInfix?_of_binds (h.binds hterm (Term.tight_mem_demands hoperand))

end Tree.Sound

/-- In every accepted text, the operators are grouped as the table says. -/
theorem operators_grouped (source : String) (config : Config) :
    (∀ e, Expression.ofText source config = .ok e → e.tree.Grouped) ∧
      ∀ p, Program.ofTextStrict source config = .ok p → p.tree.Grouped :=
  ⟨fun _ h => (Expression.sound_of_ofText h).grouped,
    fun _ h => (Program.sound_of_ofTextStrict h).1.grouped⟩

set_option maxRecDepth 100000 in
theorem operators_grouped_chain :
    (∃ e, Expression.ofText "-(a - b) - c * f(x + y) ** d <> e -> g :: h" .standard = .ok e ∧
        e.tree.Grouped) ∧
      ∃ p, Program.ofTextStrict "def f : f a b == (c and d) assert x - y - 1 : A -> B & C"
        .standard = .ok p ∧ p.tree.Grouped := by
  constructor
  · have hok : (Expression.ofText "-(a - b) - c * f(x + y) ** d <> e -> g :: h"
        .standard).isOk = true := by
      decide +kernel
    cases h : Expression.ofText "-(a - b) - c * f(x + y) ** d <> e -> g :: h" .standard with
    | ok e => exact ⟨e, rfl, (operators_grouped _ _).1 e h⟩
    | error ds =>
        rw [h] at hok
        cases hok
  · have hok : (Program.ofTextStrict "def f : f a b == (c and d) assert x - y - 1 : A -> B & C"
        .standard).isOk = true := by
      decide +kernel
    cases h : Program.ofTextStrict "def f : f a b == (c and d) assert x - y - 1 : A -> B & C"
        .standard with
    | ok p => exact ⟨p, rfl, (operators_grouped _ _).2 p h⟩
    | error ds =>
        rw [h] at hok
        cases hok

end BendSyntax
