import BendSyntax.Grammar.Level
import BendSyntax.Proofs.Forest

/-! How tightly the operators of a tree bind. An operator is bare if it does not stand in
parentheses: these extend its span beyond its operands. A bare operator can be an operand of
another operator only if it binds tightly enough. -/

namespace BendSyntax

namespace InfixForm

/-- The operator that builds a form. -/
def binding : InfixForm → Infix
  | .op .assign => .rightOp .assign .assignment
  | .op .define => .rightOp .define .assignment
  | .check => ⟨.check, .check, .right⟩
  | .op .product => .rightOp .product .product
  | .arrow => ⟨.arrow, .arrow, .right⟩
  | .op .cons => .rightOp .cons .cons
  | .op .or => .leftOp .or .or
  | .op .xor => .leftOp .xor .xor
  | .op .and => .leftOp .and .and
  | .op .eq => .leftOp .eq .equality
  | .op .neq => .leftOp .neq .equality
  | .op .strictEq => .leftOp .strictEq .equality
  | .op .strictNeq => .leftOp .strictNeq .equality
  | .op .lt => .leftOp .lt .comparison
  | .op .gt => .leftOp .gt .comparison
  | .op .le => .leftOp .le .comparison
  | .op .ge => .leftOp .ge .comparison
  | .op .shl => .leftOp .shl .shift
  | .op .shr => .leftOp .shr .shift
  | .op .add => .leftOp .add .additive
  | .op .sub => .leftOp .sub .additive
  | .op .mul => .leftOp .mul .multiplicative
  | .op .div => .leftOp .div .multiplicative
  | .op .mod => .leftOp .mod .multiplicative
  | .op .pow => .rightOp .pow .power
  | .sigma => ⟨.sigma, .sigma, .right⟩

end InfixForm

/-- Whether the operators of a level group to the left. -/
def Level.isLeft (l : Level) : Bool := Level.or ≤ l && l ≤ Level.multiplicative

namespace Infix

/-- The least level of a bare left operand. -/
def previous (i : Infix) : Level :=
  match i.associativity with
  | .left => i.level
  | .right => i.level + 1

/-- The left operand of an operator binds more tightly, or as tightly if the operator groups to
the left. -/
theorem previous_le_iff (i : Infix) (l : Level) :
    i.previous ≤ l ↔ i.level < l ∨ l = i.level ∧ i.associativity = .left := by
  unfold previous
  split <;> grind

theorem next_le_iff (i : Infix) (l : Level) :
    i.next ≤ l ↔ i.level < l ∨ l = i.level ∧ i.associativity = .right := by
  unfold next
  split <;> grind

theorem level_le_previous (i : Infix) : i.level ≤ i.previous := by
  unfold previous
  split
  · exact Nat.le_refl _
  · exact Nat.le_succ _

theorem level_le_next (i : Infix) : i.level ≤ i.next := by
  unfold next
  split
  · exact Nat.le_succ _
  · exact Nat.le_refl _

/-- The table has one operator for every form. -/
theorem binding_of_ofKind? {k : TokenKind} {i : Infix} (h : ofKind? k = some i) :
    i.form.binding = i := by
  unfold ofKind? at h
  split at h
  · unfold ofSymbol? at h
    split at h <;> cases h <;> rfl
  all_goals cases h <;> rfl

end Infix

namespace InfixForm

/-- The operators of a level all group to the same side. -/
theorem binding_associativity (f : InfixForm) :
    f.binding.associativity = if f.binding.level.isLeft then .left else .right := by
  rcases f with op | _ | _ | _
  · cases op <;> rfl
  all_goals rfl

/-- No operator binds as tightly as a sign. -/
theorem binding_level_lt (f : InfixForm) : f.binding.level < Level.operand := by
  rcases f with op | _ | _ | _
  · cases op <;> decide
  all_goals decide

theorem next_le (f : InfixForm) : f.binding.next ≤ Level.operand := by
  have h := f.binding_level_lt
  unfold Infix.next
  split
  · exact h
  · exact Nat.le_of_lt h

/-- Of two operators the first can be in the left operand of the second if and only if the
second cannot be in the right operand of the first. -/
theorem previous_le_iff_lt_next {f g : InfixForm} :
    g.binding.previous ≤ f.binding.level ↔ g.binding.level < f.binding.next := by
  have hf := f.binding_associativity
  have hg := g.binding_associativity
  refine (g.binding.previous_le_iff _).trans (.trans ?_ Nat.not_le)
  rw [f.binding.next_le_iff]
  grind

end InfixForm

/-- The operands of an operator. -/
def Term.infix? {τ π : Type} : Term τ π → Option (InfixForm × τ × τ)
  | op2 op lhs rhs => some (.op op, lhs, rhs)
  | arrow domain codomain => some (.arrow, domain, codomain)
  | check term type => some (.check, term, type)
  | sigma fst snd => some (.sigma, fst, snd)
  | _ => none

namespace Tree

/-- The form of a node that is an operator and does not stand in parentheses: it covers what its
operands and the text between them cover. -/
def bareInfix? (t : Tree) (id : TermId) : Option InfixForm :=
  match t.term? id with
  | some term =>
      match term.infix? with
      | some (form, lhs, rhs) =>
          let hull := (t.span lhs).hull (t.span rhs)
          if (t.span id).start = hull.start ∧ (t.span id).stop = hull.stop then some form else none
      | none => none
  | none => none

/-- Whether a node can be an operand where operators must bind at `level` or more tightly. -/
def Binds (t : Tree) (level : Level) : Ref → Prop
  | .term id => ∀ form ∈ t.bareInfix? id, level ≤ form.binding.level
  | .pattern _ => True

end Tree

/-- A node that is held, with a level at which it binds. -/
structure Held where
  ref : Ref
  level : Level

/-- A node of which it does not matter how tightly it binds. -/
def Held.loose (ref : Ref) : Held := ⟨ref, 0⟩

@[simp] theorem Held.ref_loose (ref : Ref) : (Held.loose ref).ref = ref := rfl

/-- The children of a term, with the levels at which they have to bind. -/
def Term.demands : Term TermId PatternId → List Held
  | op2 op lhs rhs =>
      [⟨.term lhs, (InfixForm.op op).binding.previous⟩, ⟨.term rhs, (InfixForm.op op).binding.next⟩]
  | arrow a b =>
      [⟨.term a, InfixForm.arrow.binding.previous⟩, ⟨.term b, InfixForm.arrow.binding.next⟩]
  | check a b =>
      [⟨.term a, InfixForm.check.binding.previous⟩, ⟨.term b, InfixForm.check.binding.next⟩]
  | sigma a b =>
      [⟨.term a, InfixForm.sigma.binding.previous⟩, ⟨.term b, InfixForm.sigma.binding.next⟩]
  | app func arg => [⟨.term func, .operand⟩, ⟨.term arg, .operand⟩]
  | call head args _ => ⟨.term head, .operand⟩ :: args.map (.loose <| .term ·)
  | implicit head args _ => ⟨.term head, .operand⟩ :: args.map (.loose <| .term ·)
  | tyApp head args => ⟨.term head, .operand⟩ :: args.map (.loose <| .term ·)
  | genericCall head typeArgs args =>
      ⟨.term head, .operand⟩ :: (typeArgs ++ args).map (.loose <| .term ·)
  | listType item => [⟨.term item, .operand⟩]
  | eql type lhs rhs _ => [⟨.term type, .operand⟩, .loose (.term lhs), .loose (.term rhs)]
  | op1 _ arg | sub arg | tilde arg => [⟨.term arg, .operand⟩]
  | tildeMatch scrutinee block => ⟨.term scrutinee, .operand⟩ :: block.terms.map (.loose <| .term ·)
  | term => term.children.map .loose

theorem Term.ref_demands (t : Term TermId PatternId) : t.demands.map (·.ref) = t.children := by
  cases t <;> simp [demands, children, Held.loose, Function.comp_def]

/-- The operands of an operator bind tightly enough. -/
theorem Term.demands_of_infix? {t : Term TermId PatternId} {form : InfixForm} {lhs rhs : TermId}
    (h : t.infix? = some (form, lhs, rhs)) :
    t.demands = [⟨.term lhs, form.binding.previous⟩, ⟨.term rhs, form.binding.next⟩] := by
  unfold infix? at h
  split at h <;> cases h <;> rfl

theorem Term.children_of_infix? {t : Term TermId PatternId} {form : InfixForm} {lhs rhs : TermId}
    (h : t.infix? = some (form, lhs, rhs)) : t.children = [.term lhs, .term rhs] := by
  rw [← t.ref_demands, demands_of_infix? h]
  rfl

end BendSyntax
