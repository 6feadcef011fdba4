import BendSyntax.Proofs.Chain.Sessions
import BendSyntax.Proofs.Lexing.Tiling
import BendSyntax.Proofs.Safety

/-! Formulas: terms made of names, natural literals, operators, applications, tuples, lists and
calls, and how they are written with parentheses around all operands. The text of a formula is cut
into the tokens that it is meant to have. -/

namespace BendSyntax

open Grammar

/-! ## Formulas -/

/-- A name that is not a path. -/
structure SimpleName extends Identifier where
  simple : text.toList.contains '/' = false

/-- An operator between two operands that is not an assignment. -/
structure Operator where
  form : InfixForm
  notAssign : form ≠ .op .assign
  notDefine : form ≠ .op .define

inductive Formula where
  | name (x : SimpleName)
  | nat (n : UInt64)
  | binary (op : Operator) (lhs rhs : Formula)
  | unary (op : UnaryOp) (arg : Formula)
  | app (func arg : Formula)
  | tuple (first : Formula) (rest : List Formula)
  | list (first : Formula) (rest : List Formula)
  | call (func : SimpleName) (args : List Formula)

namespace InfixForm

/-- The token that stands for an operator. -/
def kind : InfixForm → TokenKind
  | .op .assign => .mark .equals
  | .op .define => .mark .colonEq
  | .op .product => .mark .ampersand
  | .op .cons => .mark .cons
  | .op .or => .word .or
  | .op .xor => .word .xor
  | .op .and => .word .and
  | .op .eq => .mark .eqEq
  | .op .neq => .mark .notEq
  | .op .strictEq => .mark .strictEq
  | .op .strictNeq => .mark .strictNotEq
  | .op .lt => .mark .less
  | .op .gt => .mark .greater
  | .op .le => .mark .lessEq
  | .op .ge => .mark .greaterEq
  | .op .shl => .mark .shiftLeft
  | .op .shr => .mark .shiftRight
  | .op .add => .mark .plus
  | .op .sub => .mark .minus
  | .op .mul => .mark .star
  | .op .div => .mark .slash
  | .op .mod => .mark .percent
  | .op .pow => .mark .power
  | .arrow => .mark .arrow
  | .check => .mark .doubleColon
  | .sigma => .mark .dot

theorem ofKind?_kind (form : InfixForm) : Infix.ofKind? form.kind = some form.binding := by
  rcases form with o | _ | _ | _
  · cases o <;> rfl
  all_goals rfl

/-- The term that an operator builds of its operands, whatever these are. -/
def term {τ π : Type} (form : InfixForm) (lhs rhs : τ) : Term τ π :=
  match form with
  | .op o => .op2 o lhs rhs
  | .arrow => .arrow lhs rhs
  | .check => .check lhs rhs
  | .sigma => .sigma lhs rhs

theorem check_le_level {form : InfixForm} (hassign : form ≠ .op .assign)
    (hdefine : form ≠ .op .define) : Level.check ≤ form.binding.level := by
  rcases form with o | _ | _ | _
  · cases o <;> first | exact absurd rfl hassign | exact absurd rfl hdefine | decide
  all_goals decide

end InfixForm

/-- The token of an operator in front of its operand. -/
def UnaryOp.kind : UnaryOp → TokenKind
  | not => .word .not
  | neg => .mark .minus

/-- Texts with commas between them. -/
def commas : List String → String
  | [] => ""
  | [x] => x
  | x :: y :: xs => s!"{x}, {commas (y :: xs)}"

mutual

/-- A formula with parentheses around the operands of operators, signs and applications. -/
def Formula.text : Formula → String
  | name x => x.text
  | nat n => s!"{n.toNat}n"
  | binary op lhs rhs => s!"({lhs.text}) {op.form.kind.name} ({rhs.text})"
  | unary op arg => s!"{op.kind.name} ({arg.text})"
  | app func arg => s!"({func.text}) ({arg.text})"
  | tuple first [] => s!"({first.text},)"
  | tuple first (second :: rest) => s!"({commas (first.text :: second.text :: texts rest)})"
  | list first rest => s!"[{commas (first.text :: texts rest)}]"
  | call func args => s!"{func.text}({commas (texts args)})"

def Formula.texts : List Formula → List String
  | [] => []
  | f :: fs => f.text :: texts fs

end

mutual

/-- How deep the readings of a formula are nested. -/
def Formula.depth : Formula → Nat
  | name _ => 1
  | nat _ => 1
  | binary _ lhs rhs => max lhs.depth rhs.depth + 2
  | unary _ arg => arg.depth + 2
  | app func arg => max func.depth arg.depth + 2
  | tuple first rest => max first.depth (depths rest) + 1
  | list first rest => max first.depth (depths rest) + 1
  | call _ args => depths args + 1

def Formula.depths : List Formula → Nat
  | [] => 0
  | f :: fs => max f.depth (depths fs)

end

mutual

/-- The structural dump of a formula. -/
def Formula.dump : Formula → String
  | name x => x.text
  | nat n => (.lit (.nat n.toNat) : Term String String).dump
  | binary op lhs rhs => (op.form.term lhs.dump rhs.dump : Term String String).dump
  | unary op arg => (.op1 op arg.dump : Term String String).dump
  | app func arg => (.app func.dump arg.dump : Term String String).dump
  | tuple first rest => (.tuple (first.dump :: dumps rest) : Term String String).dump
  | list first rest => (.list (first.dump :: dumps rest) : Term String String).dump
  | call func args => (.call func.text (dumps args) true : Term String String).dump

def Formula.dumps : List Formula → List String
  | [] => []
  | f :: fs => f.dump :: dumps fs

end

mutual

/-- Whether a term is a formula. -/
def Tree.Stores (t : Tree) : Formula → TermId → Prop
  | .name x, id => t.term? id = some (.var x.text)
  | .nat n, id => t.term? id = some (.lit (.nat n.toNat))
  | .binary op lhs rhs, id =>
      ∃ a b, t.term? id = some (op.form.term a b) ∧ t.Stores lhs a ∧ t.Stores rhs b
  | .unary op arg, id => ∃ a, t.term? id = some (.op1 op a) ∧ t.Stores arg a
  | .app func arg, id => ∃ a b, t.term? id = some (.app a b) ∧ t.Stores func a ∧ t.Stores arg b
  | .tuple first rest, id =>
      ∃ a as, t.term? id = some (.tuple (a :: as)) ∧ t.Stores first a ∧ t.StoresAll rest as
  | .list first rest, id =>
      ∃ a as, t.term? id = some (.list (a :: as)) ∧ t.Stores first a ∧ t.StoresAll rest as
  | .call func args, id =>
      ∃ a as, t.term? id = some (.call a as true) ∧ t.term? a = some (.var func.text) ∧
        t.StoresAll args as

def Tree.StoresAll (t : Tree) : List Formula → List TermId → Prop
  | [], ids => ids = []
  | f :: fs, ids => ∃ a as, ids = a :: as ∧ t.Stores f a ∧ t.StoresAll fs as

end

namespace Tree

mutual

theorem Stores.mono {t u : Tree} (h : t.Extends u) :
    (f : Formula) → (id : TermId) → t.Stores f id → u.Stores f id
  | .name _, _, hterm => h.term? hterm
  | .nat _, _, hterm => h.term? hterm
  | .binary _ lhs rhs, _, ⟨a, b, hterm, hlhs, hrhs⟩ =>
      ⟨a, b, h.term? hterm, Stores.mono h lhs a hlhs, Stores.mono h rhs b hrhs⟩
  | .unary _ arg, _, ⟨a, hterm, harg⟩ => ⟨a, h.term? hterm, Stores.mono h arg a harg⟩
  | .app func arg, _, ⟨a, b, hterm, hfunc, harg⟩ =>
      ⟨a, b, h.term? hterm, Stores.mono h func a hfunc, Stores.mono h arg b harg⟩
  | .tuple first rest, _, ⟨a, as, hterm, hfirst, hrest⟩ =>
      ⟨a, as, h.term? hterm, Stores.mono h first a hfirst, StoresAll.mono h rest as hrest⟩
  | .list first rest, _, ⟨a, as, hterm, hfirst, hrest⟩ =>
      ⟨a, as, h.term? hterm, Stores.mono h first a hfirst, StoresAll.mono h rest as hrest⟩
  | .call _ args, _, ⟨a, as, hterm, hfunc, hargs⟩ =>
      ⟨a, as, h.term? hterm, h.term? hfunc, StoresAll.mono h args as hargs⟩

theorem StoresAll.mono {t u : Tree} (h : t.Extends u) :
    (fs : List Formula) → (ids : List TermId) → t.StoresAll fs ids → u.StoresAll fs ids
  | [], _, hids => hids
  | f :: fs, _, ⟨a, as, hids, hf, hfs⟩ =>
      ⟨a, as, hids, Stores.mono h f a hf, StoresAll.mono h fs as hfs⟩

end

section Dumps

variable {t : Tree}

theorem InRange.dump (h : t.InRange) {id : TermId} {term : Term TermId PatternId}
    (hid : t.term? id = some term) :
    t.dump id = (term.map t.dump fun q => t.patternDumps.getD q.index "").dump := by
  refine dump_of_term? hid fun a ha => ?_
  obtain ⟨node, hnode, rfl⟩ := Option.map_eq_some_iff.mp hid
  obtain ⟨hi, rfl⟩ := Array.getElem?_eq_some_iff.mp hnode
  exact h.terms id.index hi a ha

mutual

/-- A term that is a formula has its dump. -/
theorem Stores.dump (h : t.InRange) : (f : Formula) → (id : TermId) → t.Stores f id → t.dump id = f.dump
  | .name x, id, hterm => by rw [h.dump hterm]; rfl
  | .nat n, id, hterm => by rw [h.dump hterm]; rfl
  | .binary op lhs rhs, id, ⟨a, b, hterm, hlhs, hrhs⟩ => by
      rw [h.dump hterm, Formula.dump, ← Stores.dump h lhs a hlhs, ← Stores.dump h rhs b hrhs]
      cases op.form <;> rfl
  | .unary op arg, id, ⟨a, hterm, harg⟩ => by
      rw [h.dump hterm, Formula.dump, ← Stores.dump h arg a harg]
      rfl
  | .app func arg, id, ⟨a, b, hterm, hfunc, harg⟩ => by
      rw [h.dump hterm, Formula.dump, ← Stores.dump h func a hfunc, ← Stores.dump h arg b harg]
      rfl
  | .tuple first rest, id, ⟨a, as, hterm, hfirst, hrest⟩ => by
      rw [h.dump hterm, Formula.dump, ← Stores.dump h first a hfirst, ← StoresAll.dumps h rest as hrest]
      rfl
  | .list first rest, id, ⟨a, as, hterm, hfirst, hrest⟩ => by
      rw [h.dump hterm, Formula.dump, ← Stores.dump h first a hfirst, ← StoresAll.dumps h rest as hrest]
      rfl
  | .call func args, id, ⟨a, as, hterm, hfunc, hargs⟩ => by
      have hhead : t.dump a = func.text := by rw [h.dump hfunc]; rfl
      rw [h.dump hterm, Formula.dump, ← hhead, ← StoresAll.dumps h args as hargs]
      rfl

theorem StoresAll.dumps (h : t.InRange) :
    (fs : List Formula) → (ids : List TermId) → t.StoresAll fs ids → ids.map t.dump = Formula.dumps fs
  | [], ids, hids => by rw [hids]; rfl
  | f :: fs, ids, ⟨a, as, hids, hf, hfs⟩ => by
      rw [hids, List.map_cons, Stores.dump h f a hf, StoresAll.dumps h fs as hfs]
      rfl

end

end Dumps

end Tree

end BendSyntax
