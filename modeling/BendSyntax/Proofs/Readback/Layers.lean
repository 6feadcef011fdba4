import BendSyntax.Proofs.Readback.Names
import BendSyntax.Proofs.Readback.Shapes

/-! The dump of a node tells its layer: which constructor it is, its names and literals, and the dumps of its
children. `Term.ofDump` reads the layer back. -/

namespace BendSyntax

open Dump

/-! ## Reading lists -/

namespace Dump

/-- Texts that are the parts of a list. -/
def Parts (ps : List String) : Prop := ∀ p ∈ ps, Listed p

namespace Parts

variable {p : String} {ps qs : List String}

theorem nil : Parts [] := by simp [Parts]

theorem cons (hp : Listed p) (hps : Parts ps) : Parts (p :: ps) := List.forall_mem_cons.mpr ⟨hp, hps⟩

/-- A keyword with parts behind it. -/
theorem keyword (hp : isPlain p = true) (hps : Parts ps) : Parts (p :: ps) :=
  cons (stands_of_isPlain hp).listed hps

theorem of_stands (h : ∀ p ∈ ps, Stands p) : Parts ps := fun p hp => (h p hp).listed

theorem stand (hp : Stands p) (hps : Parts ps) : Parts (p :: ps) := cons hp.listed hps

theorem append (hps : Parts ps) (hqs : Parts qs) : Parts (ps ++ qs) := List.forall_mem_append.mpr ⟨hps, hqs⟩

theorem stands (h : Parts ps) : Stands (group ps) := stands_group h

end Parts

open Classical in
/-- The parts of a list. -/
noncomputable def parts? (s : String) : Option (List String) :=
  if h : ∃ parts, (∀ p ∈ parts, Listed p) ∧ group parts = s then some h.choose else none

theorem parts?_group {parts : List String} (h : Parts parts) : parts? (group parts) = some parts := by
  have hexists : ∃ parts', (∀ p ∈ parts', Listed p) ∧ group parts' = group parts := ⟨parts, h, rfl⟩
  rw [parts?, dif_pos hexists]
  exact congrArg some (group_injective hexists.choose_spec.1 h hexists.choose_spec.2)

/-- What does not begin with a parenthesis is no list. -/
theorem parts?_of_head {s : String} (h : s.toList.head? ≠ some '(') : parts? s = none := by
  refine dif_neg ?_
  rintro ⟨parts, -, rfl⟩
  rw [toList_group] at h
  exact h rfl

/-- Items between angle brackets. -/
def angles (items : List String) : String := "<" ++ spaced items ++ ">"

open Classical in
/-- The items of a list between angle brackets. -/
noncomputable def angles? (s : String) : Option (List String) :=
  if h : ∃ items, items ≠ [] ∧ (∀ p ∈ items, Stands p) ∧ angles items = s then some h.choose else none

theorem toList_angles (items : List String) :
    (angles items).toList = '<' :: ([' '].intercalate (items.map String.toList) ++ ['>']) := by
  simp [angles, spaced, String.toList_intercalate]

theorem listed_angles {items : List String} (hne : items ≠ []) (h : ∀ p ∈ items, Stands p) : Listed (angles items) := by
  rw [Listed, toList_angles]
  exact .angles (by simpa using hne) (List.forall_mem_map.mpr h)

theorem angles_injective {items items' : List String} (h : ∀ p ∈ items, Stands p) (h' : ∀ p ∈ items', Stands p)
    (heq : angles items = angles items') : items = items' := by
  have htext := congrArg String.toList heq
  have hitems : ∀ p ∈ items.map String.toList, Readable false p ∧ Unique false p :=
    List.forall_mem_map.mpr fun p hp => ⟨h p hp, Readable.unique (h p hp)⟩
  rw [toList_angles, toList_angles] at htext
  obtain ⟨hsame, -⟩ := intercalate_unique (by decide) (fun _ => by simp [Follows, Stops]) ne_greater hitems
    (List.forall_mem_map.mpr h') (List.cons.inj htext).2
  exact (List.map_injective_iff.mpr fun _ _ => String.toList_inj.mp) hsame

theorem angles?_angles {items : List String} (hne : items ≠ []) (h : ∀ p ∈ items, Stands p) :
    angles? (angles items) = some items := by
  have hexists : ∃ items', items' ≠ [] ∧ (∀ p ∈ items', Stands p) ∧ angles items' = angles items := ⟨items, hne, h, rfl⟩
  rw [angles?, dif_pos hexists]
  exact congrArg some (angles_injective hexists.choose_spec.2.1 h hexists.choose_spec.2.2)

/-- What stands anywhere is no list between angle brackets. -/
theorem angles?_of_stands {s : String} (h : Stands s) : angles? s = none := by
  refine dif_neg ?_
  rintro ⟨items, -, -, rfl⟩
  obtain ⟨c, cs, heq, -, -, hangles⟩ := Readable.front h
  rw [toList_angles] at heq
  exact (hangles rfl).1 (List.cons.inj heq).1.symm

/-- A text without the mark in front of it. -/
def unmarked (s : String) : String := String.ofList (s.toList.drop 1)

@[simp] theorem unmarked_tagged (name : String) : unmarked (tagged name) = name := by simp [unmarked, tagged]

@[simp] theorem unmarked_symbol (name : String) : unmarked (symbol name) = name := by simp [unmarked, symbol]

end Dump

/-! ## Reading words -/

namespace Literal

open Classical in
/-- The literal that is shown as a text. -/
noncomputable def ofShown? (s : String) : Option Literal :=
  if h : ∃ l : Literal, l.Normal ∧ l.shown = s then some h.choose else none

theorem ofShown?_shown {l : Literal} (h : l.Normal) : ofShown? l.shown = some l := by
  have hexists : ∃ k : Literal, k.Normal ∧ k.shown = l.shown := ⟨l, h, rfl⟩
  rw [ofShown?, dif_pos hexists]
  exact congrArg some (shown_injective hexists.choose_spec.1 h hexists.choose_spec.2)

/-- What begins as no literal does is none. -/
theorem ofShown?_eq_none {s : String} (htrue : s ≠ "True") (hfalse : s ≠ "False")
    (hopens : s.toList.head?.any (decide <| Opens ·) = false) : ofShown? s = none := by
  refine dif_neg ?_
  rintro ⟨l, hl, rfl⟩
  obtain heq | heq | ⟨c, cs, htext, hc⟩ := opens_shown hl
  · exact htrue heq
  · exact hfalse heq
  · simp [htext, hc] at hopens

end Literal

def BinaryOp.list : List BinaryOp :=
  [.assign, .define, .product, .cons, .or, .xor, .and, .eq, .neq, .strictEq, .strictNeq, .lt, .gt, .le, .ge,
    .shl, .shr, .add, .sub, .mul, .div, .mod, .pow]

/-- The operator with a symbol. -/
def BinaryOp.ofSymbol? (s : String) : Option BinaryOp := list.find? (·.symbol = s)

theorem BinaryOp.ofSymbol?_symbol (op : BinaryOp) : ofSymbol? op.symbol = some op := by cases op <;> rfl

def BlockKind.kinds : List BlockKind := [.empty, .unit, .bool, .nat, .list, .pair, .enum, .sup, .eql]

/-- The kind of the blocks whose dumps have a head. -/
def BlockKind.ofHead? (s : String) : Option BlockKind := kinds.find? (·.name ++ "-match" = s)

theorem BlockKind.ofHead?_name (kind : BlockKind) : ofHead? (kind.name ++ "-match") = some kind := by
  cases kind <;> rfl

/-! ## Reading the parts of terms -/

noncomputable def Binder.ofDump (s : String) : Binder String :=
  match parts? s with
  | some [name, type] => ⟨name, .zero, type⟩
  | _ => ⟨s, .zero, ""⟩

def Param.ofParts : List String → Param String String
  | head :: items => if head = "pat" then .patterns items else .typed ⟨head, .zero, items.headD ""⟩
  | [] => .patterns []

noncomputable def Param.ofDump (s : String) : Param String String :=
  match parts? s with
  | some parts => ofParts parts
  | none => .name s .zero

noncomputable def WithClause.ofDump (s : String) : WithClause String :=
  match parts? s with
  | some [name, value] => ⟨name, .zero, some value⟩
  | _ => ⟨s, .zero, none⟩

noncomputable def MatchCase.ofDump (s : String) : MatchCase String String :=
  match parts? s with
  | some (_ :: parts) => ⟨parts.dropLast.dropLast, parts.getLastD "", .zero⟩
  | _ => ⟨[], "", .zero⟩

def CaseTag.ofConstant : String → CaseTag String
  | "()" => .unit
  | "False" => .false
  | "True" => .true
  | "0n" => .zero
  | "1n+" => .succ
  | "[]" => .nil
  | "<>" => .cons
  | "(,)" => .pair
  | _ => .refl

/-- The label in front of the braces of `&L{,}`. -/
def unbraced (s : String) : String := String.ofList (s.toList.take (s.toList.length - 3))

def CaseTag.ofDump (s : String) : CaseTag String :=
  if s.toList.head? = some '@' then .ctor (unmarked s)
  else if s.toList.head? = some '&' then
    if ['\x7b', ',', '\x7d'] <:+ s.toList then .sup (unbraced (unmarked s)) else .sym (unmarked s)
  else ofConstant s

/-- The head and the body of a case. -/
noncomputable def blockEntry (s : String) : String × String :=
  match parts? s with
  | some [tag, body] => (tag, body)
  | _ => ("", "")

noncomputable def CaseBlock.ofParts (head : String) (parts : List String) : CaseBlock String :=
  let entries := parts.map blockEntry
  ⟨(BlockKind.ofHead? head).getD .empty,
    (entries.filter (·.1 ≠ "_")).map fun entry => ⟨CaseTag.ofDump entry.1, .zero, entry.2⟩,
    (entries.find? (·.1 = "_")).map (·.2)⟩

noncomputable def CaseBlock.ofDump (s : String) : CaseBlock String :=
  match parts? s with
  | some (head :: parts) => ofParts head parts
  | _ => ⟨.empty, [], none⟩

/-! ## Reading patterns -/

noncomputable def Pattern.ofWord (s : String) : Pattern String :=
  if s.toList.head? = some '@' then .tag (unmarked s)
  else if s.toList.head? = some '&' then .sym (unmarked s)
  else
    match Literal.ofShown? s with
    | some value => .lit value
    | none => if s = "[]" then .emptyList else .var s

noncomputable def Pattern.ofKeyword : String → List String → Pattern String
  | "+", [n, rest] =>
      match Literal.ofShown? n with
      | some (.nat n) => .succ n rest
      | _ => .emptyList
  | "tuple", items => .tuple items
  | "list", items => .list items
  | "<>", [head, tail] => .cons head tail
  | "paren", [inner] => .paren inner
  | _, _ => .emptyList

noncomputable def Pattern.ofParts : List String → Pattern String
  | [] => .emptyList
  | head :: args => if head.toList.head? = some '@' then .ctor (unmarked head) args else ofKeyword head args

/-- The layer of a pattern with a dump. -/
noncomputable def Pattern.ofDump (s : String) : Pattern String :=
  match parts? s with
  | some parts => ofParts parts
  | none => ofWord s

/-! ## Reading terms -/

namespace Term

def ofConstant? : String → Option (Term String String)
  | "[]" => some .emptyList
  | "*" => some .era
  | "Set" => some .set
  | "Empty" => some .emptyType
  | "Unit" => some .unitType
  | "Bool" => some .boolType
  | "Nat" => some .natType
  | "U64" => some (.num .u64)
  | "I64" => some (.num .i64)
  | "F64" => some (.num .f64)
  | "Char" => some (.num .char)
  | "Self" => some .selfType
  | "U64_TO_CHAR" => some (.pri .u64ToChar)
  | "CHAR_TO_U64" => some (.pri .charToU64)
  | "HVM_INC" => some (.pri .hvmInc)
  | "HVM_DEC" => some (.pri .hvmDec)
  | "\x7b==\x7d" => some .refl
  | _ => none

def ofName (s : String) : Term String String :=
  if '/' ∈ s.toList then .qualified (Grammar.cutAtSlashes s.toList) else .var s

noncomputable def ofWord (s : String) : Term String String :=
  if s.toList.head? = some '@' then .tag (unmarked s)
  else if s.toList.head? = some '&' then .sym (unmarked s)
  else
    match Literal.ofShown? s with
    | some value => .lit value
    | none => (ofConstant? s).getD (ofName s)

noncomputable def ofCall (head : String) : List String → Term String String
  | [] => .call head [] true
  | arg :: args =>
      match angles? arg with
      | some typeArgs => .genericCall head typeArgs args
      | none => .call head (arg :: args) true

noncomputable def ofLet (bound value body : String) : Term String String :=
  match parts? bound with
  | some [name, type] => .letIn name (some type) value body
  | _ => .letIn bound none value body

/-- The second part of a list of two. -/
noncomputable def secondPart (s : String) : String :=
  match parts? s with
  | some [_, part] => part
  | _ => ""

noncomputable def ofFork (cond yes : String) (rest : List String) : Term String String :=
  .fork cond yes (rest.dropLast.map secondPart) (secondPart (rest.getLastD ""))

/-- The clauses in front of the cases of a match. -/
noncomputable def withs? (s : String) : Option (List String) :=
  match parts? s with
  | some ("with" :: withs) => some withs
  | _ => none

noncomputable def ofMatch (scrutinees : List String) : List String → Term String String
  | [] => .matchOn scrutinees [] []
  | clause :: cases =>
      match withs? clause with
      | some withs => .matchOn scrutinees (withs.map WithClause.ofDump) (cases.map MatchCase.ofDump)
      | none => .matchOn scrutinees [] ((clause :: cases).map MatchCase.ofDump)

/-- A term that is a list with a keyword or an operator in front. -/
noncomputable def ofKeyword : String → List String → Term String String
  | "ref", [name] => .ref name
  | "sub", [arg] => .sub arg
  | "enum", symbols => .enum (symbols.map unmarked)
  | "all", parts => .all (parts.dropLast.map Binder.ofDump) (parts.getLastD "")
  | "any", [binder, body] => .any (Binder.ofDump binder) body
  | "sigma", [fst, snd] => .sigma fst snd
  | "->", [domain, codomain] => .arrow domain codomain
  | "eql", [type, lhs, rhs] => .eql type lhs rhs false
  | "neq", [type, lhs, rhs] => .eql type lhs rhs true
  | "list-type", [item] => .listType item
  | "meta", name :: type :: ctx => .hole name type ctx
  | "tyapp", head :: args => .tyApp head args
  | "lam", [params, body] => .lam (((parts? params).getD []).map Param.ofDump) body
  | "lam", [block] => .lamMatch (CaseBlock.ofDump block)
  | "mu", [name, body] => .fix name body
  | "let", [bound, value, body] => ofLet bound value body
  | "use", [name, value, body] => .useIn name value body
  | "call", head :: args => ofCall head args
  | "implicit", head :: args => .implicit head args true
  | "app", [func, arg] => .app func arg
  | "not", [arg] => .op1 .not arg
  | "neg", [arg] => .op1 .neg arg
  | "~", [arg] => .tilde arg
  | "~", [scrutinee, block] => .tildeMatch scrutinee (CaseBlock.ofDump block)
  | "if", [cond, yes, no] => .ite cond yes no
  | "fork", cond :: yes :: rest => ofFork cond yes rest
  | "match", scrutinees :: rest => ofMatch ((parts? scrutinees).getD []) rest
  | "rewrite", [proof, body] => .rewrite proof body
  | "trust", [arg] => .trust arg
  | "absurd", [arg] => .absurd arg
  | "sup", [label, left, right] => .sup label left right
  | "log", [message, body] => .log message body
  | "view", [name] => .view name
  | "::", [term, type] => .check term type
  | "tuple", items => .tuple items
  | "list", items => .list items
  | "return", [arg] => .ret arg
  | symbol, [lhs, rhs] => .op2 ((BinaryOp.ofSymbol? symbol).getD .assign) lhs rhs
  | _, _ => .error

noncomputable def ofParts : List String → Term String String
  | [] => .unit
  | head :: args => if head.toList.head? = some '@' then .ctor (unmarked head) args else ofKeyword head args

/-- The layer of a term with a dump. -/
noncomputable def ofDump (s : String) : Term String String :=
  match parts? s with
  | some parts => ofParts parts
  | none => ofWord s

end Term

end BendSyntax
