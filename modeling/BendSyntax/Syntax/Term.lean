import BendSyntax.Syntax.Operator
import BendSyntax.Token.Literal

/-!
# Terms

One layer of a term over the subterms `τ` and the patterns `π`. Types and terms share
the constructors; which of the two a node was read as is kept beside it, as its usage.
-/

namespace BendSyntax

/-- The slot that a term was read for. -/
inductive Usage where
  | term | type
  deriving Repr, DecidableEq, Inhabited

/-- `x: A` in a binder list, a parameter list or a field list. -/
structure Binder (τ : Type) where
  name : String
  span : Span
  type : τ
  deriving Repr, DecidableEq, Inhabited

/-- A parameter of a lambda. -/
inductive Param (τ π : Type) where
  | name (name : String) (span : Span)
  | typed (binder : Binder τ)
  | patterns (items : List π)
  deriving Repr, DecidableEq

/-- `with x` or `with x = e` in a `match`. -/
structure WithClause (τ : Type) where
  name : String
  span : Span
  value : Option τ
  deriving Repr, DecidableEq

/-- `case p q: body` in a `match`. -/
structure MatchCase (τ π : Type) where
  patterns : List π
  body : τ
  span : Span
  deriving Repr, DecidableEq

/-- The shape that a case block eliminates. -/
inductive BlockKind where
  | empty | unit | bool | nat | list | pair | enum | sup | eql
  deriving Repr, DecidableEq, Inhabited

/-- The head of a case in a case block. -/
inductive CaseTag (τ : Type) where
  | unit | false | true | zero | succ | nil | cons | pair
  | ctor (name : String)
  | sym (name : String)
  /-- `&L{,}` with the label `L`. -/
  | sup (label : τ)
  | refl
  deriving Repr, DecidableEq

structure BlockCase (τ : Type) where
  tag : CaseTag τ
  span : Span
  body : τ
  deriving Repr, DecidableEq

/-- The cases of `λ{...}` or `~e{...}` in source order. -/
structure CaseBlock (τ : Type) where
  kind : BlockKind
  cases : List (BlockCase τ)
  /-- A last case without a head; only enum blocks have one. -/
  fallback : Option τ
  deriving Repr, DecidableEq

inductive Term (τ π : Type) where
  | var (name : String)
  /-- `mod/name`, cut at the slashes. -/
  | qualified (path : List String)
  | ref (name : String)
  | sub (arg : τ)
  | lit (value : Literal)
  | unit
  | emptyList
  /-- `*` -/
  | era
  | tag (name : String)
  | ctor (name : String) (args : List τ)
  | sym (name : String)
  | enum (symbols : List String)
  | set
  | emptyType
  | unitType
  | boolType
  | natType
  | num (type : NumType)
  | selfType
  | all (binders : List (Binder τ)) (body : τ)
  | any (binder : Binder τ) (body : τ)
  /-- `A . B`, a pair type without a binder. -/
  | sigma (fst snd : τ)
  | arrow (domain codomain : τ)
  | eql (type lhs rhs : τ) (negated : Bool)
  | listType (item : τ)
  | hole (name : String) (type : τ) (ctx : List τ)
  | tyApp (head : τ) (args : List τ)
  | lam (params : List (Param τ π)) (body : τ)
  | lamMatch (block : CaseBlock τ)
  | fix (name : String) (body : τ)
  | letIn (name : String) (type : Option τ) (value body : τ)
  | useIn (name : String) (value body : τ)
  /-- `tight` tells that no blank stands in front of the bracket. -/
  | call (head : τ) (args : List τ) (tight : Bool)
  | genericCall (head : τ) (typeArgs args : List τ)
  | implicit (head : τ) (args : List τ) (tight : Bool)
  | app (func arg : τ)
  | op2 (op : BinaryOp) (lhs rhs : τ)
  | op1 (op : UnaryOp) (arg : τ)
  /-- `~e`, the mark of an induction. -/
  | tilde (arg : τ)
  | ite (cond yes no : τ)
  | fork (cond yes : τ) (elifs : List τ) (no : τ)
  | matchOn (scrutinees : List τ) (withs : List (WithClause τ)) (cases : List (MatchCase τ π))
  | tildeMatch (scrutinee : τ) (block : CaseBlock τ)
  | rewrite (proof body : τ)
  /-- `{==}` or `finally` -/
  | refl
  | trust (arg : τ)
  | absurd (arg : τ)
  | sup (label left right : τ)
  | log (message body : τ)
  | view (name : String)
  | pri (primitive : Primitive)
  /-- `e :: T` -/
  | check (term type : τ)
  | tuple (items : List τ)
  | list (items : List τ)
  | ret (arg : τ)
  /-- Stands for text that was skipped after an error. -/
  | error
  deriving Repr, DecidableEq, Inhabited

/-- A child of a term. -/
inductive Child (τ π : Type) where
  | term (t : τ)
  | pattern (p : π)
  deriving Repr, DecidableEq

section Map

variable {τ υ π ρ : Type} (f : τ → υ) (g : π → ρ)

def Binder.map (b : Binder τ) : Binder υ := ⟨b.name, b.span, f b.type⟩

def Param.map : Param τ π → Param υ ρ
  | name n span => name n span
  | typed b => typed (b.map f)
  | patterns items => patterns (items.map g)

def WithClause.map (w : WithClause τ) : WithClause υ := ⟨w.name, w.span, w.value.map f⟩

def MatchCase.map (c : MatchCase τ π) : MatchCase υ ρ := ⟨c.patterns.map g, f c.body, c.span⟩

def CaseTag.map : CaseTag τ → CaseTag υ
  | unit => unit
  | false => false
  | true => true
  | zero => zero
  | succ => succ
  | nil => nil
  | cons => cons
  | pair => pair
  | ctor name => ctor name
  | sym name => sym name
  | sup label => sup (f label)
  | refl => refl

def BlockCase.map (c : BlockCase τ) : BlockCase υ := ⟨c.tag.map f, c.span, f c.body⟩

def CaseBlock.map (b : CaseBlock τ) : CaseBlock υ :=
  ⟨b.kind, b.cases.map (·.map f), b.fallback.map f⟩

def Term.map : Term τ π → Term υ ρ
  | var name => var name
  | qualified path => qualified path
  | ref name => ref name
  | sub arg => sub (f arg)
  | lit value => lit value
  | unit => unit
  | emptyList => emptyList
  | era => era
  | tag name => tag name
  | ctor name args => ctor name (args.map f)
  | sym name => sym name
  | enum symbols => enum symbols
  | set => set
  | emptyType => emptyType
  | unitType => unitType
  | boolType => boolType
  | natType => natType
  | num type => num type
  | selfType => selfType
  | all binders body => all (binders.map (·.map f)) (f body)
  | any binder body => any (binder.map f) (f body)
  | sigma fst snd => sigma (f fst) (f snd)
  | arrow domain codomain => arrow (f domain) (f codomain)
  | eql type lhs rhs negated => eql (f type) (f lhs) (f rhs) negated
  | listType item => listType (f item)
  | hole name type ctx => hole name (f type) (ctx.map f)
  | tyApp head args => tyApp (f head) (args.map f)
  | lam params body => lam (params.map (·.map f g)) (f body)
  | lamMatch block => lamMatch (block.map f)
  | fix name body => fix name (f body)
  | letIn name type value body => letIn name (type.map f) (f value) (f body)
  | useIn name value body => useIn name (f value) (f body)
  | call head args tight => call (f head) (args.map f) tight
  | genericCall head typeArgs args => genericCall (f head) (typeArgs.map f) (args.map f)
  | implicit head args tight => implicit (f head) (args.map f) tight
  | app func arg => app (f func) (f arg)
  | op2 op lhs rhs => op2 op (f lhs) (f rhs)
  | op1 op arg => op1 op (f arg)
  | tilde arg => tilde (f arg)
  | ite cond yes no => ite (f cond) (f yes) (f no)
  | fork cond yes elifs no => fork (f cond) (f yes) (elifs.map f) (f no)
  | matchOn scrutinees withs cases =>
      matchOn (scrutinees.map f) (withs.map (·.map f)) (cases.map (·.map f g))
  | tildeMatch scrutinee block => tildeMatch (f scrutinee) (block.map f)
  | rewrite proof body => rewrite (f proof) (f body)
  | refl => refl
  | trust arg => trust (f arg)
  | absurd arg => absurd (f arg)
  | sup label left right => sup (f label) (f left) (f right)
  | log message body => log (f message) (f body)
  | view name => view name
  | pri primitive => pri primitive
  | check term type => check (f term) (f type)
  | tuple items => tuple (items.map f)
  | list items => list (items.map f)
  | ret arg => ret (f arg)
  | error => error

end Map

section Children

variable {τ π : Type}

/-- The length of the text of a name, if a term is one. -/
def Term.nameLength? : Term τ π → Option Nat
  | var name => some name.utf8ByteSize
  | qualified path => some ("/".intercalate path).utf8ByteSize
  | _ => none

def Param.children : Param τ π → List (Child τ π)
  | name _ _ => []
  | typed b => [.term b.type]
  | patterns items => items.map .pattern

def MatchCase.children (c : MatchCase τ π) : List (Child τ π) :=
  c.patterns.map .pattern ++ [.term c.body]

def BlockCase.terms (c : BlockCase τ) : List τ :=
  match c.tag with
  | .sup label => [label, c.body]
  | _ => [c.body]

def CaseBlock.terms (b : CaseBlock τ) : List τ := b.cases.flatMap (·.terms) ++ b.fallback.toList

/-- The subterms and patterns of a term in source order. -/
def Term.children : Term τ π → List (Child τ π)
  | var _ | qualified _ | ref _ | lit _ | unit | emptyList | era | tag _ | sym _ | enum _ => []
  | set | emptyType | unitType | boolType | natType | num _ | selfType => []
  | refl | view _ | pri _ | error => []
  | sub arg | listType arg | tilde arg | trust arg | absurd arg | ret arg => [.term arg]
  | op1 _ arg => [.term arg]
  | fix _ body => [.term body]
  | ctor _ args => args.map .term
  | tuple items => items.map .term
  | list items => items.map .term
  | all binders body => binders.map (.term ·.type) ++ [.term body]
  | any binder body => [.term binder.type, .term body]
  | sigma a b | arrow a b | app a b | rewrite a b | log a b | check a b => [.term a, .term b]
  | op2 _ a b => [.term a, .term b]
  | useIn _ a b => [.term a, .term b]
  | eql type lhs rhs _ => [.term type, .term lhs, .term rhs]
  | hole _ type ctx => .term type :: ctx.map .term
  | tyApp head args => .term head :: args.map .term
  | call head args _ => .term head :: args.map .term
  | implicit head args _ => .term head :: args.map .term
  | genericCall head typeArgs args => .term head :: (typeArgs ++ args).map .term
  | letIn _ type value body => (type.toList ++ [value, body]).map .term
  | ite a b c | sup a b c => [.term a, .term b, .term c]
  | fork cond yes elifs no => (cond :: yes :: elifs ++ [no]).map .term
  | lamMatch block => block.terms.map .term
  | tildeMatch scrutinee block => (scrutinee :: block.terms).map .term
  | lam params body => params.flatMap (·.children) ++ [.term body]
  | matchOn scrutinees withs cases =>
      scrutinees.map .term ++ (withs.filterMap (·.value)).map .term ++ cases.flatMap (·.children)

end Children

end BendSyntax
