import BendSyntax.Syntax.Term

/-!
# Top-level items

Definitions, type definitions, assertions, proofs and bare expressions, over the terms
`τ` that they own.
-/

namespace BendSyntax

/-- `T` or `T: Set` in a list of type parameters. -/
structure TypeParam (τ : Type) where
  name : String
  span : Span
  bound : Option τ
  deriving Repr, DecidableEq

inductive DefForm (τ : Type) where
  /-- `def f(x: A) -> B : body` -/
  | full (params : List (Binder τ)) (result : Option τ) (body : τ)
  /-- `def f : T = value` -/
  | equation (type value : τ)
  /-- `def f : body` -/
  | nullary (body : τ)
  deriving Repr, DecidableEq

structure Def (τ : Type) where
  name : String
  typeParams : List (TypeParam τ)
  form : DefForm τ
  span : Span
  deriving Repr, DecidableEq

/-- `case @Tag: field: T ...` -/
structure CtorCase (τ : Type) where
  tag : String
  fields : List (Binder τ)
  span : Span
  deriving Repr, DecidableEq

structure TypeDef (τ : Type) where
  name : String
  typeParams : List (TypeParam τ)
  params : List (Binder τ)
  cases : List (CtorCase τ)
  span : Span
  deriving Repr, DecidableEq

inductive Item (τ : Type) where
  | definition (d : Def τ)
  | typeDef (d : TypeDef τ)
  | assertion (term type : τ) (span : Span)
  | proof (name : String) (type body : τ) (span : Span)
  | expr (term : τ)
  /-- A region that could not be read at all. -/
  | error (span : Span)
  deriving Repr, DecidableEq

section Map

variable {τ υ : Type} (f : τ → υ)

def TypeParam.map (p : TypeParam τ) : TypeParam υ := ⟨p.name, p.span, p.bound.map f⟩

def DefForm.map : DefForm τ → DefForm υ
  | full params result body => full (params.map (·.map f)) (result.map f) (f body)
  | equation type value => equation (f type) (f value)
  | nullary body => nullary (f body)

def Def.map (d : Def τ) : Def υ := ⟨d.name, d.typeParams.map (·.map f), d.form.map f, d.span⟩

def CtorCase.map (c : CtorCase τ) : CtorCase υ := ⟨c.tag, c.fields.map (·.map f), c.span⟩

def TypeDef.map (d : TypeDef τ) : TypeDef υ :=
  ⟨d.name, d.typeParams.map (·.map f), d.params.map (·.map f), d.cases.map (·.map f), d.span⟩

def Item.map : Item τ → Item υ
  | definition d => definition (d.map f)
  | typeDef d => typeDef (d.map f)
  | assertion term type span => assertion (f term) (f type) span
  | proof name type body span => proof name (f type) (f body) span
  | expr term => expr (f term)
  | error span => error span

end Map

section Roots

variable {τ : Type}

def DefForm.roots : DefForm τ → List τ
  | full params result body => params.map (·.type) ++ result.toList ++ [body]
  | equation type value => [type, value]
  | nullary body => [body]

def Def.roots (d : Def τ) : List τ := d.typeParams.filterMap (·.bound) ++ d.form.roots

def TypeDef.roots (d : TypeDef τ) : List τ :=
  d.typeParams.filterMap (·.bound) ++ d.params.map (·.type) ++
    d.cases.flatMap fun c => c.fields.map (·.type)

/-- The terms that an item owns, in source order. -/
def Item.roots : Item τ → List τ
  | definition d => d.roots
  | typeDef d => d.roots
  | assertion term type _ => [term, type]
  | proof _ type body _ => [type, body]
  | expr term => [term]
  | error _ => []

end Roots

/-- The name of the kind of an item in records. -/
def Item.tag {τ : Type} : Item τ → String
  | definition _ => "Def"
  | typeDef _ => "Type"
  | assertion _ _ _ => "Assert"
  | proof _ _ _ _ => "Try"
  | expr _ => "Expr"
  | error _ => "Error"

end BendSyntax
