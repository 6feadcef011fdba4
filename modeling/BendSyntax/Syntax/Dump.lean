import BendSyntax.Syntax.Item
import BendSyntax.Syntax.Pattern

/-!
# Structural dumps

The shape of a term as a bracketed text, such as `(+ x (* y 2n))`. Spans and the
spacing of calls are left out. Each function writes one layer, given the texts of the
layers below.
-/

namespace BendSyntax

namespace Dump

def spaced (parts : List String) : String := " ".intercalate parts

/-- Parts in parentheses. -/
def group (parts : List String) : String := "(" ++ spaced parts ++ ")"

def symbol (name : String) : String := "&" ++ name

def tagged (name : String) : String := "@" ++ name

end Dump

open Dump

def Pattern.dump : Pattern String → String
  | var name => name
  | lit value => value.shown
  | tag name => tagged name
  | ctor name args => group (tagged name :: args)
  | sym name => symbol name
  | succ n rest => group ["+", s!"{n}n", rest]
  | tuple items => group ("tuple" :: items)
  | list items => group ("list" :: items)
  | emptyList => "[]"
  | cons head tail => group ["<>", head, tail]
  | paren inner => group ["paren", inner]

def Binder.dump (b : Binder String) : String := group [b.name, b.type]

def Param.dump : Param String String → String
  | name n _ => n
  | typed b => b.dump
  | patterns items => group ("pat" :: items)

def WithClause.dump (w : WithClause String) : String :=
  match w.value with
  | some v => group [w.name, v]
  | none => w.name

def MatchCase.dump (c : MatchCase String String) : String :=
  group ("case" :: c.patterns ++ ["=>", c.body])

def BlockKind.name : BlockKind → String
  | empty => "empty"
  | unit => "unit"
  | bool => "bool"
  | nat => "nat"
  | list => "list"
  | pair => "pair"
  | enum => "enum"
  | sup => "sup"
  | eql => "eql"

def CaseTag.dump : CaseTag String → String
  | unit => "()"
  | false => "False"
  | true => "True"
  | zero => "0n"
  | succ => "1n+"
  | nil => "[]"
  | cons => "<>"
  | pair => "(,)"
  | ctor name => tagged name
  | sym name => symbol name
  | sup label => symbol label ++ "\x7b,\x7d"
  | refl => "\x7b==\x7d"

def CaseBlock.dump (b : CaseBlock String) : String :=
  group ((b.kind.name ++ "-match") ::
    b.cases.map (fun c => group [c.tag.dump, c.body]) ++
    b.fallback.toList.map fun body => group ["_", body])

def Term.dump : Term String String → String
  | var name => name
  | qualified path => "/".intercalate path
  | ref name => group ["ref", name]
  | sub arg => group ["sub", arg]
  | lit value => value.shown
  | unit => "()"
  | emptyList => "[]"
  | era => "*"
  | tag name => tagged name
  | ctor name args => group (tagged name :: args)
  | sym name => symbol name
  | enum symbols => group ("enum" :: symbols.map symbol)
  | set => "Set"
  | emptyType => "Empty"
  | unitType => "Unit"
  | boolType => "Bool"
  | natType => "Nat"
  | num type => type.name
  | selfType => "Self"
  | all binders body => group ("all" :: binders.map (·.dump) ++ [body])
  | any binder body => group ["any", binder.dump, body]
  | sigma fst snd => group ["sigma", fst, snd]
  | arrow domain codomain => group ["->", domain, codomain]
  | eql type lhs rhs negated => group [if negated then "neq" else "eql", type, lhs, rhs]
  | listType item => group ["list-type", item]
  | hole name type ctx => group ("meta" :: name :: type :: ctx)
  | tyApp head args => group ("tyapp" :: head :: args)
  | lam params body => group ["lam", group (params.map (·.dump)), body]
  | lamMatch block => group ["lam", block.dump]
  | fix name body => group ["mu", name, body]
  | letIn name type value body =>
      let bound := match type with
        | some t => group [name, t]
        | none => name
      group ["let", bound, value, body]
  | useIn name value body => group ["use", name, value, body]
  | call head args _ => group ("call" :: head :: args)
  | genericCall head typeArgs args =>
      group ("call" :: head :: ("<" ++ spaced typeArgs ++ ">") :: args)
  | implicit head args _ => group ("implicit" :: head :: args)
  | app func arg => group ["app", func, arg]
  | op2 op lhs rhs => group [op.symbol, lhs, rhs]
  | op1 op arg => group [op.symbol, arg]
  | tilde arg => group ["~", arg]
  | ite cond yes no => group ["if", cond, yes, no]
  | fork cond yes elifs no =>
      group ("fork" :: cond :: yes :: elifs.map (fun e => group ["elif", e]) ++
        [group ["else", no]])
  | matchOn scrutinees withs cases =>
      let clauses := if withs.isEmpty then [] else [group ("with" :: withs.map (·.dump))]
      group ("match" :: group scrutinees :: clauses ++ cases.map (·.dump))
  | tildeMatch scrutinee block => group ["~", scrutinee, block.dump]
  | rewrite proof body => group ["rewrite", proof, body]
  | refl => "\x7b==\x7d"
  | trust arg => group ["trust", arg]
  | absurd arg => group ["absurd", arg]
  | sup label left right => group ["sup", label, left, right]
  | log message body => group ["log", message, body]
  | view name => group ["view", name]
  | pri primitive => primitive.name
  | check term type => group ["::", term, type]
  | tuple items => group ("tuple" :: items)
  | list items => group ("list" :: items)
  | ret arg => group ["return", arg]
  | error => "<error>"

def TypeParam.dump (p : TypeParam String) : String :=
  match p.bound with
  | some bound => group [p.name, bound]
  | none => p.name

/-- A list of parts under a head, left out when it is empty. -/
def Dump.unlessEmpty (head : String) (parts : List String) : List String :=
  if parts.isEmpty then [] else [group (head :: parts)]

def DefForm.dump : DefForm String → List String
  | full params result body =>
      group ("params" :: params.map (·.dump)) ::
        result.toList.map (fun r => group ["ret", r]) ++ [body]
  | equation type value => [group ["type", type], value]
  | nullary body => [body]

def CtorCase.dump (c : CtorCase String) : String :=
  group ("case" :: tagged c.tag :: c.fields.map (·.dump))

def Item.dump : Item String → String
  | definition d =>
      group ("def" :: d.name :: unlessEmpty "tparams" (d.typeParams.map (·.dump)) ++ d.form.dump)
  | typeDef d =>
      group ("type" :: d.name :: unlessEmpty "tparams" (d.typeParams.map (·.dump)) ++
        unlessEmpty "params" (d.params.map (·.dump)) ++ d.cases.map (·.dump))
  | assertion term type _ => group ["assert", term, type]
  | proof name type body _ => group ["try", name, type, body]
  | expr term => term
  | error _ => "<error>"

end BendSyntax
