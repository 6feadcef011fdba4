import BendSyntax.Json.Basic
import BendSyntax.Syntax.Tree

/-!
# Trees as JSON

A structure is an object of its fields. A constructor is its name, or an object with its
name and its arguments. Whole numbers of literals are written as strings, because they
may exceed what readers of JSON keep exactly.
-/

namespace BendSyntax

/-- The name of a constructor and its arguments, if it has any. -/
abbrev Record := String × Option Json

namespace Record

def constant (name : String) : Record := (name, none)

def of (name : String) (argument : Json) : Record := (name, some argument)

def fields (name : String) (fields : List (String × Json)) : Record :=
  (name, some (.record fields))

def toJson : Record → Json
  | (name, some argument) => .record [(name, argument)]
  | (name, none) => .text name

end Record

open Record

def Span.toJson (s : Span) : Json :=
  .record [("start", .nat s.start), ("end", .nat s.stop), ("line", .nat s.line),
    ("col", .nat s.column)]

def TermId.toJson (id : TermId) : Json := .nat id.index

def PatternId.toJson (id : PatternId) : Json := .nat id.index

def Json.number64 {α : Type} [ToString α] (n : α) : Json := .text (toString n)

def Literal.record : Literal → Record
  | bool b => of "Bool" (.bool b)
  | nat n => of "Nat" (.number64 n)
  | int i => of "Int" (.number64 i)
  | float x => of "Float" (.text x.shown)
  | char c => of "Char" (.text (String.singleton c))
  | str s => of "Str" (.text s)

def Literal.toJson (l : Literal) : Json := l.record.toJson

def Usage.tag : Usage → String
  | term => "Term"
  | type => "Type"

def Pattern.record : Pattern PatternId → Record
  | var name => of "Var" (.text name)
  | lit value => of "Lit" value.toJson
  | tag name => of "Tag" (.text name)
  | ctor name args => fields "Ctor" [("tag", .text name), ("args", .list (·.toJson) args)]
  | sym name => of "Sym" (.text name)
  | succ n rest => fields "Succ" [("n", .number64 n), ("rest", rest.toJson)]
  | tuple items => of "Tuple" (.list (·.toJson) items)
  | list items => of "List" (.list (·.toJson) items)
  | emptyList => constant "EmptyList"
  | cons head tail => fields "Cons" [("head", head.toJson), ("tail", tail.toJson)]
  | paren inner => of "Paren" inner.toJson

namespace Binder

def members (b : Binder TermId) : List (String × Json) :=
  [("name", .text b.name), ("span", b.span.toJson), ("ty", b.type.toJson)]

def toJson (b : Binder TermId) : Json := .record b.members

end Binder

def Param.toJson : Param TermId PatternId → Json
  | name n span => (fields "Name" [("name", .text n), ("span", span.toJson)]).toJson
  | typed b => (of "Typed" b.toJson).toJson
  | patterns items => (of "Patterns" (.list (·.toJson) items)).toJson

def WithClause.toJson (w : WithClause TermId) : Json :=
  .record [("name", .text w.name), ("span", w.span.toJson),
    ("value", .option TermId.toJson w.value)]

def MatchCase.toJson (c : MatchCase TermId PatternId) : Json :=
  .record [("patterns", .list (·.toJson) c.patterns), ("body", c.body.toJson),
    ("span", c.span.toJson)]

def BlockKind.tag : BlockKind → String
  | empty => "Empty"
  | unit => "Unit"
  | bool => "Bool"
  | nat => "Nat"
  | list => "List"
  | pair => "Pair"
  | enum => "Enum"
  | sup => "Sup"
  | eql => "Eql"

def CaseTag.record : CaseTag TermId → Record
  | unit => constant "Unit"
  | false => constant "False"
  | true => constant "True"
  | zero => constant "Zero"
  | succ => constant "Succ"
  | nil => constant "Nil"
  | cons => constant "Cons"
  | pair => constant "Pair"
  | ctor name => of "Ctor" (.text name)
  | sym name => of "Sym" (.text name)
  | sup label => of "Sup" label.toJson
  | refl => constant "Refl"

def BlockCase.toJson (c : BlockCase TermId) : Json :=
  .record [("tag", c.tag.record.toJson), ("span", c.span.toJson), ("body", c.body.toJson)]

def CaseBlock.toJson (b : CaseBlock TermId) : Json :=
  .record [("kind", .text b.kind.tag), ("cases", .list (·.toJson) b.cases),
    ("default", .option TermId.toJson b.fallback)]

def Term.record : Term TermId PatternId → Record
  | var name => of "Var" (.text name)
  | qualified path => of "Qualified" (.list .text path)
  | ref name => of "Ref" (.text name)
  | sub arg => of "Sub" arg.toJson
  | lit value => of "Lit" value.toJson
  | unit => constant "Unit"
  | emptyList => constant "EmptyList"
  | era => constant "Era"
  | tag name => of "Tag" (.text name)
  | ctor name args => fields "Ctor" [("tag", .text name), ("args", .list (·.toJson) args)]
  | sym name => of "Sym" (.text name)
  | enum symbols => of "Enum" (.list .text symbols)
  | set => constant "Set"
  | emptyType => constant "EmptyType"
  | unitType => constant "UnitType"
  | boolType => constant "BoolType"
  | natType => constant "NatType"
  | num type => of "Num" (.text type.name)
  | selfType => constant "SelfType"
  | all binders body =>
      fields "All" [("binders", .list (·.toJson) binders), ("body", body.toJson)]
  | any binder body => fields "Any" [("binder", binder.toJson), ("body", body.toJson)]
  | sigma fst snd => fields "Sigma" [("fst", fst.toJson), ("snd", snd.toJson)]
  | arrow domain codomain =>
      fields "Arrow" [("domain", domain.toJson), ("codomain", codomain.toJson)]
  | eql type lhs rhs negated =>
      fields "Eql" [("ty", type.toJson), ("lhs", lhs.toJson), ("rhs", rhs.toJson),
        ("negated", .bool negated)]
  | listType item => of "ListType" item.toJson
  | hole name type ctx =>
      fields "Meta" [("name", .text name), ("ty", type.toJson), ("ctx", .list (·.toJson) ctx)]
  | tyApp head args => fields "TyApp" [("head", head.toJson), ("args", .list (·.toJson) args)]
  | lam params body =>
      fields "Lam" [("params", .list (·.toJson) params), ("body", body.toJson)]
  | lamMatch block => of "LamMatch" block.toJson
  | fix name body => fields "Fix" [("name", .text name), ("body", body.toJson)]
  | letIn name type value body =>
      fields "Let" [("name", .text name), ("ty", .option TermId.toJson type),
        ("value", value.toJson), ("body", body.toJson)]
  | useIn name value body =>
      fields "Use" [("name", .text name), ("value", value.toJson), ("body", body.toJson)]
  | call head args tight =>
      fields "Call" [("head", head.toJson), ("args", .list (·.toJson) args),
        ("tight", .bool tight)]
  | genericCall head typeArgs args =>
      fields "GenericCall" [("head", head.toJson), ("type_args", .list (·.toJson) typeArgs),
        ("args", .list (·.toJson) args)]
  | implicit head args tight =>
      fields "Implicit" [("head", head.toJson), ("args", .list (·.toJson) args),
        ("tight", .bool tight)]
  | app func arg => fields "App" [("func", func.toJson), ("arg", arg.toJson)]
  | op2 op lhs rhs =>
      fields "Op2" [("op", .text op.tag), ("lhs", lhs.toJson), ("rhs", rhs.toJson)]
  | op1 op arg => fields "Op1" [("op", .text op.tag), ("arg", arg.toJson)]
  | tilde arg => of "Tilde" arg.toJson
  | ite cond yes no =>
      fields "If" [("cond", cond.toJson), ("then", yes.toJson), ("otherwise", no.toJson)]
  | fork cond yes elifs no =>
      fields "Fork" [("cond", cond.toJson), ("then", yes.toJson),
        ("elifs", .list (·.toJson) elifs), ("otherwise", no.toJson)]
  | matchOn scrutinees withs cases =>
      fields "Match" [("scrutinees", .list (·.toJson) scrutinees),
        ("withs", .list (·.toJson) withs), ("cases", .list (·.toJson) cases)]
  | tildeMatch scrutinee block =>
      fields "TildeMatch" [("scrutinee", scrutinee.toJson), ("block", block.toJson)]
  | rewrite proof body => fields "Rewrite" [("proof", proof.toJson), ("body", body.toJson)]
  | refl => constant "Refl"
  | trust arg => of "Trust" arg.toJson
  | absurd arg => of "Absurd" arg.toJson
  | sup label left right =>
      fields "Sup" [("label", label.toJson), ("left", left.toJson), ("right", right.toJson)]
  | log message body => fields "Log" [("message", message.toJson), ("body", body.toJson)]
  | view name => of "View" (.text name)
  | pri primitive => of "Pri" (.text primitive.tag)
  | check term type => fields "Check" [("term", term.toJson), ("ty", type.toJson)]
  | tuple items => of "Tuple" (.list (·.toJson) items)
  | list items => of "List" (.list (·.toJson) items)
  | ret arg => of "Return" arg.toJson
  | error => constant "Error"

def Tree.toJson (t : Tree) : Json :=
  let terms := t.terms.toList
  let patterns := t.patterns.toList
  .record [
    ("terms", .record [("nodes", .list (·.term.record.toJson) terms),
      ("spans", .list (·.span.toJson) terms)]),
    ("patterns", .record [("nodes", .list (·.pattern.record.toJson) patterns),
      ("spans", .list (·.span.toJson) patterns)]),
    ("usages", .list (.text ·.usage.tag) terms)]

def TypeParam.toJson (p : TypeParam TermId) : Json :=
  .record [("name", .text p.name), ("span", p.span.toJson),
    ("bound", .option TermId.toJson p.bound)]

def DefForm.record : DefForm TermId → Record
  | full params result body =>
      fields "Full" [("params", .list (·.toJson) params), ("ret", .option TermId.toJson result),
        ("body", body.toJson)]
  | equation type value => fields "Equation" [("ty", type.toJson), ("value", value.toJson)]
  | nullary body => fields "Nullary" [("body", body.toJson)]

def CtorCase.toJson (c : CtorCase TermId) : Json :=
  .record [("tag", .text c.tag), ("fields", .list (·.toJson) c.fields), ("span", c.span.toJson)]

def Item.toJson (item : Item TermId) : Json :=
  let argument : Json :=
    match item with
    | definition d =>
        .record [("name", .text d.name), ("type_params", .list (·.toJson) d.typeParams),
          ("form", d.form.record.toJson), ("span", d.span.toJson)]
    | typeDef d =>
        .record [("name", .text d.name), ("type_params", .list (·.toJson) d.typeParams),
          ("params", .list (·.toJson) d.params), ("cases", .list (·.toJson) d.cases),
          ("span", d.span.toJson)]
    | assertion term type span =>
        .record [("term", term.toJson), ("ty", type.toJson), ("span", span.toJson)]
    | proof name type body span =>
        .record [("name", .text name), ("ty", type.toJson), ("body", body.toJson),
          ("span", span.toJson)]
    | expr term => term.toJson
    | error span => span.toJson
  .record [(item.tag, argument)]

def Expression.toJson (e : Expression) : Json :=
  .record [("ast", e.tree.toJson), ("root", e.root.toJson)]

def Program.toJson (p : Program) : Json :=
  .record [("ast", p.tree.toJson), ("items", .list (·.toJson) p.items)]

end BendSyntax
