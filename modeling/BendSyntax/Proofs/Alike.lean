import BendSyntax.Syntax.Tree
import Mathlib.Data.List.Forall2

/-! Two layers of syntax are alike when they agree in everything but spans and children,
and their spans and children correspond in order. -/

namespace BendSyntax

variable {τ υ π ρ : Type}

/-! ## Patterns -/

inductive Pattern.Alike (P : π → ρ → Prop) : Pattern π → Pattern ρ → Prop
  | var (name) : Alike P (.var name) (.var name)
  | lit (value) : Alike P (.lit value) (.lit value)
  | tag (name) : Alike P (.tag name) (.tag name)
  | ctor (name) {ps qs} : List.Forall₂ P ps qs → Alike P (.ctor name ps) (.ctor name qs)
  | sym (name) : Alike P (.sym name) (.sym name)
  | succ (n) {p q} : P p q → Alike P (.succ n p) (.succ n q)
  | tuple {ps qs} : List.Forall₂ P ps qs → Alike P (.tuple ps) (.tuple qs)
  | list {ps qs} : List.Forall₂ P ps qs → Alike P (.list ps) (.list qs)
  | emptyList : Alike P .emptyList .emptyList
  | cons {p₁ q₁ p₂ q₂} : P p₁ q₁ → P p₂ q₂ → Alike P (.cons p₁ p₂) (.cons q₁ q₂)
  | paren {p q} : P p q → Alike P (.paren p) (.paren q)

/-! ## Parts of terms -/

section Terms

variable (S : Span → Span → Prop) (R : τ → υ → Prop) (P : π → ρ → Prop)

structure Binder.Alike (b : Binder τ) (c : Binder υ) : Prop where
  name : b.name = c.name
  span : S b.span c.span
  type : R b.type c.type

inductive Param.Alike : Param τ π → Param υ ρ → Prop
  | name (n) {s t} : S s t → Alike (.name n s) (.name n t)
  | typed {b c} : Binder.Alike S R b c → Alike (.typed b) (.typed c)
  | patterns {ps qs} : List.Forall₂ P ps qs → Alike (.patterns ps) (.patterns qs)

structure WithClause.Alike (w : WithClause τ) (x : WithClause υ) : Prop where
  name : w.name = x.name
  span : S w.span x.span
  value : Option.Rel R w.value x.value

structure MatchCase.Alike (c : MatchCase τ π) (d : MatchCase υ ρ) : Prop where
  patterns : List.Forall₂ P c.patterns d.patterns
  body : R c.body d.body
  span : S c.span d.span

inductive CaseTag.Alike : CaseTag τ → CaseTag υ → Prop
  | unit : Alike .unit .unit
  | false : Alike .false .false
  | true : Alike .true .true
  | zero : Alike .zero .zero
  | succ : Alike .succ .succ
  | nil : Alike .nil .nil
  | cons : Alike .cons .cons
  | pair : Alike .pair .pair
  | ctor (name) : Alike (.ctor name) (.ctor name)
  | sym (name) : Alike (.sym name) (.sym name)
  | sup {a b} : R a b → Alike (.sup a) (.sup b)
  | refl : Alike .refl .refl

structure BlockCase.Alike (c : BlockCase τ) (d : BlockCase υ) : Prop where
  tag : c.tag.Alike R d.tag
  span : S c.span d.span
  body : R c.body d.body

structure CaseBlock.Alike (b : CaseBlock τ) (c : CaseBlock υ) : Prop where
  kind : b.kind = c.kind
  cases : List.Forall₂ (BlockCase.Alike S R) b.cases c.cases
  fallback : Option.Rel R b.fallback c.fallback

/-! ## Terms -/

inductive Term.Alike : Term τ π → Term υ ρ → Prop
  | var (name) : Alike (.var name) (.var name)
  | qualified (path) : Alike (.qualified path) (.qualified path)
  | ref (name) : Alike (.ref name) (.ref name)
  | sub {a b} : R a b → Alike (.sub a) (.sub b)
  | lit (value) : Alike (.lit value) (.lit value)
  | unit : Alike .unit .unit
  | emptyList : Alike .emptyList .emptyList
  | era : Alike .era .era
  | tag (name) : Alike (.tag name) (.tag name)
  | ctor (name) {as bs} : List.Forall₂ R as bs → Alike (.ctor name as) (.ctor name bs)
  | sym (name) : Alike (.sym name) (.sym name)
  | enum (symbols) : Alike (.enum symbols) (.enum symbols)
  | set : Alike .set .set
  | emptyType : Alike .emptyType .emptyType
  | unitType : Alike .unitType .unitType
  | boolType : Alike .boolType .boolType
  | natType : Alike .natType .natType
  | num (type) : Alike (.num type) (.num type)
  | selfType : Alike .selfType .selfType
  | all {bs cs a b} : List.Forall₂ (Binder.Alike S R) bs cs → R a b →
      Alike (.all bs a) (.all cs b)
  | any {b₁ c₁ a b} : Binder.Alike S R b₁ c₁ → R a b → Alike (.any b₁ a) (.any c₁ b)
  | sigma {a₁ b₁ a₂ b₂} : R a₁ b₁ → R a₂ b₂ → Alike (.sigma a₁ a₂) (.sigma b₁ b₂)
  | arrow {a₁ b₁ a₂ b₂} : R a₁ b₁ → R a₂ b₂ → Alike (.arrow a₁ a₂) (.arrow b₁ b₂)
  | eql {a₁ b₁ a₂ b₂ a₃ b₃} (negated) : R a₁ b₁ → R a₂ b₂ → R a₃ b₃ →
      Alike (.eql a₁ a₂ a₃ negated) (.eql b₁ b₂ b₃ negated)
  | listType {a b} : R a b → Alike (.listType a) (.listType b)
  | hole (name) {a b as bs} : R a b → List.Forall₂ R as bs →
      Alike (.hole name a as) (.hole name b bs)
  | tyApp {a b as bs} : R a b → List.Forall₂ R as bs → Alike (.tyApp a as) (.tyApp b bs)
  | lam {ps qs a b} : List.Forall₂ (Param.Alike S R P) ps qs → R a b →
      Alike (.lam ps a) (.lam qs b)
  | lamMatch {b c} : CaseBlock.Alike S R b c → Alike (.lamMatch b) (.lamMatch c)
  | fix (name) {a b} : R a b → Alike (.fix name a) (.fix name b)
  | letIn (name) {t u a₁ b₁ a₂ b₂} : Option.Rel R t u → R a₁ b₁ → R a₂ b₂ →
      Alike (.letIn name t a₁ a₂) (.letIn name u b₁ b₂)
  | useIn (name) {a₁ b₁ a₂ b₂} : R a₁ b₁ → R a₂ b₂ →
      Alike (.useIn name a₁ a₂) (.useIn name b₁ b₂)
  | call {a b as bs} (tight) : R a b → List.Forall₂ R as bs →
      Alike (.call a as tight) (.call b bs tight)
  | genericCall {a b as bs as' bs'} : R a b → List.Forall₂ R as bs → List.Forall₂ R as' bs' →
      Alike (.genericCall a as as') (.genericCall b bs bs')
  | implicit {a b as bs} (tight) : R a b → List.Forall₂ R as bs →
      Alike (.implicit a as tight) (.implicit b bs tight)
  | app {a₁ b₁ a₂ b₂} : R a₁ b₁ → R a₂ b₂ → Alike (.app a₁ a₂) (.app b₁ b₂)
  | op2 (op) {a₁ b₁ a₂ b₂} : R a₁ b₁ → R a₂ b₂ → Alike (.op2 op a₁ a₂) (.op2 op b₁ b₂)
  | op1 (op) {a b} : R a b → Alike (.op1 op a) (.op1 op b)
  | tilde {a b} : R a b → Alike (.tilde a) (.tilde b)
  | ite {a₁ b₁ a₂ b₂ a₃ b₃} : R a₁ b₁ → R a₂ b₂ → R a₃ b₃ →
      Alike (.ite a₁ a₂ a₃) (.ite b₁ b₂ b₃)
  | fork {a₁ b₁ a₂ b₂ as bs a₃ b₃} : R a₁ b₁ → R a₂ b₂ → List.Forall₂ R as bs → R a₃ b₃ →
      Alike (.fork a₁ a₂ as a₃) (.fork b₁ b₂ bs b₃)
  | matchOn {as bs ws xs cs ds} : List.Forall₂ R as bs →
      List.Forall₂ (WithClause.Alike S R) ws xs → List.Forall₂ (MatchCase.Alike S R P) cs ds →
      Alike (.matchOn as ws cs) (.matchOn bs xs ds)
  | tildeMatch {a b c d} : R a b → CaseBlock.Alike S R c d →
      Alike (.tildeMatch a c) (.tildeMatch b d)
  | rewrite {a₁ b₁ a₂ b₂} : R a₁ b₁ → R a₂ b₂ → Alike (.rewrite a₁ a₂) (.rewrite b₁ b₂)
  | refl : Alike .refl .refl
  | trust {a b} : R a b → Alike (.trust a) (.trust b)
  | absurd {a b} : R a b → Alike (.absurd a) (.absurd b)
  | sup {a₁ b₁ a₂ b₂ a₃ b₃} : R a₁ b₁ → R a₂ b₂ → R a₃ b₃ →
      Alike (.sup a₁ a₂ a₃) (.sup b₁ b₂ b₃)
  | log {a₁ b₁ a₂ b₂} : R a₁ b₁ → R a₂ b₂ → Alike (.log a₁ a₂) (.log b₁ b₂)
  | view (name) : Alike (.view name) (.view name)
  | pri (primitive) : Alike (.pri primitive) (.pri primitive)
  | check {a₁ b₁ a₂ b₂} : R a₁ b₁ → R a₂ b₂ → Alike (.check a₁ a₂) (.check b₁ b₂)
  | tuple {as bs} : List.Forall₂ R as bs → Alike (.tuple as) (.tuple bs)
  | list {as bs} : List.Forall₂ R as bs → Alike (.list as) (.list bs)
  | ret {a b} : R a b → Alike (.ret a) (.ret b)
  | error : Alike .error .error

/-! ## Items -/

structure TypeParam.Alike (p : TypeParam τ) (q : TypeParam υ) : Prop where
  name : p.name = q.name
  span : S p.span q.span
  bound : Option.Rel R p.bound q.bound

inductive DefForm.Alike : DefForm τ → DefForm υ → Prop
  | full {bs cs t u a b} : List.Forall₂ (Binder.Alike S R) bs cs → Option.Rel R t u → R a b →
      Alike (.full bs t a) (.full cs u b)
  | equation {a₁ b₁ a₂ b₂} : R a₁ b₁ → R a₂ b₂ → Alike (.equation a₁ a₂) (.equation b₁ b₂)
  | nullary {a b} : R a b → Alike (.nullary a) (.nullary b)

structure Def.Alike (d : Def τ) (e : Def υ) : Prop where
  name : d.name = e.name
  typeParams : List.Forall₂ (TypeParam.Alike S R) d.typeParams e.typeParams
  form : DefForm.Alike S R d.form e.form
  span : S d.span e.span

structure CtorCase.Alike (c : CtorCase τ) (d : CtorCase υ) : Prop where
  tag : c.tag = d.tag
  fields : List.Forall₂ (Binder.Alike S R) c.fields d.fields
  span : S c.span d.span

structure TypeDef.Alike (d : TypeDef τ) (e : TypeDef υ) : Prop where
  name : d.name = e.name
  typeParams : List.Forall₂ (TypeParam.Alike S R) d.typeParams e.typeParams
  params : List.Forall₂ (Binder.Alike S R) d.params e.params
  cases : List.Forall₂ (CtorCase.Alike S R) d.cases e.cases
  span : S d.span e.span

inductive Item.Alike : Item τ → Item υ → Prop
  | definition {d e} : Def.Alike S R d e → Alike (.definition d) (.definition e)
  | typeDef {d e} : TypeDef.Alike S R d e → Alike (.typeDef d) (.typeDef e)
  | assertion {a₁ b₁ a₂ b₂ s t} : R a₁ b₁ → R a₂ b₂ → S s t →
      Alike (.assertion a₁ a₂ s) (.assertion b₁ b₂ t)
  | proof (name) {a₁ b₁ a₂ b₂ s t} : R a₁ b₁ → R a₂ b₂ → S s t →
      Alike (.proof name a₁ a₂ s) (.proof name b₁ b₂ t)
  | expr {a b} : R a b → Alike (.expr a) (.expr b)
  | error {s t} : S s t → Alike (.error s) (.error t)

end Terms

/-! ## Equality -/

theorem forall₂_eq {α : Type} {R : α → α → Prop} (hR : ∀ {a b}, R a b → a = b) {as bs : List α}
    (h : List.Forall₂ R as bs) : as = bs := by
  induction h with
  | nil => rfl
  | cons hab _ ih => rw [hR hab, ih]

theorem rel_eq {α : Type} {x y : Option α} (h : Option.Rel Eq x y) : x = y := by
  cases h with
  | some hab => rw [hab]
  | none => rfl

theorem Pattern.Alike.eq {p q : Pattern π} (h : p.Alike Eq q) : p = q := by
  cases h <;> simp_all

theorem Binder.Alike.eq {b c : Binder τ} (h : b.Alike Eq Eq c) : b = c := by
  cases b
  cases c
  cases h
  simp_all

theorem Param.Alike.eq {p q : Param τ π} (h : p.Alike Eq Eq Eq q) : p = q := by
  cases h with
  | name n hs => rw [hs]
  | typed h => rw [h.eq]
  | patterns h => rw [forall₂_eq id h]

theorem WithClause.Alike.eq {w x : WithClause τ} (h : w.Alike Eq Eq x) : w = x := by
  have hvalue := rel_eq h.value
  cases w
  cases x
  cases h
  simp_all

theorem MatchCase.Alike.eq {c d : MatchCase τ π} (h : c.Alike Eq Eq Eq d) : c = d := by
  cases c
  cases d
  cases h
  simp_all

theorem CaseTag.Alike.eq {c d : CaseTag τ} (h : c.Alike Eq d) : c = d := by
  cases h with
  | sup h => rw [h]
  | _ => rfl

theorem BlockCase.Alike.eq {c d : BlockCase τ} (h : c.Alike Eq Eq d) : c = d := by
  have htag := h.tag.eq
  cases c
  cases d
  cases h
  simp_all

theorem CaseBlock.Alike.eq {b c : CaseBlock τ} (h : b.Alike Eq Eq c) : b = c := by
  have hcases := forall₂_eq BlockCase.Alike.eq h.cases
  have hfallback := rel_eq h.fallback
  cases b
  cases c
  cases h
  simp_all

/-- Terms that are alike with equal spans and children are equal. -/
theorem Term.Alike.eq {t u : Term τ π} (h : t.Alike Eq Eq Eq u) : t = u := by
  cases h with
  | all hb h => rw [forall₂_eq Binder.Alike.eq hb, h]
  | any hb h => rw [hb.eq, h]
  | lam hp h => rw [forall₂_eq Param.Alike.eq hp, h]
  | lamMatch h => rw [h.eq]
  | letIn name h h₁ h₂ => rw [rel_eq h, h₁, h₂]
  | matchOn h hw hc =>
      rw [forall₂_eq id h, forall₂_eq WithClause.Alike.eq hw, forall₂_eq MatchCase.Alike.eq hc]
  | tildeMatch h hb => rw [h, hb.eq]
  | _ => simp_all

theorem TypeParam.Alike.eq {p q : TypeParam τ} (h : p.Alike Eq Eq q) : p = q := by
  have hbound := rel_eq h.bound
  cases p
  cases q
  cases h
  simp_all

theorem DefForm.Alike.eq {f g : DefForm τ} (h : f.Alike Eq Eq g) : f = g := by
  cases h with
  | full hb h k => rw [forall₂_eq Binder.Alike.eq hb, rel_eq h, k]
  | equation h k => rw [h, k]
  | nullary h => rw [h]

theorem Def.Alike.eq {d e : Def τ} (h : d.Alike Eq Eq e) : d = e := by
  have hparams := forall₂_eq TypeParam.Alike.eq h.typeParams
  have hform := h.form.eq
  cases d
  cases e
  cases h
  simp_all

theorem CtorCase.Alike.eq {c d : CtorCase τ} (h : c.Alike Eq Eq d) : c = d := by
  have hfields := forall₂_eq Binder.Alike.eq h.fields
  cases c
  cases d
  cases h
  simp_all

theorem TypeDef.Alike.eq {d e : TypeDef τ} (h : d.Alike Eq Eq e) : d = e := by
  have htypes := forall₂_eq TypeParam.Alike.eq h.typeParams
  have hparams := forall₂_eq Binder.Alike.eq h.params
  have hcases := forall₂_eq CtorCase.Alike.eq h.cases
  cases d
  cases e
  cases h
  simp_all

theorem Item.Alike.eq {i j : Item τ} (h : i.Alike Eq Eq j) : i = j := by
  cases h with
  | definition h => rw [h.eq]
  | typeDef h => rw [h.eq]
  | _ => simp_all

/-! ## Reflexivity -/

theorem forall₂_refl {α : Type} {R : α → α → Prop} (hR : ∀ a, R a a) (as : List α) :
    List.Forall₂ R as as :=
  List.forall₂_same.mpr fun a _ => hR a

theorem rel_refl {α : Type} {R : α → α → Prop} (hR : ∀ a, R a a) (x : Option α) :
    Option.Rel R x x := by
  cases x with
  | none => exact .none
  | some a => exact .some (hR a)

theorem Pattern.alike_self (p : Pattern π) : p.Alike Eq p := by
  cases p with
  | ctor name ps => exact .ctor name (forall₂_refl (fun _ => rfl) ps)
  | tuple ps => exact .tuple (forall₂_refl (fun _ => rfl) ps)
  | list ps => exact .list (forall₂_refl (fun _ => rfl) ps)
  | succ n p => exact .succ n rfl
  | cons p q => exact .cons rfl rfl
  | paren p => exact .paren rfl
  | _ => constructor

theorem Binder.alike_self (b : Binder τ) : b.Alike Eq Eq b := ⟨rfl, rfl, rfl⟩

theorem Param.alike_self (p : Param τ π) : p.Alike Eq Eq Eq p := by
  cases p with
  | name n span => exact .name n rfl
  | typed b => exact .typed b.alike_self
  | patterns ps => exact .patterns (forall₂_refl (fun _ => rfl) ps)

theorem WithClause.alike_self (w : WithClause τ) : w.Alike Eq Eq w :=
  ⟨rfl, rfl, rel_refl (fun _ => rfl) _⟩

theorem MatchCase.alike_self (c : MatchCase τ π) : c.Alike Eq Eq Eq c :=
  ⟨forall₂_refl (fun _ => rfl) _, rfl, rfl⟩

theorem CaseTag.alike_self (tag : CaseTag τ) : tag.Alike Eq tag := by
  cases tag with
  | sup label => exact .sup rfl
  | _ => constructor

theorem BlockCase.alike_self (c : BlockCase τ) : c.Alike Eq Eq c := ⟨c.tag.alike_self, rfl, rfl⟩

theorem CaseBlock.alike_self (b : CaseBlock τ) : b.Alike Eq Eq b :=
  ⟨rfl, forall₂_refl BlockCase.alike_self _, rel_refl (fun _ => rfl) _⟩

theorem Term.alike_self (t : Term τ π) : t.Alike Eq Eq Eq t := by
  have hlist (as : List τ) : List.Forall₂ Eq as as := forall₂_refl (fun _ => rfl) as
  cases t with
  | ctor name as => exact .ctor name (hlist as)
  | all bs a => exact .all (forall₂_refl Binder.alike_self bs) rfl
  | any b a => exact .any b.alike_self rfl
  | hole name a as => exact .hole name rfl (hlist as)
  | tyApp a as => exact .tyApp rfl (hlist as)
  | lam ps a => exact .lam (forall₂_refl Param.alike_self ps) rfl
  | lamMatch b => exact .lamMatch b.alike_self
  | letIn name t a b => exact .letIn name (rel_refl (fun _ => rfl) t) rfl rfl
  | call a as tight => exact .call tight rfl (hlist as)
  | genericCall a as bs => exact .genericCall rfl (hlist as) (hlist bs)
  | implicit a as tight => exact .implicit tight rfl (hlist as)
  | fork a b as c => exact .fork rfl rfl (hlist as) rfl
  | matchOn as ws cs =>
      exact .matchOn (hlist as) (forall₂_refl WithClause.alike_self ws)
        (forall₂_refl MatchCase.alike_self cs)
  | tildeMatch a b => exact .tildeMatch rfl b.alike_self
  | tuple as => exact .tuple (hlist as)
  | list as => exact .list (hlist as)
  | _ => constructor <;> rfl

end BendSyntax
