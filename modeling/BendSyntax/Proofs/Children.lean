import BendSyntax.Syntax.Item
import BendSyntax.Syntax.Pattern

/-! The children of a term, of a pattern and of an item are all that is stored in it: whoever
maps over it only ever looks at them. -/

namespace BendSyntax

section Map

variable {τ υ π ρ : Type} {f f' : τ → υ} {g g' : π → ρ}

theorem Param.map_congr (p : Param τ π) (hf : ∀ a, .term a ∈ p.children → f a = f' a)
    (hg : ∀ q, .pattern q ∈ p.children → g q = g' q) : p.map f g = p.map f' g' := by
  cases p <;> simp_all [Param.map, Param.children, Binder.map]

theorem WithClause.map_congr (w : WithClause τ) (hf : ∀ a ∈ w.value, f a = f' a) :
    w.map f = w.map f' := by
  obtain ⟨name, span, value⟩ := w
  cases value <;> simp_all [WithClause.map]

theorem MatchCase.map_congr (c : MatchCase τ π) (hf : ∀ a, .term a ∈ c.children → f a = f' a)
    (hg : ∀ q, .pattern q ∈ c.children → g q = g' q) : c.map f g = c.map f' g' := by
  simp_all [MatchCase.map, MatchCase.children]

theorem BlockCase.map_congr (c : BlockCase τ) (hf : ∀ a ∈ c.terms, f a = f' a) :
    c.map f = c.map f' := by
  obtain ⟨tag, span, body⟩ := c
  cases tag <;> simp_all [BlockCase.map, BlockCase.terms, CaseTag.map]

theorem CaseBlock.map_congr (b : CaseBlock τ) (hf : ∀ a ∈ b.terms, f a = f' a) :
    b.map f = b.map f' := by
  obtain ⟨kind, cases, fallback⟩ := b
  have hcases : ∀ c ∈ cases, c.map f = c.map f' := fun c hc =>
    c.map_congr fun a ha => hf a (by simp [CaseBlock.terms]; exact .inl ⟨c, hc, ha⟩)
  cases fallback <;> simp_all [CaseBlock.map, CaseBlock.terms]

theorem binders_map_congr {bs : List (Binder τ)} (hf : ∀ b ∈ bs, f b.type = f' b.type) :
    bs.map (·.map f) = bs.map (·.map f') :=
  List.map_congr_left fun b hb => by simp [Binder.map, hf b hb]

theorem Term.map_congr (t : Term τ π) (hf : ∀ a, .term a ∈ t.children → f a = f' a)
    (hg : ∀ q, .pattern q ∈ t.children → g q = g' q) : t.map f g = t.map f' g' := by
  cases t with
  | lam params body =>
      have hparams : ∀ p ∈ params, p.map f g = p.map f' g' := fun p hp =>
        p.map_congr (fun a ha => hf a (by simp [Term.children]; exact .inl ⟨p, hp, ha⟩))
          fun q hq => hg q (by simp [Term.children]; exact ⟨p, hp, hq⟩)
      simp_all [Term.map, Term.children]
  | lamMatch block =>
      have hblock : block.map f = block.map f' := block.map_congr (by simp_all [Term.children])
      simp [Term.map, hblock]
  | tildeMatch scrutinee block =>
      have hblock : block.map f = block.map f' := block.map_congr (by simp_all [Term.children])
      simp_all [Term.map, Term.children]
  | matchOn scrutinees withs cases =>
      have hcases : ∀ c ∈ cases, c.map f g = c.map f' g' := fun c hc =>
        c.map_congr (fun a ha => hf a (by simp [Term.children]; exact .inr (.inr ⟨c, hc, ha⟩)))
          fun q hq => hg q (by simp [Term.children]; exact ⟨c, hc, hq⟩)
      have hwiths : ∀ w ∈ withs, w.map f = w.map f' := fun w hw =>
        w.map_congr fun a ha => hf a (by simp [Term.children]; exact .inr (.inl ⟨w, hw, ha⟩))
      simp_all [Term.map, Term.children]
  | all binders body =>
      have hbinders : binders.map (·.map f) = binders.map (·.map f') :=
        binders_map_congr fun b hb => hf b.type (by simp [Term.children]; exact .inl ⟨b, hb, rfl⟩)
      simp_all [Term.map, Term.children]
  | letIn name type value body => cases type <;> simp_all [Term.map, Term.children]
  | _ => simp_all [Term.map, Term.children, Binder.map]

theorem Pattern.map_congr (p : Pattern π) (hg : ∀ q ∈ p.children, g q = g' q) :
    p.map g = p.map g' := by
  cases p <;> simp_all [Pattern.map, Pattern.children]

theorem typeParams_map_congr {ps : List (TypeParam τ)}
    (hf : ∀ a ∈ ps.filterMap (·.bound), f a = f' a) :
    ps.map (·.map f) = ps.map (·.map f') := by
  refine List.map_congr_left fun p hp => ?_
  have hbound : ∀ a ∈ p.bound, f a = f' a := fun a ha =>
    hf a (List.mem_filterMap.mpr ⟨p, hp, ha⟩)
  obtain ⟨name, span, bound⟩ := p
  cases bound <;> simp_all [TypeParam.map]

theorem DefForm.map_congr (d : DefForm τ) (hf : ∀ a ∈ d.roots, f a = f' a) :
    d.map f = d.map f' := by
  cases d with
  | full params result body =>
      have hparams : params.map (·.map f) = params.map (·.map f') :=
        binders_map_congr fun b hb => hf b.type (by simp [DefForm.roots]; exact .inl ⟨b, hb, rfl⟩)
      cases result <;> simp_all [DefForm.map, DefForm.roots]
  | equation type value => simp_all [DefForm.map, DefForm.roots]
  | nullary body => simp_all [DefForm.map, DefForm.roots]

theorem Item.map_congr (i : Item τ) (hf : ∀ a ∈ i.roots, f a = f' a) : i.map f = i.map f' := by
  cases i with
  | definition d =>
      have htypes : d.typeParams.map (·.map f) = d.typeParams.map (·.map f') :=
        typeParams_map_congr fun a ha => hf a (List.mem_append_left _ ha)
      have hform : d.form.map f = d.form.map f' :=
        d.form.map_congr fun a ha => hf a (List.mem_append_right _ ha)
      simp [Item.map, Def.map, htypes, hform]
  | typeDef d =>
      have htypes : d.typeParams.map (·.map f) = d.typeParams.map (·.map f') :=
        typeParams_map_congr fun a ha =>
          hf a (List.mem_append_left _ (List.mem_append_left _ ha))
      have hparams : d.params.map (·.map f) = d.params.map (·.map f') :=
        binders_map_congr fun b hb => hf b.type
          (List.mem_append_left _ (List.mem_append_right _ (List.mem_map_of_mem hb)))
      have hcases : d.cases.map (·.map f) = d.cases.map (·.map f') :=
        List.map_congr_left fun c hc => congrArg (CtorCase.mk c.tag · c.span)
          (binders_map_congr fun b hb => hf b.type (List.mem_append_right _
            (List.mem_flatMap.mpr ⟨c, hc, List.mem_map_of_mem hb⟩)))
      simp [Item.map, TypeDef.map, htypes, hparams, hcases]
  | _ => simp_all [Item.map, Item.roots]

end Map

section Stores

variable {τ π : Type}

/-- A term in which there are only terms and patterns that satisfy the conditions: no others
are looked at when it is mapped. -/
def Term.StoresOnly (t : Term τ π) (R : τ → Prop) (P : π → Prop) : Prop :=
  ∀ (f f' : τ → τ) (g g' : π → π), (∀ a, R a → f a = f' a) → (∀ p, P p → g p = g' p) →
    t.map f g = t.map f' g'

def Pattern.StoresOnly (p : Pattern π) (P : π → Prop) : Prop :=
  ∀ g g' : π → π, (∀ q, P q → g q = g' q) → p.map g = p.map g'

def Item.StoresOnly (i : Item τ) (R : τ → Prop) : Prop :=
  ∀ f f' : τ → τ, (∀ a, R a → f a = f' a) → i.map f = i.map f'

theorem Term.storesOnly_of_children {t : Term τ π} {R : τ → Prop} {P : π → Prop}
    (hR : ∀ a, .term a ∈ t.children → R a) (hP : ∀ p, .pattern p ∈ t.children → P p) :
    t.StoresOnly R P :=
  fun _ _ _ _ hf hg => t.map_congr (fun a ha => hf a (hR a ha)) fun p hp => hg p (hP p hp)

theorem Pattern.storesOnly_of_children {p : Pattern π} {P : π → Prop}
    (hP : ∀ q ∈ p.children, P q) : p.StoresOnly P :=
  fun _ _ hg => p.map_congr fun q hq => hg q (hP q hq)

theorem Item.storesOnly_of_roots {i : Item τ} {R : τ → Prop} (hR : ∀ a ∈ i.roots, R a) :
    i.StoresOnly R :=
  fun _ _ hf => i.map_congr fun a ha => hf a (hR a ha)

end Stores

end BendSyntax
