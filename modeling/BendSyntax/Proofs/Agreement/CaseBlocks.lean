import BendSyntax.Proofs.Agreement.Suffixes

/-! Case blocks agree. -/

namespace BendSyntax

open Reading Grammar

/-- How many tokens of a head are certain once it has been recognised. -/
def CaseHead.width : CaseHead → Nat
  | .pair | .refl => 3
  | .unit | .succ | .nil => 2
  | _ => 1

/-- The tokens of a head that has been recognised are there. -/
theorem Cursor.kindAt_ne_eof {c : Cursor} {head : CaseHead} (h : c.caseHead? = some head) :
    ∀ i < head.width, c.kindAt i ≠ .eof := by
  have hkind : c.kindAt 0 = c.kind := rfl
  unfold Cursor.caseHead? at h
  split at h
  all_goals try split at h
  all_goals cases h
  all_goals
    intro i hi
    simp only [CaseHead.width] at hi
    rcases i with _ | _ | _ | i <;> first | omega | simp_all

namespace Comparison

variable {C : Comparison} [C.Lawful] {deep deep' : Deeper} {c d : Cursor}

section Levels

variable (h : C.Levels deep deep')

include h

theorem agrees_supTag : C.Agrees (supTag deep) (supTag deep') (CaseTag.Alike C.terms) := by
  refine agrees_bind (agrees_expect rfl) fun _ _ _ => ?_
  refine agrees_bind (agrees_within (h.expr .suffix) fun s t hst => ⟨?_, hst.usage⟩) fun a b hab => ?_
  · exact congrArg (fun s : Slot => { s with noBrace := true, caseHeads := false }) hst.flags
  · refine agrees_bind (agrees_expect rfl) fun _ _ _ => ?_
    refine agrees_bind (agrees_expect rfl) fun _ _ _ => ?_
    exact agrees_bind (agrees_expect rfl) fun _ _ _ => agrees_pure (.sup hab)

omit h in
theorem agree_fixedTag {tag tag' : CaseTag TermId} (htag : tag.Alike C.terms tag') (width : Nat)
    (hcd : C.cursors c d) (hc : ∀ i < width, c.kindAt i ≠ .eof) :
    C.Agree c d (fixedTag tag width) (fixedTag tag' width) (CaseTag.Alike C.terms) :=
  agree_bind (agree_skipTokens width hcd hc) fun _ _ _ => agrees_pure htag

theorem agree_caseTag {head : CaseHead} (hcd : C.cursors c d)
    (hhead : c.caseHead? = some head ∨ head = .sup) :
    C.Agree c d (caseTag deep head) (caseTag deep' head) (CaseTag.Alike C.terms) := by
  rcases hhead with hhead | rfl
  · have hkinds := Cursor.kindAt_ne_eof hhead
    cases head with
    | unit => exact agree_fixedTag .unit 2 hcd hkinds
    | pair => exact agree_fixedTag .pair 3 hcd hkinds
    | false => exact agree_fixedTag .false 1 hcd hkinds
    | true => exact agree_fixedTag .true 1 hcd hkinds
    | zero => exact agree_fixedTag .zero 1 hcd hkinds
    | succ => exact agree_fixedTag .succ 2 hcd hkinds
    | nil => exact agree_fixedTag .nil 2 hcd hkinds
    | cons => exact agree_fixedTag .cons 1 hcd hkinds
    | refl => exact agree_fixedTag .refl 3 hcd hkinds
    | ctor =>
        refine agree_advance_bind hcd (hkinds 0 (by decide)) fun _ _ _ => ?_
        exact agrees_identifier_bind fun name _ _ _ => agrees_pure (.ctor name)
    | sym =>
        refine agree_advance_bind hcd (hkinds 0 (by decide)) fun _ _ _ => ?_
        exact agrees_identifier_bind fun name _ _ _ => agrees_pure (.sym name)
    | sup => exact agrees_supTag h _ _ hcd
  · exact agrees_supTag h _ _ hcd

theorem agree_blockCase {head : CaseHead} (hcd : C.cursors c d)
    (hhead : c.caseHead? = some head ∨ head = .sup) :
    C.Agree c d (blockCase deep head) (blockCase deep' head)
      (BlockCase.Alike C.spans C.terms) := by
  refine agree_here_bind ?_
  refine agree_bind (agree_caseTag h hcd hhead) fun tag tag' htag => ?_
  refine agrees_bind (agrees_expect rfl) fun _ _ _ => ?_
  refine agrees_bind h.statement fun a b hab => agrees_bind (agrees_accept rfl) fun _ _ _ => ?_
  refine agrees_bind (agrees_since (Lawful.span hcd)) fun s t hst => ?_
  exact agrees_pure ⟨htag, hst, hab⟩

theorem agrees_positionalCase (kind : BlockKind) (head : CaseHead) :
    C.Agrees (positionalCase deep kind head) (positionalCase deep' kind head)
      (BlockCase.Alike C.spans C.terms) := by
  refine agrees_cursor_bind fun c d hcd => ?_
  rw [Lawful.caseHead hcd]
  refine agree_ite .rfl (fun hd => ?_) fun _ => agree_unexpected hcd _
  exact agree_blockCase h hcd (.inl ((Lawful.caseHead hcd).trans hd))

theorem agrees_positionalBlock (kind : BlockKind) (first second : CaseHead) :
    C.Agrees (positionalBlock deep kind first second) (positionalBlock deep' kind first second)
      (CaseBlock.Alike C.spans C.terms) := by
  refine agrees_bind (agrees_positionalCase h kind first) fun a b hab => ?_
  refine agrees_bind (agrees_positionalCase h kind second) fun a' b' hab' => ?_
  exact agrees_pure ⟨rfl, .cons hab (.cons hab' .nil), .none⟩

theorem agree_singleBlock (kind : BlockKind) {head : CaseHead} (hcd : C.cursors c d)
    (hhead : c.caseHead? = some head ∨ head = .sup) :
    C.Agree c d (singleBlock deep kind head) (singleBlock deep' kind head)
      (CaseBlock.Alike C.spans C.terms) :=
  agree_bind (agree_blockCase h hcd hhead) fun _ _ hab =>
    agrees_pure ⟨rfl, .cons hab .nil, .none⟩

theorem agrees_enumRound {as bs : Array (BlockCase TermId)}
    (has : Lists (BlockCase.Alike C.spans C.terms) as bs) :
    C.Agrees (enumRound deep as) (enumRound deep' bs)
      (Round.Rel (Lists (BlockCase.Alike C.spans C.terms))) := by
  refine agrees_cursor_bind fun c d hcd => ?_
  have hhead := Lawful.caseHead hcd
  generalize hc : c.caseHead? = head at hhead
  rw [← hhead]
  split
  · exact agree_bind (agree_blockCase h hcd (.inl hc)) fun _ _ hab => agrees_pure (.more (has.push hab))
  · exact agree_bind (agree_blockCase h hcd (.inl hc)) fun _ _ hab => agrees_pure (.more (has.push hab))
  · exact agree_pure (.done has)

theorem agrees_enumBlock :
    C.Agrees (enumBlock deep) (enumBlock deep') (CaseBlock.Alike C.spans C.terms) := by
  refine agrees_bind (agrees_loop (fun _ _ has => agrees_enumRound h has) .nil) fun as bs has => ?_
  refine agrees_sees_bind rfl (agrees_pure ⟨rfl, has, .none⟩) ?_
  refine agrees_bind h.statement fun a b hab => agrees_bind (agrees_accept rfl) fun _ _ _ => ?_
  exact agrees_pure ⟨rfl, has, .some hab⟩

theorem agree_blockFrom {head : CaseHead} (hcd : C.cursors c d)
    (hhead : c.caseHead? = some head ∨ head = .sup) :
    C.Agree c d (blockFrom deep head) (blockFrom deep' head)
      (CaseBlock.Alike C.spans C.terms) := by
  cases head with
  | unit => exact agree_singleBlock h .unit hcd hhead
  | pair => exact agree_singleBlock h .pair hcd hhead
  | refl => exact agree_singleBlock h .eql hcd hhead
  | sup => exact agree_singleBlock h .sup hcd hhead
  | false => exact agrees_positionalBlock h .bool .false .true _ _ hcd
  | true => exact agrees_positionalBlock h .bool .false .true _ _ hcd
  | zero => exact agrees_positionalBlock h .nat .zero .succ _ _ hcd
  | succ => exact agrees_positionalBlock h .nat .zero .succ _ _ hcd
  | nil => exact agrees_positionalBlock h .list .nil .cons _ _ hcd
  | cons => exact agrees_positionalBlock h .list .nil .cons _ _ hcd
  | ctor => exact agrees_enumBlock h _ _ hcd
  | sym => exact agrees_enumBlock h _ _ hcd

variable [C.Retractable]

theorem agrees_atLongSupHead : C.Agrees (atLongSupHead deep) (atLongSupHead deep') Eq := by
  intro c d hcd
  refine agree_succeeds (P := C.marks) ?_
  exact agrees_bind (agrees_supTag h) (fun _ _ _ => agrees_expect rfl) _ _ hcd

theorem agrees_blockCases :
    C.Agrees (blockCases deep) (blockCases deep') (CaseBlock.Alike C.spans C.terms) := by
  refine agrees_cursor_bind fun c d hcd => ?_
  refine agree_ite (kind_iff hcd rfl) (fun _ => agree_pure ⟨rfl, .nil, .none⟩) fun _ => ?_
  have hhead := Lawful.caseHead hcd
  generalize hc : c.caseHead? = head at hhead
  rw [← hhead]
  cases head with
  | some head => exact agree_blockFrom h hcd (.inl hc)
  | none =>
      refine agree_ite (kind_iff hcd rfl) (fun _ => ?_) fun _ => ?_
      · refine agree_bind (agrees_atLongSupHead h _ _ hcd) fun x y hxy => ?_
        subst hxy
        cases x with
        | true => exact fun c d hcd => agree_blockFrom h hcd (.inr rfl)
        | false => exact agrees_enumBlock h
      · refine agree_slot_bind fun slot slot' hslot => ?_
        rw [startsOperand_eq hcd hslot]
        refine agree_ite .rfl (fun _ => ?_) fun _ => agree_unexpected hcd _
        exact agrees_enumBlock h _ _ hcd

theorem agrees_caseBlock :
    C.Agrees (caseBlock deep) (caseBlock deep') (CaseBlock.Alike C.spans C.terms) := by
  refine agrees_bind (agrees_expect rfl) fun _ _ _ => ?_
  refine agrees_bind (agrees_within (agrees_blockCases h) fun s t _ => ?_) fun a b hab => ?_
  · exact ⟨rfl, Lawful.usages_refl .term⟩
  · exact agrees_bind (agrees_expect rfl) fun _ _ _ => agrees_pure hab

end Levels

end Comparison

end BendSyntax
