import BendSyntax.Proofs.Agreement.Items
import BendSyntax.Proofs.Brackets.Expressions

/-! The productions agree at every depth of nesting, if the attempts among them agree and the
depth limits are met in the same place. -/

namespace BendSyntax

open Reading Grammar

namespace Comparison

/-- Runs that know the same about attempts at corresponding cursors. -/
class Recalling (C : Comparison) : Prop where
  known {c d : Cursor} {slot slot' : Slot} {l l' : List Failure} (what : Attempt) :
    C.cursors c d → C.failures l l' →
      (C.left.remembers && l.any (⟨c.index, what, slot⟩ : Failure).matches) =
        (C.right.remembers && l'.any (⟨d.index, what, slot'⟩ : Failure).matches)
  remember {c d : Cursor} {slot slot' : Slot} {l l' : List Failure} (what : Attempt) :
    C.cursors c d → c.kind ≠ .eof → C.Slots slot slot' → C.failures l l' →
      C.failures (⟨c.index, what, slot⟩ :: l) (⟨d.index, what, slot'⟩ :: l')

variable {C : Comparison} [C.Lawful] {deep deep' : Deeper} {α : Type} {Q : α → α → Prop}
  {c d : Cursor}

theorem agree_attempt_of_recalling [C.Retractable] [C.Recalling] {what : Attempt}
    {r q : Reading (Option α)} (hcd : C.cursors c d) (hc : c.kind ≠ .eof)
    (h : C.Agree c d r q (Option.Rel Q)) :
    C.Agree c d (attempt what r) (attempt what q) (Option.Rel Q) :=
  agree_attempt (fun _ _ _ _ _ hst _ _ => Recalling.known what hcd hst.failures)
    (fun _ _ _ _ hslot hl => Recalling.remember what hcd hc hslot hl) h

theorem Levels.supports [C.Retractable] [C.Recalling] [deep.Balanced] (h : C.Levels deep deep') :
    C.Supports deep deep' where
  levels := h
  generic hcd hc :=
    have hne := ne_eof_of_kind rfl hc
    agree_attempt_of_recalling hcd hne (agree_genericArgs h (moves_of_kind hcd hne))
  equality hcd hc :=
    have hne := ne_eof_of_kind rfl hc
    agree_attempt_of_recalling hcd hne (agree_equality h (moves_of_kind hcd hne))
  typedName hcd hc :=
    agree_attempt_of_recalling hcd (ne_eof_of_kind rfl hc) (agrees_typedName h _ _ hcd)

omit [C.Lawful] in
theorem agrees_refuse
    (h : ∀ {c d}, C.cursors c d → C.errors (.tooDeep C.left.config.maxDepth c.span)
      (.tooDeep C.right.config.maxDepth d.span)) : C.Agrees (refuse : Reading α) refuse Q := by
  intro c d hcd slot slot' s t hslot hst hs ht
  subst hs ht
  exact .error (h hcd) hst

end Comparison

end BendSyntax
