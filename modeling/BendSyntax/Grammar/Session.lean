import BendSyntax.Config
import BendSyntax.Grammar.Lookahead
import BendSyntax.SyntaxError
import BendSyntax.Syntax.Tree

/-!
# Sessions

What reading a text has come to so far: the cursor, the tree, what was reported, and which
attempts came to nothing. A session only goes onward: the cursor does not go back past
where a reading began, nodes and reports from before stay, and no failure is forgotten.
-/

namespace BendSyntax

/-- Readings that are tried and whose failures are remembered. -/
inductive Attempt where
  | generic | equality | typedLet
  deriving Repr, DecidableEq

/-- An attempt that came to nothing before the token at an index. -/
structure Failure where
  index : Nat
  what : Attempt
  /-- The slot in which the attempt was tried or passed over. -/
  slot : Slot
  deriving Repr, DecidableEq

/-- Whether two failures are the same attempt before the same token, whatever the slot. -/
def Failure.matches (f g : Failure) : Bool := f.index = g.index && f.what = g.what

structure Session where
  cursor : Cursor
  tree : Tree
  diagnostics : Array Diagnostic
  /-- What came to nothing so far, the latest first. -/
  failures : List Failure
  deriving Repr, DecidableEq, Inhabited

namespace Session

/-- Takes a session back to an earlier one, except for what is known to fail. -/
def rewind (now before : Session) : Session :=
  ⟨before.cursor, now.tree.rewind before.tree.mark,
    now.diagnostics.take before.diagnostics.size, now.failures⟩

def remember (s : Session) (f : Failure) : Session := { s with failures := f :: s.failures }

def report (s : Session) (e : SyntaxError) : Session :=
  { s with diagnostics := s.diagnostics.push e.toDiagnostic }

/-- Discards the nodes that were added since an earlier session. -/
def discard (now before : Session) : Session :=
  { now with tree := now.tree.rewind before.tree.mark }

/-- What reading on preserves. -/
structure Onward (s t : Session) : Prop where
  cursor : s.cursor.Reaches t.cursor
  tree : s.tree.Extends t.tree
  diagnostics : s.diagnostics.toList <+: t.diagnostics.toList
  failures : s.failures <:+ t.failures

namespace Onward

theorem refl (s : Session) : s.Onward s :=
  ⟨.refl _, .refl _, List.prefix_refl _, List.suffix_refl _⟩

theorem trans {s t u : Session} (h : s.Onward t) (k : t.Onward u) : s.Onward u :=
  ⟨h.cursor.trans k.cursor, h.tree.trans k.tree, h.diagnostics.trans k.diagnostics,
    h.failures.trans k.failures⟩

theorem setCursor {s : Session} {c : Cursor} (h : s.cursor.Reaches c) :
    s.Onward { s with cursor := c } :=
  ⟨h, .refl _, List.prefix_refl _, List.suffix_refl _⟩

theorem setTree {s : Session} {t : Tree} (h : s.tree.Extends t) : s.Onward { s with tree := t } :=
  ⟨.refl _, h, List.prefix_refl _, List.suffix_refl _⟩

theorem remember (s : Session) (f : Failure) : s.Onward (s.remember f) :=
  ⟨.refl _, .refl _, List.prefix_refl _, List.suffix_cons _ _⟩

theorem report (s : Session) (e : SyntaxError) : s.Onward (s.report e) :=
  ⟨.refl _, .refl _, by simp [Session.report], List.suffix_refl _⟩

/-- Back at an earlier session, all reports are there that were there then. -/
theorem diagnostics_rewind {s t : Session} (h : s.Onward t) :
    (t.rewind s).diagnostics = s.diagnostics := by
  apply Array.toList_inj.mp
  rw [List.prefix_iff_eq_take.mp h.diagnostics]
  simp [Session.rewind]

theorem rewind {s t : Session} (h : s.Onward t) : s.Onward (t.rewind s) :=
  ⟨.refl _, h.tree.rewind, by simp [h.diagnostics_rewind], h.failures⟩

theorem discard {s t : Session} (h : s.Onward t) : s.Onward (t.discard s) :=
  ⟨h.cursor, h.tree.rewind, h.diagnostics, h.failures⟩

end Onward

end Session

end BendSyntax
