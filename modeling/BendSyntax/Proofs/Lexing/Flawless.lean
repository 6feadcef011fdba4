import BendSyntax.Proofs.Lexing.Joined

/-! Nothing is wrong with the tokens of a text exactly if none of them is malformed and no block
comment is left open. -/

namespace BendSyntax

namespace Scanned

/-- A token that is marked as malformed exactly if flaws have been found in it. -/
def Frank (s : Scanned) : Prop := s.kind = .invalid ↔ s.flaws ≠ []

namespace Frank

variable {kind : TokenKind}

theorem valid (text rest : List Char) (h : kind ≠ .invalid) : (valid kind text rest).Frank := by
  simp [Frank, Scanned.valid, h]

theorem bad (cause : Flaw.Cause) (text rest : List Char) : (bad cause text rest).Frank := by
  simp [Frank, Scanned.bad]

theorem ofWord {w : String} (text rest : List Char) (h : TokenKind.ofWord? w = some kind) :
    (Scanned.valid kind text rest).Frank := by
  refine valid text rest ?_
  obtain ⟨k, -, rfl⟩ := Option.map_eq_some_iff.mp h
  nofun

theorem checked (text rest : List Char) (h : kind ≠ .invalid) :
    (checked kind text rest).Frank := by
  unfold Scanned.checked
  split
  · exact .valid _ _ h
  · exact .bad _ _ _

theorem based (radix : Nat) (mark : String) (sign cs : List Char) :
    (based radix mark sign cs).Frank := by
  simp only [Scanned.based]
  split
  · exact .bad _ _ _
  · exact .checked _ _ (by decide)

theorem decimal (sign cs : List Char) : (decimal sign cs).Frank := by
  simp only [Scanned.decimal]
  split
  · split_ifs
    · exact .checked _ _ (by decide)
    · exact .checked _ _ (by decide)
    · exact .bad _ _ _
  · split_ifs <;> exact .checked _ _ (by decide)
  · exact .checked _ _ (by decide)

theorem number (sign cs : List Char) : (number sign cs).Frank := by
  unfold Scanned.number
  split
  · exact .based _ _ _ _
  · exact .based _ _ _ _
  · exact .decimal _ _

theorem word (cs : List Char) : (word cs).Frank := by
  simp only [Scanned.word]
  cases hword : TokenKind.ofWord? (String.ofList (cs.take (wordLength cs))) with
  | none => exact .valid _ _ (by simp)
  | some kind => exact .ofWord _ _ hword

theorem letter (c : Char) (cs : List Char) : (letter c cs).Frank := by
  unfold Scanned.letter
  split
  · exact .ofWord _ _ ‹_›
  · exact .bad _ _ _

theorem string (cs : List Char) : (string cs).Frank := by
  unfold Scanned.string
  split <;> simp [Frank]

theorem closeChar (cs : List Char) (n : Nat) (flaws : List Flaw) :
    (closeChar cs n flaws).Frank := by
  unfold Scanned.closeChar
  split <;> simp [Frank]

theorem char (cs : List Char) : (char cs).Frank := by
  unfold Scanned.char
  split
  · exact .bad _ _ _
  · exact .bad _ _ _
  · exact .bad _ _ _
  · exact .closeChar _ _ _
  · exact .closeChar _ _ _

theorem symbol (c : Char) (cs : List Char) : (symbol c cs).Frank := by
  unfold Scanned.symbol
  split
  · exact .valid _ _ nofun
  · exact .bad _ _ _

theorem next (signed : Bool) (cs : List Char) : (next signed cs).Frank := by
  cases cs with
  | nil => exact .valid _ _ nofun
  | cons c cs =>
      simp only [Scanned.next]
      split_ifs
      · exact .number _ _
      · exact .number _ _
      · exact .word _
      · exact .string _
      · exact .char _
      · exact .symbol _ _
      · exact .letter _ _

end Frank

end Scanned

namespace Lexing

/-- A block comment is left open in a text. -/
def LeavesComment (l : Lexing) : Prop :=
  ∃ d ∈ l.diagnostics, d.message = Flaw.Cause.unclosedComment.message

instance (l : Lexing) : Decidable l.LeavesComment :=
  inferInstanceAs (Decidable (∃ d ∈ l.diagnostics, _))

variable {previous : Option TokenKind} {p : Position} {cs : List Char}

theorem gapDiagnostics_eq_nil {gap : Gap}
    (h : ∀ d ∈ gapDiagnostics gap p cs, d.message ≠ Flaw.Cause.unclosedComment.message) :
    gapDiagnostics gap p cs = [] := by
  cases hgap : gapDiagnostics gap p cs with
  | nil => rfl
  | cons d ds =>
      rw [hgap] at h
      refine absurd ?_ (h d List.mem_cons_self)
      unfold gapDiagnostics at hgap
      split at hgap
      · cases hgap
        rfl
      · cases hgap

/-- What is reported about the tokens are malformed tokens and comments that are left open. -/
theorem diagnostics_eq_nil_iff : (onward previous p cs).diagnostics = [] ↔
    ¬(onward previous p cs).LeavesComment ∧
      ∀ t ∈ (onward previous p cs).tokens.body, t.kind ≠ .invalid := by
  induction hn : cs.length using Nat.strongRecOn generalizing previous p cs with
  | _ n ih =>
      cases hrest : (Gap.atFront cs).rest with
      | nil =>
          simp only [LeavesComment, (onward_of_nil hrest).1, (onward_of_nil hrest).2]
          refine ⟨fun h => by simp [h], fun h => gapDiagnostics_eq_nil fun d hd hmessage => ?_⟩
          exact h.1 ⟨d, hd, hmessage⟩
      | cons c rest =>
          have hshorter : (first previous cs).rest.length < n := hn ▸ first_rest_length hrest
          have hafter := @ih _ hshorter (some (first previous cs).kind)
            ((behindGap p cs).after (first previous cs).text) (first previous cs).rest rfl
          have hfrank : (first previous cs).Frank := .next _ _
          simp only [LeavesComment, (onward_of_cons hrest).1, (onward_of_cons hrest).2, List.append_eq_nil_iff, List.map_eq_nil_iff,
            hafter, List.forall_mem_cons, List.mem_append, not_exists, not_and]
          constructor
          · rintro ⟨⟨hgap, hflaws⟩, hleaves, hkinds⟩
            refine ⟨?_, fun hinvalid => hfrank.mp hinvalid hflaws, hkinds⟩
            rintro d ((hd | hd) | hd)
            · simp [hgap] at hd
            · simp [hflaws] at hd
            · exact hleaves d hd
          · rintro ⟨hleaves, hkind, hkinds⟩
            refine ⟨⟨gapDiagnostics_eq_nil fun d hd => hleaves d (.inl (.inl hd)), ?_⟩, ?_, hkinds⟩
            · by_contra hflaws
              exact hkind (hfrank.mpr hflaws)
            · exact fun d hd => hleaves d (.inr hd)

end Lexing

end BendSyntax
