import BendSyntax.Proofs.Layout.Rounds
import BendSyntax.Proofs.Lexing.Order
import BendSyntax.Proofs.Results

/-! What the readings of whole texts leave behind: the tree of an accepted text is sound, and with
recovery everything that was reported is accounted for. -/

namespace BendSyntax

open Reading Grammar Owner

theorem Session.sound_initial (source : String) : (initial (Lexing.ofText source)).Sound :=
  ⟨Cursor.orderly_start source, Tree.sound_empty⟩

theorem accounted_initial (source : String) :
    Accounted (Lexing.ofText source).diagnostics [] (initial (Lexing.ofText source)) where
  sound := Session.sound_initial source
  reports := ⟨[], by simp [initial], rfl, .nil, nofun⟩
  bodies := nofun
  covers := fun _ => nofun

namespace Program

/-- The rounds over the items of a text come to an end, which is what is read from the text. -/
theorem read_runLoop (config : Config) (remembers : Bool) (source : String) :
    ∃ (items : Array (Item TermId)) (s : Session),
      runLoop (itemRound (nested config.maxDepth)) (setting config remembers) #[]
        (initial (Lexing.ofText source)) = .ok items s ∧
      Program.read config remembers source = ⟨⟨s.tree, items.toList⟩, s.diagnostics.toList⟩ := by
  have hsure : Sure config (sourceFile (nested config.maxDepth)) := Sure.sourceFile _
  obtain ⟨items, s, hs⟩ := hsure remembers (.free .term) (initial (Lexing.ofText source))
  obtain ⟨read, t, hloop, hpure⟩ := ok_of_bind hs
  cases hpure
  exact ⟨read, s, hloop, read_of_runLoop hloop⟩

/-- All items of a text are read, and without recovery there is a report if one cannot be read. -/
theorem accounted_read (config : Config) (remembers : Bool) (source : String) :
    ∃ (items : List (Item TermId)) (s : Session),
      Program.read config remembers source = ⟨⟨s.tree, items⟩, s.diagnostics.toList⟩ ∧
        (Lexing.ofText source).diagnostics <+: s.diagnostics.toList ∧
        (Accounted (Lexing.ofText source).diagnostics items s ∨
          config.recover = false ∧ s.diagnostics.toList ≠ (Lexing.ofText source).diagnostics) := by
  obtain ⟨items, s, hloop, hread⟩ := read_runLoop config remembers source
  have honward := runLoop_onward (itemRound (nested config.maxDepth)) (setting config remembers) #[]
    (initial (Lexing.ofText source))
  rw [hloop] at honward
  exact ⟨items.toList, s, hread, honward.diagnostics,
    accounted_runLoop config.maxDepth (accounted_initial source) hloop⟩

/-- The tree of a program is sound if nothing is wrong with it, and its items cover their roots. -/
theorem sound_of_ofTextStrict {source : String} {config : Config} {p : Program}
    (h : Program.ofTextStrict source config = .ok p) :
    p.tree.Sound ∧ ∀ item ∈ p.items, item.Covers p.tree := by
  obtain ⟨items, s, hread, hbefore, haccounted⟩ := accounted_read config true source
  simp only [ofTextStrict, ofText, hread] at h
  split at h
  · rename_i hclean
    cases h
    rw [List.isEmpty_iff.mp hclean, List.prefix_nil] at hbefore
    rcases haccounted with haccounted | ⟨-, hne⟩
    · refine ⟨haccounted.sound.tree, haccounted.covers ?_⟩
      rw [hbefore, List.isEmpty_iff.mp hclean]
    · exact absurd (by rw [hbefore, List.isEmpty_iff.mp hclean]) hne
  · cases h

end Program

/-- The tree of an accepted expression is sound. -/
theorem Expression.sound_of_ofText {source : String} {config : Config} {e : Expression}
    (h : Expression.ofText source config = .ok e) : e.tree.Sound := by
  rw [ofText, read_eq] at h
  have hwhole : Places (wholeStatement (nested config.maxDepth)) :=
    .bind (laysOut_nested config.maxDepth).statement fun _ _ => .skip (quiet_sees _) fun _ =>
      .ite (fun _ => .pure rfl) fun _ => lays_unexpected _
  have hlaid :=
    hwhole (setting config true) _ (Session.sound_initial source) (Nat.le_refl _) trivial
  obtain ⟨s, hrun, htree, -⟩ := Outcome.ok_of_expression h
  rw [onText] at hrun
  rw [hrun] at hlaid
  exact htree ▸ hlaid.1.tree

end BendSyntax
