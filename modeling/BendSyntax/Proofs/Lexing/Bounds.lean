import BendSyntax.Proofs.Lexing.Tiling

/-! What is found inside a token lies inside it: the flaws within its text, and a sign only at its
front. -/

namespace BendSyntax

/-! ## Gaps -/

namespace Scanned

/-- The flaws of a token are in its text. -/
def FlawsInside (s : Scanned) : Prop := ∀ f ∈ s.flaws, f.start + f.length ≤ s.text.length

theorem escapeFlaw_le (n : Nat) (cs : List Char) :
    ∀ f ∈ escapeFlaw n cs, f.start + f.length ≤ n + 1 + (escape cs).1 := by
  unfold escapeFlaw
  split
  · rename_i width cause hescape
    rw [hescape]
    simp
    omega
  · nofun

theorem escapeFlaws_le (n : Nat) (cs : List Char) :
    ∀ f ∈ escapeFlaws n cs, f.start + f.length ≤ n + cs.length := by
  fun_induction escapeFlaws n cs with
  | case1 n c cs ih =>
      intro f hf
      rcases List.mem_append.mp hf with hf | hf
      · have hwidth := escape_le (c :: cs)
        have := escapeFlaw_le n (c :: cs) f hf
        simp only [List.length_cons] at *
        omega
      · have := ih f hf
        simp only [List.length_cons]
        omega
  | case2 n c cs hescape ih =>
      intro f hf
      have := ih f hf
      simp only [List.length_cons]
      omega
  | case3 n => nofun

namespace FlawsInside

theorem valid (kind : TokenKind) (text rest : List Char) :
    (valid kind text rest).FlawsInside := nofun

theorem bad (cause : Flaw.Cause) (text rest : List Char) : (bad cause text rest).FlawsInside := by
  intro f hf
  obtain rfl := List.mem_singleton.mp hf
  simp [Scanned.bad]

theorem checked (kind : TokenKind) (text rest : List Char) :
    (checked kind text rest).FlawsInside := by
  unfold Scanned.checked
  split
  · exact .valid _ _ _
  · exact .bad _ _ _

theorem based (radix : Nat) (mark : String) (sign cs : List Char) :
    (based radix mark sign cs).FlawsInside := by
  simp only [Scanned.based]
  split
  · exact .bad _ _ _
  · exact .checked _ _ _

theorem decimal (sign cs : List Char) : (decimal sign cs).FlawsInside := by
  simp only [Scanned.decimal]
  split
  · split
    · exact .checked _ _ _
    · split
      · exact .checked _ _ _
      · exact .bad _ _ _
  · split <;> exact .checked _ _ _
  · exact .checked _ _ _

theorem number (sign cs : List Char) : (number sign cs).FlawsInside := by
  unfold Scanned.number
  split
  · exact .based _ _ _ _
  · exact .based _ _ _ _
  · exact .decimal _ _

theorem letter (c : Char) (cs : List Char) : (letter c cs).FlawsInside := by
  unfold Scanned.letter
  split
  · exact .valid _ _ _
  · exact .bad _ _ _

theorem symbol (c : Char) (cs : List Char) : (symbol c cs).FlawsInside := by
  unfold Scanned.symbol
  split
  · exact .valid _ _ _
  · exact .bad _ _ _

theorem string (cs : List Char) : (string cs).FlawsInside := by
  unfold Scanned.string
  split
  · rename_i n hn
    intro f hf
    have hle := escapeFlaws_le 1 (cs.take n) f hf
    simp only [List.length_cons, List.length_take] at hle ⊢
    omega
  · intro f hf
    rcases List.mem_append.mp hf with hf | hf
    · have hle := escapeFlaws_le 1 cs f hf
      simp only [List.length_cons]
      omega
    · obtain rfl := List.mem_singleton.mp hf
      simp

theorem closeChar {cs : List Char} {n : Nat} {flaws : List Flaw} (hn : n ≤ cs.length)
    (hflaws : ∀ f ∈ flaws, f.start + f.length ≤ n + 1) : (closeChar cs n flaws).FlawsInside := by
  unfold Scanned.closeChar
  split
  · intro f hf
    have := hflaws f hf
    simp
    omega
  · intro f hf
    rcases List.mem_append.mp hf with hf | hf
    · have := hflaws f hf
      simp
      omega
    · obtain rfl := List.mem_singleton.mp hf
      simp
      omega

theorem char (cs : List Char) : (char cs).FlawsInside := by
  unfold Scanned.char
  split
  · exact .bad _ _ _
  · exact .bad _ _ _
  · exact .bad _ _ _
  · rename_i rest
    refine .closeChar (Nat.succ_le_succ (escape_le rest)) fun f hf => ?_
    have := escapeFlaw_le 1 rest f hf
    omega
  · exact .closeChar (Nat.le_add_left _ _) nofun

theorem next (signed : Bool) (cs : List Char) : (next signed cs).FlawsInside := by
  cases cs with
  | nil => nofun
  | cons c cs =>
      simp only [Scanned.next]
      split_ifs
      · exact .number _ _
      · exact .number _ _
      · exact .valid _ _ _
      · exact .string cs
      · exact .char cs
      · exact .symbol c cs
      · exact .letter c cs

end FlawsInside

/-! ## Signs -/

theorem minus_not_isDigit (radix : Nat) : Numeral.isDigit radix '-' = false := by
  simp [Numeral.isDigit, Numeral.digit?]

end Scanned

/-! ## Numerals -/

end BendSyntax
