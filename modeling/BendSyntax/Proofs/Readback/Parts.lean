import BendSyntax.Syntax.Dump
import BendSyntax.Token.Escape
import Mathlib.Data.Nat.Digits.Lemmas
import Mathlib.Tactic.SplitIfs
import Mathlib.Tactic.Tauto

/-! Dumps are uniquely readable. The items of a list are set apart by single blanks, and the text of each of
them tells where it ends: a word at the first character that cannot belong to one, a quoted text at the
closing mark, and a list at its closing bracket. -/

namespace BendSyntax

/-- A stretch of a text ends where a stop follows. -/
theorem stretch_unique {Stops : Char → Prop} {a b r s : List Char} (ha : ∀ c ∈ a, ¬Stops c)
    (hb : ∀ c ∈ b, ¬Stops c) (hr : ∀ c ∈ r.head?, Stops c) (hs : ∀ c ∈ s.head?, Stops c)
    (h : a ++ r = b ++ s) : a = b ∧ r = s := by
  induction a generalizing b with
  | nil =>
      cases b with
      | nil => exact ⟨rfl, h⟩
      | cons c b =>
          have hc : Stops c := hr c (by rw [List.nil_append] at h; simp [h])
          exact absurd hc (hb c List.mem_cons_self)
  | cons c a ih =>
      cases b with
      | nil =>
          have hc : Stops c := hs c (by rw [List.nil_append] at h; simp [← h])
          exact absurd hc (ha c List.mem_cons_self)
      | cons d b =>
          obtain ⟨rfl, htail⟩ := List.cons.inj h
          obtain ⟨rfl, rfl⟩ := ih (fun e he => ha e (List.mem_cons_of_mem c he))
            (fun e he => hb e (List.mem_cons_of_mem c he)) htail
          exact ⟨rfl, rfl⟩

namespace Text

theorem digitChar_injective {a b : Nat} (ha : a < 16) (hb : b < 16) (h : a.digitChar = b.digitChar) :
    a = b := by
  have hall : ∀ a < 16, ∀ b < 16, a.digitChar = b.digitChar → a = b := by decide
  exact hall a ha b hb h

/-- Numbers with the same hexadecimal digits are the same. -/
theorem hexDigits_injective {m n : Nat} (h : hexDigits m = hexDigits n) : m = n := by
  have hbelow {k : Nat} (hk : k < 16) : hexDigits k = [k.digitChar] := Nat.toDigits_of_lt_base hk
  have habove {k : Nat} (hk : 16 ≤ k) : hexDigits k = hexDigits (k / 16) ++ [(k % 16).digitChar] :=
    Nat.toDigits_of_base_le (by decide) hk
  have hne (k : Nat) : hexDigits k ≠ [] := Nat.toDigits_ne_nil
  induction m using Nat.strong_induction_on generalizing n with
  | h m ih =>
      rcases Nat.lt_or_ge m 16 with hm | hm <;> rcases Nat.lt_or_ge n 16 with hn | hn
      · rw [hbelow hm, hbelow hn] at h
        exact digitChar_injective hm hn (List.singleton_inj.mp h)
      · rw [hbelow hm, habove hn] at h
        have happend : [] ++ [m.digitChar] = hexDigits (n / 16) ++ [(n % 16).digitChar] := h
        exact absurd (List.append_inj_left' happend rfl).symm (hne _)
      · rw [habove hm, hbelow hn] at h
        have happend : hexDigits (m / 16) ++ [(m % 16).digitChar] = [] ++ [n.digitChar] := h
        exact absurd (List.append_inj_left' happend rfl) (hne _)
      · rw [habove hm, habove hn] at h
        obtain ⟨hfront, hlast⟩ := List.append_inj' h rfl
        have hquotient := ih (m / 16) (by omega) hfront
        have hremainder := digitChar_injective (Nat.mod_lt _ (by decide)) (Nat.mod_lt _ (by decide))
          (List.singleton_inj.mp hlast)
        omega

theorem notMem_hexDigits (n : Nat) : '\x7d' ∉ hexDigits n := by
  have hdigit : ∀ a < 16, a.digitChar ≠ '\x7d' := by decide
  induction n using Nat.strong_induction_on with
  | h n ih =>
      rcases Nat.lt_or_ge n 16 with hn | hn
      · rw [hexDigits, Nat.toDigits_of_lt_base hn, List.mem_singleton]
        exact (hdigit n hn).symm
      · rw [hexDigits, Nat.toDigits_of_base_le (by decide) hn, List.mem_append, List.mem_singleton, not_or]
        exact ⟨ih _ (by omega), (hdigit _ (Nat.mod_lt _ (by decide))).symm⟩

/-- A character is shown as it is, by a letter or by its code point. -/
theorem escape_cases {mark : Char} (hmark : mark = '"' ∨ mark = '\'') (c : Char) :
    (escape mark c = [c] ∧ c ≠ '\\' ∧ c ≠ mark) ∨
      (∃ l, escape mark c = ['\\', l] ∧ Escape.letter? l = some c) ∨
      escape mark c = '\\' :: 'u' :: '\x7b' :: hexDigits c.toNat ++ ['\x7d'] := by
  have hquote : Escape.letter? mark = some mark := by rcases hmark with rfl | rfl <;> rfl
  unfold escape
  split
  case h_6 _ _ _ _ hback =>
    split_ifs with hc
    · exact .inr (.inl ⟨c, rfl, hc ▸ hquote⟩)
    · exact .inr (.inr rfl)
    · exact .inl ⟨rfl, hback, hc⟩
  all_goals exact .inr (.inl ⟨_, rfl, rfl⟩)

/-- What a character is shown as tells which character it is and where it ends. -/
theorem escape_unique {mark : Char} (hmark : mark = '"' ∨ mark = '\'') {c d : Char} {r s : List Char}
    (h : escape mark c ++ r = escape mark d ++ s) : c = d ∧ r = s := by
  have hletter : Escape.letter? 'u' = none := rfl
  rcases escape_cases hmark c with ⟨hc, hback, -⟩ | ⟨l, hc, hl⟩ | hc <;>
    rcases escape_cases hmark d with ⟨hd, hback', -⟩ | ⟨k, hd, hk⟩ | hd <;> rw [hc, hd] at h
  · simpa using h
  · exact absurd (List.cons.inj h).1 hback
  · exact absurd (List.cons.inj h).1 hback
  · exact absurd (List.cons.inj h).1.symm hback'
  · obtain ⟨rfl, rfl⟩ : l = k ∧ r = s := by simpa using h
    exact ⟨Option.some.inj (hl.symm.trans hk), rfl⟩
  · obtain ⟨rfl, -⟩ : l = 'u' ∧ _ := by simpa using h
    cases hl
  · exact absurd (List.cons.inj h).1.symm hback'
  · obtain ⟨rfl, -⟩ : 'u' = k ∧ _ := by simpa using h
    cases hk
  · have htail : hexDigits c.toNat ++ '\x7d' :: r = hexDigits d.toNat ++ '\x7d' :: s := by simpa using h
    have hstop (n : Nat) : ∀ e ∈ hexDigits n, ¬e = '\x7d' := fun e he heq =>
      notMem_hexDigits n (heq ▸ he)
    obtain ⟨hdigits, hrest⟩ := stretch_unique (hstop _) (hstop _) (by simp) (by simp) htail
    exact ⟨Char.toNat_inj.mp (hexDigits_injective hdigits), (List.cons.inj hrest).2⟩

/-- The closing mark stands where nothing shown goes on. -/
theorem quoted_unique {mark mark' : Char} (hmark : mark = '"' ∨ mark = '\'')
    {cs ds r s : List Char} (h : quoted mark cs ++ r = quoted mark' ds ++ s) :
    mark = mark' ∧ cs = ds ∧ r = s := by
  simp only [quoted, List.cons_append, List.append_assoc, List.cons.injEq] at h
  obtain ⟨rfl, hbody⟩ := h
  refine ⟨rfl, ?_⟩
  have hmark_ne (c : Char) (rest u : List Char) : escape mark c ++ rest ≠ mark :: u := by
    have hback : mark ≠ '\\' := by rcases hmark with rfl | rfl <;> decide
    rcases escape_cases hmark c with ⟨hc, -, hne⟩ | ⟨l, hc, -⟩ | hc <;> rw [hc] <;> intro heq
    · exact hne (List.cons.inj heq).1
    · exact hback (List.cons.inj heq).1.symm
    · exact hback (List.cons.inj heq).1.symm
  induction cs generalizing ds with
  | nil =>
      cases ds with
      | nil => simpa using hbody
      | cons d ds =>
          rw [List.flatMap_cons, List.append_assoc] at hbody
          exact absurd hbody.symm (hmark_ne d _ _)
  | cons c cs ih =>
      cases ds with
      | nil =>
          rw [List.flatMap_cons, List.append_assoc] at hbody
          exact absurd hbody (hmark_ne c _ _)
      | cons d ds =>
          rw [List.flatMap_cons, List.flatMap_cons, List.append_assoc, List.append_assoc] at hbody
          obtain ⟨rfl, htail⟩ := escape_unique hmark hbody
          obtain ⟨rfl, rfl⟩ := ih htail
          exact ⟨rfl, rfl⟩

end Text

/-! ## Parts -/

namespace Dump

/-- What ends a word: a blank, a closing bracket or the braces of a label. -/
def Stops (c : Char) : Prop := c = ' ' ∨ c = ')' ∨ c = '>' ∨ c = '\x7b'

/-- Names, numbers, keywords and most operators. -/
def IsWord : List Char → Prop
  | [] => False
  | c :: cs => c ∉ [' ', '(', ')', '<', '>', '=', '"', '\''] ∧
      ∀ d ∈ cs, ¬Stops d ∧ d ∉ ['(', '"', '\'']

/-- Characters of which every text is a word. -/
def Ordinary (c : Char) : Prop := c ∉ [' ', '(', ')', '<', '>', '=', '\x7b', '"', '\'']

instance : DecidablePred Ordinary := fun c =>
  inferInstanceAs (Decidable (c ∉ [' ', '(', ')', '<', '>', '=', '\x7b', '"', '\'']))

theorem isWord_of_ordinary {cs : List Char} (hne : cs ≠ []) (h : ∀ c ∈ cs, Ordinary c) : IsWord cs := by
  obtain ⟨c, cs, rfl⟩ := List.exists_cons_of_ne_nil hne
  obtain ⟨hc, hcs⟩ := List.forall_mem_cons.mp h
  refine ⟨fun hmem => hc ?_, fun d hd => ⟨fun hstop => hcs d hd ?_, fun hmem => hcs d hd ?_⟩⟩
  · simp only [List.mem_cons, List.not_mem_nil, or_false] at hmem ⊢
    tauto
  · simp only [Stops, List.mem_cons, List.not_mem_nil, or_false] at hstop ⊢
    tauto
  · simp only [List.mem_cons, List.not_mem_nil, or_false] at hmem ⊢
    tauto

/-- The operators that are made of angle brackets and equality signs. -/
def signs : List String := ["<", ">", "<=", ">=", "<<", ">>", "<>", "->", "=>", "=", "==", "==="]

/-- The texts that stand in a list, and those of them that may stand anywhere. -/
inductive Readable : Bool → List Char → Prop
  | word {listed w} : IsWord w → Readable listed w
  | quoted {listed mark} (text) : mark = '"' ∨ mark = '\'' →
      Readable listed (Text.quoted mark text)
  | group {listed ps} : (∀ p ∈ ps, Readable true p) →
      Readable listed ('(' :: ([' '].intercalate ps ++ [')']))
  | sign {w} : w ∈ signs → Readable true w.toList
  | angles {ps} : ps ≠ [] → (∀ p ∈ ps, Readable false p) →
      Readable true ('<' :: ([' '].intercalate ps ++ ['>']))
  | label {p} : Readable false p → Readable true ('&' :: (p ++ ['\x7b', ',', '\x7d']))

/-- What may stand behind a text. -/
def Follows (listed : Bool) (rest : List Char) : Prop :=
  ∀ c ∈ rest.head?, if listed then c = ' ' ∨ c = ')' else Stops c

/-- A text ends where it does whatever follows. -/
def Unique (listed : Bool) (p : List Char) : Prop :=
  ∀ q r s, Readable listed q → Follows listed r → Follows listed s → p ++ r = q ++ s →
    p = q ∧ r = s

theorem Follows.stops {listed : Bool} {r : List Char} (h : Follows listed r) :
    ∀ c ∈ r.head?, Stops c := by
  intro c hc
  cases listed with
  | false => exact h c hc
  | true => exact (h c hc).imp id .inl

theorem follows_blank {listed : Bool} (r : List Char) : Follows listed (' ' :: r) := by
  rintro _ ⟨⟩
  cases listed
  · exact .inl rfl
  · exact .inl rfl

/-- A readable text begins, and not with what may follow one. -/
theorem Readable.front {listed : Bool} {p : List Char} (h : Readable listed p) :
    ∃ c cs, p = c :: cs ∧ c ≠ ' ' ∧ c ≠ ')' ∧ (listed = false → c ≠ '<' ∧ c ≠ '>' ∧ c ≠ '=') := by
  cases h with
  | word h =>
      cases p with
      | nil => cases h
      | cons c cs =>
          have hc := h.1
          simp only [List.mem_cons, not_or] at hc
          exact ⟨c, cs, rfl, hc.1, hc.2.2.1, fun _ => ⟨hc.2.2.2.1, hc.2.2.2.2.1, hc.2.2.2.2.2.1⟩⟩
  | quoted text hmark =>
      rcases hmark with rfl | rfl <;> exact ⟨_, _, rfl, by decide, by decide, fun _ => by decide⟩
  | group _ => exact ⟨_, _, rfl, by decide, by decide, fun _ => by decide⟩
  | @sign w h =>
      simp only [signs, List.mem_cons, List.not_mem_nil, or_false] at h
      rcases h with rfl | rfl | rfl | rfl | rfl | rfl | rfl | rfl | rfl | rfl | rfl | rfl <;>
        exact ⟨_, _, rfl, by decide, by decide, nofun⟩
  | angles _ _ => exact ⟨_, _, rfl, by decide, by decide, nofun⟩
  | label _ => exact ⟨_, _, rfl, by decide, by decide, nofun⟩

theorem intercalate_cons (p : List Char) (ps : List (List Char)) :
    [' '].intercalate (p :: ps) = p ++ ps.flatMap (' ' :: ·) := by
  induction ps generalizing p with
  | nil => simp
  | cons q ps ih => simp [List.intercalate_cons_cons, ih]

section Lists

variable {listed : Bool} {close : Char} {ps qs : List (List Char)} {r s : List Char}

/-- Items with blanks in front of them, up to a bracket, tell where each of them ends. -/
theorem items_unique (hblank : close ≠ ' ') (hclose : ∀ r, Follows listed (close :: r))
    (hps : ∀ p ∈ ps, Unique listed p) (hqs : ∀ q ∈ qs, Readable listed q)
    (h : ps.flatMap (' ' :: ·) ++ close :: r = qs.flatMap (' ' :: ·) ++ close :: s) :
    ps = qs ∧ r = s := by
  have hfollows (as : List (List Char)) (t : List Char) :
      Follows listed (as.flatMap (' ' :: ·) ++ close :: t) := by
    cases as with
    | nil => exact hclose t
    | cons a as => exact follows_blank _
  induction ps generalizing qs with
  | nil =>
      cases qs with
      | nil => exact ⟨rfl, (List.cons.inj h).2⟩
      | cons q qs => exact absurd (List.cons.inj h).1 hblank
  | cons p ps ih =>
      cases qs with
      | nil => exact absurd (List.cons.inj h).1.symm hblank
      | cons q qs =>
          obtain ⟨hp, hps'⟩ := List.forall_mem_cons.mp hps
          obtain ⟨hq, hqs'⟩ := List.forall_mem_cons.mp hqs
          rw [List.flatMap_cons, List.flatMap_cons, List.append_assoc, List.append_assoc] at h
          obtain ⟨rfl, htail⟩ := hp q _ _ hq (hfollows _ _) (hfollows _ _) (List.cons.inj h).2
          obtain ⟨rfl, rfl⟩ := ih hps' hqs' htail
          exact ⟨rfl, rfl⟩

/-- So do items with blanks between them. -/
theorem intercalate_unique (hblank : close ≠ ' ') (hclose : ∀ r, Follows listed (close :: r))
    (hfront : ∀ c cs, Readable listed (c :: cs) → c ≠ close)
    (hps : ∀ p ∈ ps, Readable listed p ∧ Unique listed p) (hqs : ∀ q ∈ qs, Readable listed q)
    (h : [' '].intercalate ps ++ close :: r = [' '].intercalate qs ++ close :: s) :
    ps = qs ∧ r = s := by
  have hbegins {p : List Char} (hp : Readable listed p) (more t : List Char) :
      p ++ more ≠ close :: t := by
    obtain ⟨c, cs, rfl, -⟩ := hp.front
    exact fun heq => hfront c cs hp (List.cons.inj heq).1
  cases ps with
  | nil =>
      cases qs with
      | nil => exact ⟨rfl, (List.cons.inj h).2⟩
      | cons q qs =>
          rw [intercalate_cons, List.append_assoc] at h
          exact absurd h.symm (hbegins (hqs q List.mem_cons_self) _ _)
  | cons p ps =>
      cases qs with
      | nil =>
          rw [intercalate_cons, List.append_assoc] at h
          exact absurd h (hbegins (hps p List.mem_cons_self).1 _ _)
      | cons q qs =>
          have hitems : (p :: ps).flatMap (' ' :: ·) ++ close :: r =
              (q :: qs).flatMap (' ' :: ·) ++ close :: s := by
            rw [intercalate_cons, intercalate_cons] at h
            exact congrArg (' ' :: ·) h
          exact items_unique hblank hclose (fun x hx => (hps x hx).2) hqs hitems

end Lists

theorem stays_of_sign {w : String} (h : w ∈ signs) : ∀ c ∈ w.toList, ¬(c = ' ' ∨ c = ')') := by
  simp only [signs, List.mem_cons, List.not_mem_nil, or_false] at h
  rcases h with rfl | rfl | rfl | rfl | rfl | rfl | rfl | rfl | rfl | rfl | rfl | rfl <;> simp

theorem not_isWord_of_sign {w : String} (h : w ∈ signs) : ¬IsWord w.toList := by
  simp only [signs, List.mem_cons, List.not_mem_nil, or_false] at h
  rcases h with rfl | rfl | rfl | rfl | rfl | rfl | rfl | rfl | rfl | rfl | rfl | rfl <;>
    simp [IsWord, Stops]

/-- An operator that begins with an angle bracket does not go on as an item between such brackets. -/
theorem sign_ne_angles {w : String} (h : w ∈ signs) {c : Char} {cs r : List Char} (hr : Follows true r)
    (hc : c ≠ ' ' ∧ c ≠ ')' ∧ c ≠ '<' ∧ c ≠ '>' ∧ c ≠ '=') : w.toList ++ r ≠ '<' :: c :: cs := by
  intro heq
  have hnext (hw : r = c :: cs) : False := by
    have hfollows := hr c (by rw [hw]; rfl)
    exact hfollows.elim hc.1 hc.2.1
  simp only [signs, List.mem_cons, List.not_mem_nil, or_false] at h
  rcases h with rfl | rfl | rfl | rfl | rfl | rfl | rfl | rfl | rfl | rfl | rfl | rfl <;>
    simp_all [eq_comm]

namespace IsWord

theorem ne_nil {w : List Char} (h : IsWord w) : w ≠ [] := by
  rintro rfl
  exact h

theorem stays {w : List Char} (h : IsWord w) : ∀ c ∈ w, ¬(c = ' ' ∨ c = ')') := by
  obtain ⟨c, cs, rfl⟩ := List.exists_cons_of_ne_nil h.ne_nil
  intro d hd hstop
  rcases List.mem_cons.mp hd with rfl | hd
  · have hc := h.1
    rcases hstop with rfl | rfl <;> simp at hc
  · exact (h.2 d hd).1 (hstop.imp id .inl)

/-- A word that begins with `&` is not the mark of a label, whose text the braces follow. -/
theorem ne_label {w p r s : List Char} (h : IsWord w) (hp : Readable false p) (hr : Follows true r) :
    w ++ r ≠ '&' :: (p ++ '\x7b' :: s) := by
  obtain ⟨c, cs, rfl⟩ := List.exists_cons_of_ne_nil h.ne_nil
  obtain ⟨d, ds, rfl, hblank, hclose, -⟩ := hp.front
  intro heq
  have htail : cs ++ r = d :: (ds ++ '\x7b' :: s) := (List.cons.inj heq).2
  cases cs with
  | nil =>
      rw [List.nil_append] at htail
      exact (hr d (by simp [htail])).elim hblank hclose
  | cons e es =>
      obtain ⟨rfl, hrest⟩ := List.cons.inj htail
      obtain ⟨he, hes⟩ := List.forall_mem_cons.mp h.2
      cases hp with
      | word hp =>
          obtain ⟨-, rfl⟩ := stretch_unique (fun x hx => (hes x hx).1) (fun x hx => (hp.2 x hx).1)
            hr.stops (by simp [Stops]) hrest
          simpa using hr '\x7b' rfl
      | quoted text hmark => rcases hmark with rfl | rfl <;> simp at he
      | group _ => simp at he

theorem unique {listed : Bool} {w : List Char} (h : IsWord w) : Unique listed w := by
  intro q r s hq hr hs heq
  obtain ⟨c, cs, rfl⟩ := List.exists_cons_of_ne_nil h.ne_nil
  have hc := h.1
  simp only [List.mem_cons, List.not_mem_nil, or_false, not_or] at hc
  obtain ⟨-, hopen, -, hless, -, -, hdouble, hsingle⟩ := hc
  cases hq with
  | word hq =>
      obtain ⟨d, ds, rfl⟩ := List.exists_cons_of_ne_nil hq.ne_nil
      obtain ⟨rfl, htail⟩ := List.cons.inj heq
      obtain ⟨rfl, rfl⟩ := stretch_unique (fun x hx => (h.2 x hx).1) (fun x hx => (hq.2 x hx).1)
        hr.stops hs.stops htail
      exact ⟨rfl, rfl⟩
  | quoted text hmark =>
      obtain ⟨rfl, -⟩ := List.cons.inj heq
      exact absurd hmark (by simp [hdouble, hsingle])
  | group _ => exact absurd (List.cons.inj heq).1 hopen
  | sign hw => exact stretch_unique h.stays (stays_of_sign hw) hr hs heq
  | angles _ _ => exact absurd (List.cons.inj heq).1 hless
  | label hp => exact absurd heq (by simpa using h.ne_label hp hr)

end IsWord

theorem front_of_sign {w : String} (h : w ∈ signs) :
    ∃ c cs, w.toList = c :: cs ∧ c ∈ ['<', '>', '-', '='] := by
  simp only [signs, List.mem_cons, List.not_mem_nil, or_false] at h
  rcases h with rfl | rfl | rfl | rfl | rfl | rfl | rfl | rfl | rfl | rfl | rfl | rfl <;>
    exact ⟨_, _, rfl, by decide⟩

/-- A list between angle brackets begins with the first item. -/
theorem exists_angles_eq {ps : List (List Char)} (hne : ps ≠ []) (hps : ∀ p ∈ ps, Readable false p)
    (s : List Char) : ∃ c cs, '<' :: ([' '].intercalate ps ++ ['>']) ++ s = '<' :: c :: cs ∧
      c ≠ ' ' ∧ c ≠ ')' ∧ c ≠ '<' ∧ c ≠ '>' ∧ c ≠ '=' := by
  obtain ⟨p, ps, rfl⟩ := List.exists_cons_of_ne_nil hne
  obtain ⟨c, cs, rfl, hblank, hclose, hrest⟩ := (hps p List.mem_cons_self).front
  exact ⟨c, _, by rw [intercalate_cons]; rfl, hblank, hclose, hrest rfl⟩

theorem unique_sign {w : String} (h : w ∈ signs) : Unique true w.toList := by
  intro q r s hq hr hs heq
  obtain ⟨c, cs, hw, hc⟩ := front_of_sign h
  cases hq with
  | word hq => exact stretch_unique (stays_of_sign h) hq.stays hr hs heq
  | quoted text hmark =>
      rw [hw] at heq
      obtain ⟨rfl, -⟩ := List.cons.inj heq
      rcases hmark with rfl | rfl <;> simp at hc
  | group _ =>
      rw [hw] at heq
      obtain ⟨rfl, -⟩ := List.cons.inj heq
      simp at hc
  | sign hq => exact stretch_unique (stays_of_sign h) (stays_of_sign hq) hr hs heq
  | angles hne hps =>
      obtain ⟨d, ds, hangles, hd⟩ := exists_angles_eq hne hps s
      exact absurd (heq.trans hangles) (sign_ne_angles h hr hd)
  | label hp =>
      rw [hw] at heq
      obtain ⟨rfl, -⟩ := List.cons.inj heq
      simp at hc

theorem ne_close {listed : Bool} (c : Char) (cs : List Char) (h : Readable listed (c :: cs)) : c ≠ ')' := by
  obtain ⟨d, ds, heq, -, hclose, -⟩ := h.front
  rw [(List.cons.inj heq).1]
  exact hclose

theorem ne_greater (c : Char) (cs : List Char) (h : Readable false (c :: cs)) : c ≠ '>' := by
  obtain ⟨d, ds, heq, -, -, hangles⟩ := h.front
  rw [(List.cons.inj heq).1]
  exact (hangles rfl).2.1

theorem quote_ne {mark : Char} (hmark : mark = '"' ∨ mark = '\'') :
    mark ≠ '(' ∧ mark ≠ '<' ∧ mark ≠ '&' := by
  rcases hmark with rfl | rfl <;> decide

theorem unique_quoted {listed : Bool} {mark : Char} (text : List Char) (hmark : mark = '"' ∨ mark = '\'') :
    Unique listed (Text.quoted mark text) := by
  have hp : Readable listed (Text.quoted mark text) := .quoted text hmark
  intro q r s hq hr hs heq
  cases hq with
  | word hq => exact (hq.unique _ s r hp hs hr heq.symm).imp Eq.symm Eq.symm
  | sign hq => exact (unique_sign hq _ s r hp hs hr heq.symm).imp Eq.symm Eq.symm
  | quoted text' hmark' =>
      obtain ⟨rfl, rfl, rfl⟩ := Text.quoted_unique hmark heq
      exact ⟨rfl, rfl⟩
  | group _ => exact absurd (List.cons.inj heq).1 (quote_ne hmark).1
  | angles _ _ => exact absurd (List.cons.inj heq).1 (quote_ne hmark).2.1
  | label _ => exact absurd (List.cons.inj heq).1 (quote_ne hmark).2.2

section Compounds

variable {listed : Bool} {p : List Char} {ps : List (List Char)}

theorem unique_group (hps : ∀ p ∈ ps, Readable true p ∧ Unique true p) :
    Unique listed ('(' :: ([' '].intercalate ps ++ [')'])) := by
  have hp : Readable listed ('(' :: ([' '].intercalate ps ++ [')'])) := .group fun p hp => (hps p hp).1
  intro q r s hq hr hs heq
  cases hq with
  | word hq => exact (hq.unique _ s r hp hs hr heq.symm).imp Eq.symm Eq.symm
  | sign hq => exact (unique_sign hq _ s r hp hs hr heq.symm).imp Eq.symm Eq.symm
  | quoted text hmark => exact absurd (List.cons.inj heq).1.symm (quote_ne hmark).1
  | group hqs =>
      simp only [List.cons_append, List.append_assoc, List.nil_append, List.cons.injEq, true_and] at heq
      obtain ⟨rfl, rfl⟩ := intercalate_unique (by decide) (fun _ => by simp [Follows]) ne_close hps hqs heq
      exact ⟨rfl, rfl⟩
  | angles _ _ => cases (List.cons.inj heq).1
  | label _ => cases (List.cons.inj heq).1

theorem unique_angles (hne : ps ≠ []) (hps : ∀ p ∈ ps, Readable false p ∧ Unique false p) :
    Unique true ('<' :: ([' '].intercalate ps ++ ['>'])) := by
  have hp : Readable true ('<' :: ([' '].intercalate ps ++ ['>'])) := .angles hne fun p hp => (hps p hp).1
  intro q r s hq hr hs heq
  cases hq with
  | word hq => exact (hq.unique _ s r hp hs hr heq.symm).imp Eq.symm Eq.symm
  | sign hq => exact (unique_sign hq _ s r hp hs hr heq.symm).imp Eq.symm Eq.symm
  | quoted text hmark => exact absurd (List.cons.inj heq).1.symm (quote_ne hmark).2.1
  | group _ => cases (List.cons.inj heq).1
  | angles _ hqs =>
      simp only [List.cons_append, List.append_assoc, List.nil_append, List.cons.injEq, true_and] at heq
      obtain ⟨rfl, rfl⟩ := intercalate_unique (by decide) (fun _ => by simp [Follows, Stops]) ne_greater hps hqs heq
      exact ⟨rfl, rfl⟩
  | label _ => cases (List.cons.inj heq).1

theorem unique_label (hreadable : Readable false p) (hunique : Unique false p) :
    Unique true ('&' :: (p ++ ['\x7b', ',', '\x7d'])) := by
  have hp : Readable true ('&' :: (p ++ ['\x7b', ',', '\x7d'])) := .label hreadable
  have hbraces (r : List Char) : Follows false (['\x7b', ',', '\x7d'] ++ r) := by simp [Follows, Stops]
  intro q r s hq hr hs heq
  cases hq with
  | word hq => exact (hq.unique _ s r hp hs hr heq.symm).imp Eq.symm Eq.symm
  | sign hq => exact (unique_sign hq _ s r hp hs hr heq.symm).imp Eq.symm Eq.symm
  | quoted text hmark => exact absurd (List.cons.inj heq).1.symm (quote_ne hmark).2.2
  | group _ => cases (List.cons.inj heq).1
  | angles _ _ => cases (List.cons.inj heq).1
  | label hq =>
      simp only [List.cons_append, List.append_assoc, List.cons.injEq, true_and] at heq
      obtain ⟨rfl, hrest⟩ := hunique _ _ _ hq (hbraces r) (hbraces s) heq
      exact ⟨rfl, by simpa using hrest⟩

end Compounds

/-- A readable text ends where it does, whatever follows. -/
theorem Readable.unique {listed : Bool} {p : List Char} (h : Readable listed p) : Unique listed p := by
  induction h with
  | word h => exact h.unique
  | quoted text hmark => exact unique_quoted text hmark
  | group hps ih => exact unique_group fun p hp => ⟨hps p hp, ih p hp⟩
  | sign h => exact unique_sign h
  | angles hne hps ih => exact unique_angles hne fun p hp => ⟨hps p hp, ih p hp⟩
  | label hp ih => exact unique_label hp ih

/-! ## Lists -/

/-- A text that stands in a list, and one that stands anywhere. -/
def Listed (s : String) : Prop := Readable true s.toList

def Stands (s : String) : Prop := Readable false s.toList

theorem Readable.listed {listed : Bool} {p : List Char} (h : Readable false p) : Readable listed p := by
  cases h with
  | word h => exact .word h
  | quoted text hmark => exact .quoted text hmark
  | group hps => exact .group hps

theorem stands_of_ordinary {s : String} (h : s.toList ≠ [] ∧ ∀ c ∈ s.toList, Ordinary c) : Stands s :=
  .word (isWord_of_ordinary h.1 h.2)

/-- Texts that are not empty and have ordinary characters only. -/
def isPlain (s : String) : Bool := !s.toList.isEmpty && s.toList.all (decide <| Ordinary ·)

theorem stands_of_isPlain {s : String} (h : isPlain s = true) : Stands s := by
  simp only [isPlain, Bool.and_eq_true, Bool.not_eq_true', List.isEmpty_eq_false_iff, List.all_eq_true,
    decide_eq_true_eq] at h
  exact stands_of_ordinary h

theorem Stands.listed {s : String} (h : Stands s) : Listed s := Readable.listed h

@[simp] theorem toList_group (parts : List String) :
    (group parts).toList = '(' :: ([' '].intercalate (parts.map String.toList) ++ [')']) := by
  simp [group, spaced, String.toList_intercalate]

theorem stands_group {parts : List String} (h : ∀ p ∈ parts, Listed p) : Stands (group parts) := by
  rw [Stands, toList_group]
  exact .group (List.forall_mem_map.mpr h)

/-- The text of a list tells its parts. -/
theorem group_injective {parts parts' : List String} (h : ∀ p ∈ parts, Listed p) (h' : ∀ p ∈ parts', Listed p)
    (heq : group parts = group parts') : parts = parts' := by
  have htext := congrArg String.toList heq
  have hparts : ∀ p ∈ parts.map String.toList, Readable true p ∧ Unique true p :=
    List.forall_mem_map.mpr fun p hp => ⟨h p hp, (h p hp).unique⟩
  rw [toList_group, toList_group] at htext
  obtain ⟨hsame, -⟩ := intercalate_unique (by decide) (fun _ => by simp [Follows]) ne_close hparts
    (List.forall_mem_map.mpr h') (List.cons.inj htext).2
  exact (List.map_injective_iff.mpr fun _ _ => String.toList_inj.mp) hsame

end Dump

end BendSyntax
