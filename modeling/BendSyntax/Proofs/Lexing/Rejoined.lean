import BendSyntax.Proofs.Lexing.Spaced
import BendSyntax.Proofs.Lexing.Tiling

/-! A text without flaws can be put together again from its lexemes: with single blanks between
them it has the same tokens. Each token is scanned again as it stands, because nothing in it
depends on what used to touch it, and the sign of a number depends on the kind of the token in
front only. -/

namespace BendSyntax

namespace Scanned

variable {kind : TokenKind} {text rest : List Char}

/-- A token of a scan behind `front`. If nothing is wrong with it, the scan finds it again in front
of everything that ends a word. -/
def Restored (front : List Char) (scan : List Char → Scanned) (s : Scanned) : Prop :=
  s.flaws = [] → ∃ body, s.text = front ++ body ∧
    ∀ rest, Ends rest → scan (body ++ rest) = valid s.kind s.text rest

/-- A token that is found again in front of any text. -/
def Repeated (front : List Char) (scan : List Char → Scanned) (s : Scanned) : Prop :=
  s.flaws = [] → ∃ body, s.text = front ++ body ∧
    ∀ rest, scan (body ++ rest) = valid s.kind s.text rest

theorem Repeated.restored {front : List Char} {scan : List Char → Scanned} {s : Scanned}
    (h : Repeated front scan s) : Restored front scan s := fun hflaws => by
  obtain ⟨body, htext, hscan⟩ := h hflaws
  exact ⟨body, htext, fun rest _ => hscan rest⟩

theorem checked_of_flawless (h : (checked kind text rest).flaws = []) (rest' : List Char) :
    checked kind text rest' =
      valid (checked kind text rest).kind (checked kind text rest).text rest' := by
  unfold checked at *
  split_ifs at * with hvalue
  · rfl
  · cases h

/-- A scan that comes to a numeral whose value is in range is a scan for this numeral. -/
theorem Restored.checked {front body : List Char} {scan : List Char → Scanned}
    (hscan : ∀ rest, Ends rest → scan (body ++ rest) = Scanned.checked kind (front ++ body) rest) :
    Restored front scan (Scanned.checked kind (front ++ body) rest) := by
  intro hflaws
  refine ⟨body, ?_, fun rest' hrest => ?_⟩
  · unfold Scanned.checked at *
    split_ifs <;> rfl
  · rw [hscan rest' hrest, checked_of_flawless hflaws]

/-- What is taken off the front of a text is taken off again in front of another one. -/
theorem takeWhile_append {p : Char → Bool} {ds : List Char} (hds : ∀ c ∈ ds, p c = true)
    (rest : List Char) (hrest : rest.head?.any p = false) :
    (ds ++ rest).takeWhile p = ds ∧ (ds ++ rest).dropWhile p = rest := by
  rw [List.takeWhile_append_of_pos hds, List.dropWhile_append_of_pos hds]
  cases rest with
  | nil => simp
  | cons c rest =>
      have hc : p c = false := by simpa using hrest
      simp [hc]

/-! ## Numbers -/

theorem not_isDigit_of_endsWord (radix : Nat) {c : Char} (h : endsWord c = true) :
    Numeral.isDigit radix c = false := by
  simp only [endsWord, List.mem_cons, List.not_mem_nil, or_false, decide_eq_true_eq] at h
  rcases h with rfl | rfl | rfl | rfl | rfl <;> simp [Numeral.isDigit, Numeral.digit?]

theorem restored_based (radix : Nat) (mark : String) (sign cs : List Char) :
    Restored (sign ++ mark.toList) (based radix mark sign) (based radix mark sign cs) := by
  unfold based
  dsimp only
  split_ifs with hempty
  · nofun
  · refine .checked fun rest hrest => ?_
    obtain ⟨htake, hdrop⟩ := takeWhile_append (fun _ hc => List.mem_takeWhile_imp hc) rest
      (hrest.any_head? fun _ hc => not_isDigit_of_endsWord radix hc)
    rw [htake, hdrop, if_neg hempty]

theorem decimal_of_ends {ds : List Char} (sign : List Char) (hds : ∀ c ∈ ds, c.isDigit = true)
    (hrest : Ends rest) : decimal sign (ds ++ rest) = checked .int (sign ++ ds) rest := by
  obtain ⟨htake, hdrop⟩ := takeWhile_append hds rest
    (hrest.any_head? fun _ hc => (not_part_of_endsWord hc).2.2.1)
  unfold decimal
  rw [htake, hdrop]
  split
  · exact absurd rfl (not_part_of_endsWord (hrest 'n' rfl)).2.2.2.1
  · cases hrest '.' rfl
  · rfl

theorem restored_decimal {sign cs : List Char} {s : Scanned} (h : decimal sign cs = s) :
    Restored sign (decimal sign) s := by
  have hdigits : ∀ c ∈ cs.takeWhile Char.isDigit, c.isDigit = true :=
    fun _ hc => List.mem_takeWhile_imp hc
  unfold decimal at h
  dsimp only at h
  split at h
  · split_ifs at h with hpart hsign <;> subst h
    · exact .checked fun rest hrest => decimal_of_ends sign hdigits hrest
    · obtain rfl : sign = [] := List.isEmpty_iff.mp hsign
      rw [List.append_assoc]
      refine .checked fun rest hrest => ?_
      obtain ⟨htake, hdrop⟩ := takeWhile_append hdigits ('n' :: rest) rfl
      have hrest : rest.head?.any isWordPart = false :=
        hrest.any_head? fun _ hc => (not_part_of_endsWord hc).1
      simp [decimal, htake, hdrop, hrest]
    · exact fun hflaws => absurd hflaws (List.cons_ne_nil _ _)
  · rename_i more hmore
    split_ifs at h with hfraction <;> subst h
    · rw [List.append_assoc]
      refine .checked fun rest hrest => ?_
      have hmore : ∀ c ∈ more.takeWhile Char.isDigit, c.isDigit = true :=
        fun _ hc => List.mem_takeWhile_imp hc
      obtain ⟨htake, hdrop⟩ := takeWhile_append hdigits
        ('.' :: (more.takeWhile Char.isDigit ++ rest)) rfl
      obtain ⟨htake', hdrop'⟩ := takeWhile_append hmore rest
        (hrest.any_head? fun _ hc => (not_part_of_endsWord hc).2.2.1)
      have hhead : (more.takeWhile Char.isDigit ++ rest).head?.any Char.isDigit = true := by
        cases more with
        | nil => cases hfraction
        | cons c more =>
            have hc : c.isDigit = true := by simpa using hfraction
            simp [hc]
      simp only [decimal, List.append_assoc, List.cons_append, htake, hdrop, hhead, if_true, htake',
        hdrop']
    · exact .checked fun rest hrest => decimal_of_ends sign hdigits hrest
  · subst h
    exact .checked fun rest hrest => decimal_of_ends sign hdigits hrest

/-- What is taken off the front of a text has the mark of a radix only if the text has one. -/
theorem number_eq_decimal_of_ends {ds more rest : List Char} (sign : List Char)
    (hx : ∀ r, ds ++ more ≠ '0' :: 'x' :: r) (hb : ∀ r, ds ++ more ≠ '0' :: 'b' :: r)
    (hrest : Ends rest) : number sign (ds ++ rest) = decimal sign (ds ++ rest) := by
  have hmark {c : Char} (hc : endsWord c = false) (h : ∀ r, ds ++ more ≠ '0' :: c :: r) (r : List Char) :
      ds ++ rest ≠ '0' :: c :: r := by
    intro heq
    match ds with
    | [] =>
        rw [List.nil_append] at heq
        subst heq
        cases hrest '0' rfl
    | [_] =>
        obtain ⟨-, rfl⟩ := List.cons.inj heq
        exact Bool.false_ne_true (hc.symm.trans (hrest c rfl))
    | _ :: _ :: ds =>
        cases heq
        exact h _ rfl
  exact number_eq_decimal (hmark rfl hx) (hmark rfl hb)

theorem restored_number (sign cs : List Char) :
    Restored sign (number sign) (number sign cs) := by
  by_cases hx : ∃ r, cs = '0' :: 'x' :: r
  · obtain ⟨r, rfl⟩ := hx
    intro hflaws
    obtain ⟨body, htext, hscan⟩ := restored_based 16 "0x" sign r hflaws
    exact ⟨'0' :: 'x' :: body, htext.trans (List.append_assoc sign _ body), hscan⟩
  · by_cases hb : ∃ r, cs = '0' :: 'b' :: r
    · obtain ⟨r, rfl⟩ := hb
      intro hflaws
      obtain ⟨body, htext, hscan⟩ := restored_based 2 "0b" sign r hflaws
      exact ⟨'0' :: 'b' :: body, htext.trans (List.append_assoc sign _ body), hscan⟩
    · simp only [not_exists] at hx hb
      rw [number_eq_decimal hx hb]
      intro hflaws
      obtain ⟨body, htext, hscan⟩ := restored_decimal (rfl : decimal sign cs = _) hflaws
      have hcuts : body ++ (decimal sign cs).rest = cs := by
        have hcuts := Cuts.decimal sign cs
        rw [Cuts, htext, List.append_assoc] at hcuts
        exact List.append_cancel_left hcuts
      refine ⟨body, htext, fun rest hrest => ?_⟩
      rw [← hcuts] at hx hb
      rw [number_eq_decimal_of_ends sign hx hb hrest]
      exact hscan rest hrest

/-! ## Words -/

theorem wordLength_take (cs : List Char) : wordLength (cs.take (wordLength cs)) = wordLength cs := by
  fun_induction wordLength cs with
  | case1 c cs h ih => simp [wordLength, h, ih]
  | case2 c cs h => rfl
  | case3 c cs hslash h ih =>
      have hc : c ≠ '/' := by
        rintro rfl
        exact absurd h (by decide)
      simp [wordLength, hc, h, ih]
  | case4 => rfl
  | case5 => rfl

theorem restored_word {c : Char} {cs : List Char} (hstart : isWordStart c = true) (signed : Bool) :
    Restored [] (next signed) (word (c :: cs)) := by
  refine fun _ => ⟨_, rfl, fun rest hrest => ?_⟩
  have hpos := wordLength_pos cs hstart
  have hle := wordLength_le (c :: cs)
  have hsolid := @Word.solid_word (String.ofList ((c :: cs).take (wordLength (c :: cs)))) ?_ ?_
  · have hnext := hsolid.whole rest hrest signed
    rw [String.toList_ofList] at hnext
    exact hnext
  · obtain ⟨n, hn⟩ := Nat.exists_eq_add_of_lt hpos
    simp [hn, hstart]
  · rw [String.toList_ofList, wordLength_take, String.length_ofList, List.length_take]
    exact (Nat.min_eq_left hle).symm

theorem repeated_letter (c : Char) (cs : List Char) :
    Repeated [c] (letter c) (letter c cs) := by
  intro hflaws
  refine ⟨[], ?_, fun rest => ?_⟩ <;> unfold letter at * <;> split <;> simp_all [valid, bad]

/-! ## Strings and characters -/

theorem stringLength?_take {cs : List Char} {n : Nat} (h : stringLength? cs = some n) :
    stringLength? (cs.take (n + 1)) = some n := by
  fun_induction stringLength? cs generalizing n with
  | case1 c cs ih =>
      obtain ⟨m, hm, rfl⟩ := Option.map_eq_some_iff.mp h
      simp [stringLength?, ih hm]
  | case2 cs hescape =>
      cases h
      simp [stringLength?]
  | case3 c cs hescape hc ih =>
      obtain ⟨m, hm, rfl⟩ := Option.map_eq_some_iff.mp h
      have hback : c ≠ '\\' := by
        rintro rfl
        cases cs with
        | nil => cases hm
        | cons d cs => exact hescape d cs rfl rfl
      simp [stringLength?, hback, hc, ih hm]
  | case4 => cases h

theorem repeated_string (cs : List Char) : Repeated ['"'] string (string cs) := by
  intro hflaws
  unfold string at hflaws ⊢
  cases hn : stringLength? cs with
  | none => simp [hn] at hflaws
  | some n =>
      have hle := (stringLength?_append hn []).2
      rw [hn] at hflaws
      refine ⟨cs.take (n + 1), rfl, fun rest => ?_⟩
      have hlength := (stringLength?_append (stringLength?_take hn) rest).1
      have htake : (cs.take (n + 1) ++ rest).take n = cs.take n := by
        rw [List.take_append_of_le_length (by simp; omega), List.take_take]
        simp
      have htake' : (cs.take (n + 1) ++ rest).take (n + 1) = cs.take (n + 1) := by
        rw [List.take_append_of_le_length (by simp; omega), List.take_take]
        simp
      have hdrop : (cs.take (n + 1) ++ rest).drop (n + 1) = rest :=
        List.drop_left' (by simp; omega)
      dsimp only at hflaws
      simp [hlength, htake, htake', hdrop, hflaws, valid]

/-- What an escape without a flaw begins with: a letter, or `u` and four digits. -/
theorem escape_cases {cs : List Char} (hcs : cs ≠ []) (h : (escape cs).2 = none) :
    (∃ l c, cs.take (escape cs).1 = [l] ∧ (escape cs).1 = 1 ∧ Escape.letter? l = some c ∧ l ≠ 'u') ∨
      ∃ digits c, cs.take (escape cs).1 = 'u' :: digits ∧ digits.length = 4 ∧
        (escape cs).1 = 5 ∧ (∀ d ∈ digits, Numeral.isDigit 16 d = true) ∧
        Numeral.value? 16 digits >>= Escape.scalar? = some c := by
  obtain ⟨c, cs, rfl⟩ := List.exists_cons_of_ne_nil hcs
  by_cases hc : c = 'u'
  · subst hc
    simp only [escape] at h ⊢
    split_ifs at h with hdigits
    obtain ⟨hlength, hnamed⟩ := hdigits
    obtain ⟨x, hx⟩ := Option.isSome_iff_exists.mp hnamed
    have hprefix := List.takeWhile_prefix (p := Numeral.isDigit 16) (l := cs.take 4)
    have hfour : (cs.take 4).takeWhile (Numeral.isDigit 16) = cs.take 4 :=
      hprefix.eq_of_length_le (by rw [hlength]; exact List.length_take_le 4 cs)
    have hdigits : ∀ d ∈ cs.take 4, Numeral.isDigit 16 d = true := fun d hd =>
      List.mem_takeWhile_imp (hfour.symm ▸ hd)
    rw [hfour] at hlength hx ⊢
    exact .inr ⟨cs.take 4, x, by rw [hlength]; rfl, hlength, by rw [hlength], hdigits, hx⟩
  · have hletter : (Escape.letter? c).isSome = true := by
      by_contra hletter
      simp [escape, hletter] at h
    obtain ⟨x, hx⟩ := Option.isSome_iff_exists.mp hletter
    exact .inl ⟨c, x, by simp [escape, hletter], by simp [escape, hletter], hx, hc⟩

/-- An escape without flaws is the same escape in front of anything. -/
theorem escape_take {cs : List Char} (hcs : cs ≠ []) (h : (escape cs).2 = none) (more : List Char) :
    escape (cs.take (escape cs).1 ++ more) = ((escape cs).1, none) := by
  obtain ⟨l, c, htake, hwidth, hletter, hl⟩ | ⟨digits, c, htake, hlength, hwidth, hdigits, hvalue⟩ :=
    escape_cases hcs h
  · rw [htake, hwidth]
    simp [escape, hletter]
  · have hfour : (digits ++ more).take 4 = digits := List.take_left' hlength
    have hall : digits.takeWhile (Numeral.isDigit 16) = digits :=
      List.takeWhile_eq_self_iff.mpr hdigits
    rw [htake, hwidth]
    simp [escape, hfour, hall, hlength, hvalue]

theorem closeChar_of_closed {body : List Char} {n : Nat} (hn : body.length = n) (rest : List Char) :
    closeChar (body ++ '\'' :: rest) n [] = valid .char ('\'' :: (body ++ ['\''])) rest := by
  simp [closeChar, List.drop_left' hn, List.take_left' hn, valid]

/-- A character literal without flaws is closed. -/
theorem closed_of_flawless {cs : List Char} {n : Nat} {flaws : List Flaw}
    (h : (closeChar cs n flaws).flaws = []) :
    flaws = [] ∧ ∃ rest, cs = cs.take n ++ '\'' :: rest ∧ (cs.take n).length = n := by
  unfold closeChar at h
  split at h
  · rename_i rest hrest
    refine ⟨h, rest, ?_, ?_⟩
    · rw [← hrest, List.take_append_drop]
    · have hlength := congrArg List.length hrest
      simp only [List.length_drop, List.length_cons] at hlength
      rw [List.length_take]
      omega
  · simp at h

theorem repeated_char (cs : List Char) : Repeated ['\''] char (char cs) := by
  intro hflaws
  have hclosed {n : Nat} {flaws : List Flaw} (hchar : char cs = closeChar cs n flaws)
      (hscan : flaws = [] → ∀ rest, char (cs.take n ++ '\'' :: rest) =
        closeChar (cs.take n ++ '\'' :: rest) n []) :
      ∃ body, (char cs).text = ['\''] ++ body ∧
        ∀ rest, char (body ++ rest) = valid (char cs).kind (char cs).text rest := by
    rw [hchar] at hflaws ⊢
    obtain ⟨rfl, rest, hcs, hn⟩ := closed_of_flawless hflaws
    have hvalid := closeChar_of_closed hn rest
    rw [← hcs] at hvalid
    refine ⟨cs.take n ++ ['\''], by rw [hvalid]; rfl, fun rest' => ?_⟩
    rw [hvalid, List.append_assoc]
    exact (hscan rfl rest').trans (closeChar_of_closed hn rest')
  match cs with
  | [] => cases hflaws
  | c :: cs =>
      by_cases hbreak : c = '\n'
      · subst hbreak
        cases hflaws
      by_cases hquote : c = '\''
      · subst hquote
        cases hflaws
      by_cases hback : c = '\\'
      · subst hback
        have hchar : char ('\\' :: cs) =
            closeChar ('\\' :: cs) ((escape cs).1 + 1) (escapeFlaw 1 cs) := rfl
        cases cs with
        | nil => cases hflaws
        | cons c cs =>
            refine hclosed hchar fun hnone rest => ?_
            have hescape : (escape (c :: cs)).2 = none := by
              unfold escapeFlaw at hnone
              split at hnone
              · cases hnone
              · rename_i heq
                rw [heq]
            have hagain := escape_take (List.cons_ne_nil c cs) hescape ('\'' :: rest)
            rw [List.take_succ_cons, List.cons_append]
            simp only [char, escapeFlaw, hagain]
      · exact hclosed (char_cons hbreak hquote hback) fun _ _ => char_cons hbreak hquote hback

/-! ## Tokens -/

theorem restored_symbol (signed : Bool) (c : Char) (cs : List Char) :
    Restored [] (next signed) (symbol c cs) := by
  intro hflaws
  have hspelled := Spelled.symbol c cs
  cases hfront : Symbol.atFront? (c :: cs) with
  | none =>
      unfold symbol at hflaws
      rw [hfront] at hflaws
      cases hflaws
  | some s =>
      have hkind : (symbol c cs).kind = .mark s := by
        unfold symbol
        rw [hfront]
        rfl
      refine ⟨s.spelling.toList, hspelled.mark s hkind, fun rest hrest => ?_⟩
      rw [hkind, hspelled.mark s hkind]
      exact Word.symbol_whole s hrest signed

theorem Restored.behind {c : Char} {s : Scanned} {scan : List Char → Scanned} {signed : Bool}
    (h : Restored [c] scan s)
    (hnext : ∀ body, s.text = c :: body →
      (∀ rest, Ends rest → scan (body ++ rest) = valid s.kind s.text rest) →
      ∀ rest, next signed (c :: (body ++ rest)) = scan (body ++ rest)) :
    Restored [] (next signed) s := by
  intro hflaws
  obtain ⟨body, htext, hscan⟩ := h hflaws
  refine ⟨c :: body, htext, fun rest hrest => ?_⟩
  exact (hnext body htext hscan rest).trans (hscan rest hrest)

/-- A flawless token is scanned again in front of everything that ends a word. -/
theorem restored_next (signed : Bool) (c : Char) (cs : List Char) :
    Restored [] (next signed) (next signed (c :: cs)) := by
  have hcuts := Cuts.next signed (c :: cs)
  have hspelled := (Spelled.next signed c cs).text
  simp only [next] at hcuts hspelled ⊢
  split_ifs at hcuts hspelled ⊢ with hdigit hsigns hstart hquote hmark hascii
  · intro hflaws
    obtain ⟨body, htext, hscan⟩ := restored_number [] (c :: cs) hflaws
    refine ⟨body, htext, fun rest hrest => ?_⟩
    rw [← hscan rest hrest]
    rw [Cuts, htext] at hcuts
    rw [htext] at hspelled
    obtain ⟨d, body, rfl⟩ := List.exists_cons_of_ne_nil hspelled
    obtain ⟨rfl, -⟩ := List.cons.inj hcuts
    simp [next, hdigit]
  · refine (restored_number [c] cs).behind fun body htext hscan rest => ?_
    simp only [signs, Bool.and_eq_true, Bool.or_eq_true, beq_iff_eq] at hsigns
    rw [Cuts, htext] at hcuts
    obtain ⟨-, hcuts⟩ := List.cons.inj hcuts
    cases body with
    | nil =>
        -- A sign alone is no number.
        have hflaws := congrArg flaws (hscan [] ends_nil)
        rcases hsigns.1.2 with rfl | rfl <;> cases hflaws
    | cons d body =>
        rw [← hcuts] at hsigns
        have hd : d.isDigit = true := by simpa using hsigns.2
        rcases hsigns with ⟨⟨rfl, rfl | rfl⟩, -⟩ <;> simp [next, signs, hd]
  · exact restored_word hstart signed
  · subst hquote
    exact (repeated_string cs).restored.behind fun _ _ _ _ => by simp [next, signs, isWordStart]
  · subst hmark
    exact (repeated_char cs).restored.behind fun _ _ _ _ => by simp [next, signs, isWordStart]
  · exact restored_symbol signed c cs
  · refine (repeated_letter c cs).restored.behind fun _ _ _ _ => ?_
    have hsigns (ds : List Char) : signs signed c ds = false := by
      have hplus : (c == '+') = false := beq_eq_false_iff_ne.mpr fun h => hascii (h ▸ rfl)
      have hminus : (c == '-') = false := beq_eq_false_iff_ne.mpr fun h => hascii (h ▸ rfl)
      simp [signs, hplus, hminus]
    simp [next, hdigit, hsigns, hstart, hquote, hmark, hascii]

/-- The text of a token goes on from the character that it begins with. -/
theorem text_next (signed : Bool) (c : Char) (cs : List Char) :
    ∃ body, (next signed (c :: cs)).text = c :: body := by
  have hcuts := Cuts.next signed (c :: cs)
  obtain ⟨d, body, htext⟩ := List.exists_cons_of_ne_nil (Spelled.next signed c cs).text
  rw [Cuts, htext] at hcuts
  obtain ⟨rfl, -⟩ := List.cons.inj hcuts
  exact ⟨body, htext⟩

/-- A flawless token does not begin a gap, not even if it is a brace. -/
theorem apart_of_flawless {signed : Bool} {c : Char} {cs rest : List Char}
    (hflaws : (next signed (c :: cs)).flaws = []) (hrest : Ends rest) (n : Nat) :
    Gap.scan .blanks n ((next signed (c :: cs)).text ++ rest) =
      ⟨n, (next signed (c :: cs)).text ++ rest, none⟩ := by
  have hblank : Gap.isBlank c = false := by
    by_contra h
    simp only [Gap.isBlank, Bool.not_eq_false, Bool.or_eq_true, beq_iff_eq] at h
    rcases h with ((rfl | rfl) | rfl) | rfl <;> simp [next, signs] at hflaws <;> cases hflaws
  have hline : c ≠ '#' := by
    rintro rfl
    simp [next, signs] at hflaws
    cases hflaws
  by_cases hbrace : c = '\x7b'
  · subst hbrace
    have hnext : next signed ('\x7b' :: cs) = symbol '\x7b' cs := by
      simp [next, signs, isWordStart, isAscii]
    have htext : (symbol '\x7b' cs).text = ['\x7b'] := rfl
    rw [hnext, htext]
    cases rest with
    | nil => rfl
    | cons d rest =>
        have hd : d ≠ '-' := by
          rintro rfl
          cases hrest '-' rfl
        simp [Gap.scan, hd, Gap.isBlank]
  · obtain ⟨body, htext⟩ := text_next signed c cs
    rw [htext]
    exact Gap.scan_of_not_blank hblank hline hbrace n _

end Scanned

/-! ## Texts -/

/-- What a token says, wherever it stands. -/
def Token.word (t : Token) : Word := ⟨t.kind, t.lexeme⟩

theorem Scanned.stands_of_flawless {previous : Option TokenKind} {c : Char} {cs : List Char}
    (h : (next (!previous.any TokenKind.endsOperand) (c :: cs)).flaws = []) (p : Position)
    (spaced : Bool) :
    ((next (!previous.any TokenKind.endsOperand) (c :: cs)).toToken p spaced).word.Stands
      previous where
  text := by
    obtain ⟨body, htext⟩ := text_next (!previous.any TokenKind.endsOperand) c cs
    simp [Token.word, toToken, htext]
  apart n rest hrest := by
    simp only [Token.word, toToken, String.toList_ofList]
    exact apart_of_flawless h hrest n
  whole rest hrest := by
    obtain ⟨body, htext, hscan⟩ := restored_next _ c cs h
    rw [List.nil_append] at htext
    simp only [Token.word, toToken, String.toList_ofList]
    rw [htext, hscan rest hrest, htext]

namespace Lexing

/-- The tokens of a text without flaws are scanned as wholes behind each other. -/
theorem line_onward {previous : Option TokenKind} {p : Position} {cs : List Char}
    (h : (onward previous p cs).diagnostics = []) :
    Word.Line previous ((onward previous p cs).tokens.body.map Token.word) := by
  induction hn : cs.length using Nat.strongRecOn generalizing previous p cs with
  | _ n ih =>
      cases hrest : (Gap.atFront cs).rest with
      | nil =>
          rw [(onward_of_nil hrest).1]
          exact .nil
      | cons c rest =>
          rw [(onward_of_cons hrest).2] at h
          obtain ⟨hfront, hafter⟩ := List.append_eq_nil_iff.mp h
          have hflaws := List.map_eq_nil_iff.mp (List.append_eq_nil_iff.mp hfront).2
          rw [(onward_of_cons hrest).1]
          refine .cons ?_ (ih _ (hn ▸ first_rest_length hrest) hafter rfl)
          unfold first at hflaws ⊢
          rw [hrest] at hflaws ⊢
          exact Scanned.stands_of_flawless hflaws _ _

theorem word_eof (previous : Option TokenKind) (p : Position) (cs : List Char) :
    (onward previous p cs).tokens.eof.word = ⟨.eof, ""⟩ := by
  fun_induction onward with
  | case1 previous p cs gap reports p' h => rfl
  | case2 previous p cs gap reports p' c rest h scanned token reports' after ih => exact ih

theorem words_of_becomes {words : List Word} {ts : List Token}
    (h : List.Forall₂ Word.Becomes words ts) : ts.map Token.word = words := by
  induction h with
  | nil => rfl
  | @cons w t words ts hw _ ih =>
      rw [List.map_cons, ih, Token.word, hw.kind, hw.lexeme]

/-- A text about which nothing is reported has the same tokens when its lexemes are joined by
single blanks, and again nothing is reported. -/
theorem ofText_rejoined {source : String} (h : (ofText source).diagnostics = []) :
    let rejoined := ofText (" ".intercalate ((ofText source).tokens.body.map (·.lexeme)))
    rejoined.diagnostics = [] ∧
      rejoined.tokens.toList.map Token.word = (ofText source).tokens.toList.map Token.word := by
  have hline : Word.Line none ((ofText source).tokens.body.map Token.word) := line_onward h
  have htexts : (ofText source).tokens.body.map (·.lexeme) =
      ((ofText source).tokens.body.map Token.word).map (·.text) := by
    rw [List.map_map]
    rfl
  have heof (text : String) : (ofText text).tokens.eof.word = ⟨.eof, ""⟩ := word_eof _ _ _
  rw [htexts]
  simp only [Tokens.toList, List.map_append, List.map_cons, List.map_nil, heof]
  cases hwords : (ofText source).tokens.body.map Token.word with
  | nil => exact ⟨(onward_nil _ _).2, congrArg (·.map Token.word ++ _) (onward_nil _ _).1⟩
  | cons w words =>
      rw [hwords] at hline
      obtain ⟨hbody, hclean⟩ := ofText_line hline
      exact ⟨hclean, by rw [words_of_becomes hbody]⟩

set_option maxRecDepth 100000 in
/-- Signs, comment marks in literals, braces, and marks that touch. -/
theorem ofText_rejoined_signs :
    let source := "f(-1)-2 ===\"#\"<>\x7b -3,x\x7d- '\x7b'"
    (ofText source).diagnostics = [] ∧
      (ofText "f ( -1 ) - 2 === \"#\" <> \x7b -3 , x \x7d - '\x7b'").tokens.toList.map Token.word =
        (ofText source).tokens.toList.map Token.word := by
  intro source
  have hclean : (ofText source).diagnostics = [] := by decide +kernel
  have htext : " ".intercalate ((ofText source).tokens.body.map (·.lexeme)) =
      "f ( -1 ) - 2 === \"#\" <> \x7b -3 , x \x7d - '\x7b'" := by decide +kernel
  exact ⟨hclean, htext ▸ (ofText_rejoined hclean).2⟩

end Lexing

end BendSyntax
