import BendSyntax.Proofs.Lexing.Enclosed
import BendSyntax.Proofs.Lexing.Severed
import BendSyntax.Proofs.Lexing.Tiling

/-! A part of a text, from one token to the end of another, has the tokens that it has in the text.
What stands behind the part does not matter to the last of them; what stands in front of it could
matter only to a sign, and to whether the first one counts as spaced. -/

namespace BendSyntax

namespace Gap

variable {i : Inside} {n m : Nat} {cs us more : List Char} {unclosed : Option Nat}

/-- What a gap stands in front of has no gap in front of it. -/
theorem scan_of_scan (hus : us ≠ []) (h : scan i n cs = ⟨m, us, unclosed⟩) (k : Nat) :
    scan .blanks k us = ⟨k, us, none⟩ := by
  fun_induction scan i n cs with
  | case1 n cs ih => exact ih h
  | case2 n c' cs hopen hblank ih => exact ih h
  | case3 n cs hopen hblank ih => exact ih h
  | case4 n c' cs hopen hblank hhash =>
      cases h
      rw [scan] <;> simp_all
  | case5 n c' cs ih => exact ih h
  | case6 start n cs ih => exact ih h
  | case7 start n c' cs hclose ih => exact ih h
  | case8 start n =>
      cases h
      exact absurd rfl hus
  | case9 i n hblock =>
      cases h
      exact absurd rfl hus

/-- A gap does not stand in front of more than there is. -/
theorem scan_ne (hus : us ≠ []) (hcs : cs.length ≤ more.length) :
    scan i n cs ≠ ⟨m, us ++ more, none⟩ := by
  intro h
  obtain ⟨skipped, ⟨htext, -⟩, -⟩ := skips_scan i n cs
  have hlength := congrArg List.length htext
  have hpos := List.length_pos_iff.mpr hus
  rw [h, List.length_append, List.length_append] at hlength
  omega

/-- A gap with something behind it is the same if the text is cut off behind that. -/
theorem scan_sever (hus : us ≠ []) (h : scan i n (cs ++ more) = ⟨m, us ++ more, none⟩) :
    scan i n cs = ⟨m, us, none⟩ := by
  fun_induction scan i n cs with
  | case1 n cs ih => exact ih h
  | case2 n c cs hopen hblank ih =>
      have hc : c ≠ '\x7b' := by
        rintro rfl
        cases hblank
      refine ih ?_
      rwa [List.cons_append, scan, if_pos hblank] at h
      exact fun _ hc' => absurd hc' hc
  | case3 n cs hopen hblank ih =>
      refine ih ?_
      rcases cs with _ | ⟨d, cs⟩ <;> simp_all [scan]
  | case4 n c cs hopen hblank hhash =>
      by_cases hmore : c = '\x7b' ∧ ∃ ds, cs ++ more = '-' :: ds
      · obtain ⟨rfl, ds, hds⟩ := hmore
        cases cs with
        | nil =>
            obtain rfl : more = '-' :: ds := hds
            have hblock : scan (.block n) (n + 2) ds = ⟨m, us ++ '-' :: ds, none⟩ := h
            exact absurd hblock (scan_ne hus (Nat.le_succ ds.length))
        | cons d cs =>
            cases hds
            exact absurd rfl (hopen cs rfl)
      · rw [List.cons_append, scan, if_neg hblank, if_neg hhash] at h
        · cases us with
          | nil => exact absurd rfl hus
          | cons d us => simp_all
        · rintro ds rfl hds
          exact hmore ⟨rfl, ds, hds⟩
  | case5 n c cs ih => exact ih h
  | case6 start n cs ih => exact ih h
  | case7 start n c cs hclose ih =>
      by_cases hmore : c = '-' ∧ ∃ ds, cs ++ more = '\x7d' :: ds
      · obtain ⟨rfl, ds, hds⟩ := hmore
        cases cs with
        | nil =>
            obtain rfl : more = '\x7d' :: ds := hds
            have hblanks : scan .blanks (n + 2) ds = ⟨m, us ++ '\x7d' :: ds, none⟩ := h
            exact absurd hblanks (scan_ne hus (Nat.le_succ ds.length))
        | cons d cs =>
            cases hds
            exact absurd rfl (hclose cs rfl)
      · refine ih ?_
        rwa [List.cons_append, scan] at h
        rintro ds rfl hds
        exact hmore ⟨rfl, ds, hds⟩
  | case8 start n => exact absurd h (scan_ne hus (Nat.le_refl _))
  | case9 i n hblock => exact absurd h (scan_ne hus (Nat.le_refl _))

end Gap

namespace Lexing

open Scanned

variable {previous : Option TokenKind} {p : Position} {cs gap rest r more text : List Char} {w : Word}
  {u v : Token} {us vs ws : List Token}

/-- Behind a token of some kind a text begins with a gap and a word. -/
structure Opens (previous : Option TokenKind) (gap : List Char) (w : Word) (rest : List Char) :
    Prop where
  text : w.text.toList ≠ []
  gap : Gap.atFront (gap ++ w.text.toList ++ rest) = ⟨gap.length, w.text.toList ++ rest, none⟩
  next : Scanned.next (!previous.any TokenKind.endsOperand) (w.text.toList ++ rest) =
    .valid w.kind w.text.toList rest

namespace Opens

theorem cuts (h : Opens previous gap w rest) (p : Position) :
    Cuts previous p (gap ++ w.text.toList) rest
      [w.token (p.after gap) (previous.isNone || gap.length != 0)] (some w.kind) :=
  .of_gap gap h.text h.next h.gap

/-- The text may end behind the word. -/
theorem sever (h : Opens previous gap w (r ++ more)) (hr : Severs r more) : Opens previous gap w r where
  text := h.text
  gap := by
    have hne : w.text.toList ++ r ≠ [] := by simp [h.text]
    have hgap := h.gap
    rw [← List.append_assoc, ← List.append_assoc (w.text.toList)] at hgap
    exact Gap.scan_sever hne hgap
  next := next_sever hr h.text h.next

/-- What may stand in front of the end of a text may stand in front of it with the word. -/
theorem severs (h : Opens previous gap w (r ++ more)) :
    Severs (gap ++ w.text.toList ++ r) more := by
  intro hn
  have hlength := congrArg List.length hn
  have hpos := List.length_pos_iff.mpr h.text
  simp only [List.length_append, List.length_singleton] at hlength
  obtain rfl : gap = [] := List.eq_nil_of_length_eq_zero (by omega)
  obtain rfl : r = [] := List.eq_nil_of_length_eq_zero (by omega)
  rw [List.nil_append, List.append_nil] at hn
  exact severs_of_next h.next hn

/-- A word that begins no signed number does not depend on what stands in front of it. -/
theorem alone (h : Opens previous gap w rest) (hplus : w.kind ≠ .mark .plus)
    (hminus : w.kind = .mark .minus → previous.any TokenKind.endsOperand = false) :
    Opens none [] w rest where
  text := h.text
  gap := by
    have hne : w.text.toList ++ rest ≠ [] := by simp [h.text]
    exact Gap.scan_of_scan hne h.gap 0
  next := by
    have hnext := h.next
    cases hends : previous.any TokenKind.endsOperand with
    | false =>
        rw [hends] at hnext
        exact hnext
    | true =>
        rw [hends] at hnext
        refine next_of_unsigned hnext hplus fun hkind => ?_
        rw [hminus hkind] at hends
        cases hends

theorem text_of_shiftRight (h : Opens previous gap w rest) (hkind : w.kind = .mark .shiftRight) :
    w.text.toList = ['>', '>'] := by
  obtain ⟨c, cs, hcs⟩ := List.exists_cons_of_ne_nil h.text
  have hspelled := Scanned.Spelled.next (!previous.any TokenKind.endsOperand) c (cs ++ rest)
  rw [← List.cons_append, ← hcs, h.next] at hspelled
  exact hspelled.mark .shiftRight hkind

end Opens

/-- The first token of a text with which nothing is wrong. -/
theorem exists_opens (hbody : (onward previous p cs).tokens.body = u :: us)
    (hclean : (onward previous p cs).diagnostics = []) :
    ∃ gap w rest, cs = gap ++ w.text.toList ++ rest ∧ Opens previous gap w rest ∧
      u = w.token (p.after gap) (previous.isNone || gap.length != 0) ∧
      (onward (some w.kind) (p.after (gap ++ w.text.toList)) rest).tokens.body = us ∧
      (onward (some w.kind) (p.after (gap ++ w.text.toList)) rest).diagnostics = [] := by
  cases hrest : (Gap.atFront cs).rest with
  | nil =>
      rw [(onward_of_nil hrest).1] at hbody
      cases hbody
  | cons c cs' =>
      obtain ⟨htext, -⟩ := trivia_atFront cs
      have hcuts : (first previous cs).text ++ (first previous cs).rest = (Gap.atFront cs).rest :=
        Scanned.Cuts.next _ _
      have hspelled : (first previous cs).text ≠ [] := by
        rw [first, hrest]
        exact (Scanned.Spelled.next _ c cs').text
      have hle : (Gap.atFront cs).length ≤ cs.length := by
        have := Gap.scan_length .blanks 0 cs
        unfold Gap.atFront
        omega
      obtain ⟨hcons, hdiagnostics⟩ := @onward_of_cons previous p _ _ _ hrest
      rw [hdiagnostics, List.append_eq_nil_iff, List.append_eq_nil_iff, List.map_eq_nil_iff] at hclean
      rw [hcons, List.cons.injEq] at hbody
      obtain ⟨⟨-, hflaws⟩, hclean⟩ := hclean
      obtain ⟨rfl, hus⟩ := hbody
      have hlength : (cs.take (Gap.atFront cs).length).length = (Gap.atFront cs).length := by
        rw [List.length_take, Nat.min_eq_left hle]
      have hsource : cs = cs.take (Gap.atFront cs).length ++ (first previous cs).text ++
          (first previous cs).rest := by
        rw [List.append_assoc, hcuts]
        exact htext
      refine ⟨cs.take (Gap.atFront cs).length, ⟨(first previous cs).kind,
        String.ofList (first previous cs).text⟩, (first previous cs).rest, ?_, ⟨?_, ?_, ?_⟩, ?_, ?_⟩
      · rw [String.toList_ofList]
        exact hsource
      · rw [String.toList_ofList]
        exact hspelled
      · rw [String.toList_ofList, ← hsource, hlength, hcuts, ← Gap.unclosed_atFront hrest]
      · rw [String.toList_ofList, hcuts, ← first, valid, ← hflaws]
      · rw [hlength, Word.token, String.toList_ofList]
        rfl
      · rw [String.toList_ofList, Position.after_append]
        exact ⟨hus, hclean⟩

/-! ## Excerpts -/

/-- Where tokens behind a place end. -/
def endOf (offset : Nat) (ts : List Token) : Nat := ts.foldl (fun _ t => t.span.stop) offset

/-- The kind of the token in front of what follows these tokens. -/
def lastKind (previous : Option TokenKind) (ts : List Token) : Option TokenKind :=
  ts.foldl (fun _ t => some t.kind) previous

theorem endOf_eq (offset : Nat) (ts : List Token) :
    endOf offset ts = (ts.getLast?.map (·.span.stop)).getD offset := by
  induction ts using List.reverseRecOn with
  | nil => rfl
  | append_singleton ts t => simp [endOf]

theorem lastKind_none (ts : List Token) : lastKind none ts = ts.getLast?.map (·.kind) := by
  induction ts using List.reverseRecOn with
  | nil => rfl
  | append_singleton ts t => simp [lastKind]

/-- The first half of a `>>` as a token. -/
def firstHalf (t : Token) : Token :=
  ⟨.mark .greater, { t.span with stop := t.span.start + 1 }, ">", t.spaced⟩

/-- A text that has these tokens if it stands alone, and that may be cut off in front of another
text. -/
structure Alone (previous : Option TokenKind) (p : Position) (text rest : List Char)
    (us : List Token) : Prop where
  body : (onward previous p text).tokens.body = us
  diagnostics : (onward previous p text).diagnostics = []
  ends : endOf p.offset us = (p.after text).offset
  severs : Severs text rest

theorem Alone.nil (previous : Option TokenKind) (p : Position) (rest : List Char) :
    Alone previous p [] rest [] where
  body := (onward_nil previous p).1
  diagnostics := (onward_nil previous p).2
  ends := rfl
  severs := nofun

theorem Alone.half (h : Opens previous gap w rest) (hkind : w.kind = .mark .shiftRight) :
    Alone previous p (gap ++ ['>']) ('>' :: rest)
      [firstHalf (w.token (p.after gap) (previous.isNone || gap.length != 0))] := by
  have htext := h.text_of_shiftRight hkind
  have hopens : Opens previous gap ⟨.mark .greater, ">"⟩ [] := by
    refine ⟨by simp, ?_, ?_⟩
    · have hgap : Gap.scan .blanks 0 (gap ++ ['>'] ++ '>' :: rest) =
          ⟨gap.length, ['>'] ++ '>' :: rest, none⟩ := by
        have hboth := h.gap
        rw [htext, Gap.atFront] at hboth
        simpa using hboth
      simpa [Gap.atFront] using Gap.scan_sever (by simp) hgap
    · cases previous.any TokenKind.endsOperand <;> rfl
  obtain ⟨hbody, hdiagnostics⟩ := hopens.cuts p
  obtain ⟨hnil, hclean⟩ := onward_nil (some (.mark .greater)) (p.after (gap ++ ['>']))
  have hstop : ((p.after gap).after ['>']).offset = (p.after gap).offset + 1 :=
    Position.offset_advance (p.after gap) '>'
  have hlast : (gap ++ ['>']).getLast? ≠ ['n'].getLast? := by simp
  rw [List.append_nil] at hbody hdiagnostics
  constructor
  · generalize (previous.isNone || gap.length != 0) = spaced at *
    have hhalf : (⟨.mark .greater, ">"⟩ : Word).token (p.after gap) spaced =
        firstHalf (w.token (p.after gap) spaced) := by
      change (⟨.mark .greater, ⟨_, ((p.after gap).after ['>']).offset, _, _⟩, ">", spaced⟩ : Token) = _
      rw [hstop]
      rfl
    exact hbody.trans (congrArg₂ (fun t ts => [t] ++ ts) hhalf hnil)
  · exact hdiagnostics.trans hclean
  · rw [Position.after_append, hstop]
    rfl
  · exact fun hn => absurd (congrArg List.getLast? hn) hlast

/-- A word in front of a text that can stand alone. -/
theorem Opens.alone_cons (h : Opens previous gap w (text ++ rest))
    (hus : Alone (some w.kind) (p.after (gap ++ w.text.toList)) text rest us) :
    Alone previous p (gap ++ w.text.toList ++ text) rest
      (w.token (p.after gap) (previous.isNone || gap.length != 0) :: us) := by
  obtain ⟨hbody, hdiagnostics⟩ := (h.sever hus.severs).cuts p
  constructor
  · rw [hbody, hus.body]
    rfl
  · rw [hdiagnostics, hus.diagnostics]
  · rw [Position.after_append, ← hus.ends, Position.after_append]
    rfl
  · exact h.severs

/-- What can stand alone behind some tokens can stand alone with them. -/
theorem exists_alone (hbody : (onward previous p cs).tokens.body = us ++ vs)
    (hclean : (onward previous p cs).diagnostics = [])
    (hend : ∀ previous p cs, (onward previous p cs).tokens.body = vs →
      (onward previous p cs).diagnostics = [] →
      ∃ text rest, cs = text ++ rest ∧ Alone previous p text rest ws) :
    ∃ text rest, cs = text ++ rest ∧ Alone previous p text rest (us ++ ws) := by
  induction us generalizing previous p cs with
  | nil => exact hend previous p cs hbody hclean
  | cons u us ih =>
      obtain ⟨gap, w, cs', rfl, hopens, rfl, hbody', hclean'⟩ := exists_opens hbody hclean
      obtain ⟨text, rest, rfl, halone⟩ := ih hbody' hclean'
      exact ⟨gap ++ w.text.toList ++ text, rest, by simp, hopens.alone_cons halone⟩

/-- The text behind some tokens. -/
theorem exists_behind (hbody : (onward previous p cs).tokens.body = us ++ vs)
    (hclean : (onward previous p cs).diagnostics = []) :
    ∃ front rest, cs = front ++ rest ∧
      (onward (lastKind previous us) (p.after front) rest).tokens.body = vs ∧
      (onward (lastKind previous us) (p.after front) rest).diagnostics = [] := by
  induction us generalizing previous p cs with
  | nil => exact ⟨[], cs, rfl, hbody, hclean⟩
  | cons u us ih =>
      obtain ⟨gap, w, cs', rfl, -, rfl, hbody', hclean'⟩ := exists_opens hbody hclean
      obtain ⟨front, rest, rfl, hbody'', hclean''⟩ := ih hbody' hclean'
      rw [← Position.after_append] at hbody'' hclean''
      exact ⟨gap ++ w.text.toList ++ front, rest, by simp, hbody'', hclean''⟩

/-- The tokens `us` of a text, perhaps with half a token behind them. -/
def Excerpted (us vs ws : List Token) : Prop :=
  ws = us ∨ ∃ v vs', vs = v :: vs' ∧ v.kind = .mark .shiftRight ∧ ws = us ++ [firstHalf v]

/-- The text of an excerpt has the tokens of the excerpt, if its first token does not depend on the
token in front of it. It counts as spaced. -/
theorem ofText_excerpt {source : String} {ts : List Token}
    (hbody : (ofText source).tokens.body = ts ++ u :: (us ++ vs))
    (hclean : (ofText source).diagnostics = []) (hws : Excerpted us vs ws)
    (hplus : u.kind ≠ .mark .plus)
    (hminus : u.kind = .mark .minus → (lastKind none ts).any TokenKind.endsOperand = false) :
    ∃ before text rest u' us', source.toList = before ++ text ++ rest ∧
      (String.ofList before).utf8ByteSize = u.span.start ∧
      (String.ofList (before ++ text)).utf8ByteSize = endOf u.span.stop ws ∧
      (ofText (String.ofList text)).tokens.body = u' :: us' ∧
      (ofText (String.ofList text)).diagnostics = [] ∧
      Token.Shifted u.span.start { u' with spaced := u.spaced } u ∧
      List.Forall₂ (Token.Shifted u.span.start) us' ws := by
  obtain ⟨front, cs, hsource, hbody', hclean⟩ := exists_behind hbody hclean
  clear hbody
  obtain ⟨gap, w, cs, rfl, hopens, rfl, hbody, hclean⟩ := exists_opens hbody' hclean
  -- Where the token stands in the source.
  generalize hp : (Position.start.after front).after gap = p at *
  have hoffset : (String.ofList (front ++ gap)).utf8ByteSize = p.offset := by
    rw [← hp, ← Position.after_append, Position.start_after]
  rw [Position.after_append, hp] at hbody hclean
  have hfront := hopens.alone hplus hminus
  obtain ⟨text, rest, rfl, hrest⟩ : ∃ text rest, cs = text ++ rest ∧
      Alone (some w.kind) (p.after w.text.toList) text rest ws := by
    rcases hws with rfl | ⟨v, vs', rfl, hv, rfl⟩
    · rw [← List.append_nil ws]
      exact exists_alone hbody hclean fun previous p cs _ _ => ⟨[], cs, rfl, .nil previous p cs⟩
    · refine exists_alone hbody hclean fun previous p cs hbody hclean => ?_
      obtain ⟨gap, w', rest, rfl, hopens, rfl, -⟩ := exists_opens hbody hclean
      refine ⟨gap ++ ['>'], '>' :: rest, ?_, .half hopens hv⟩
      rw [hopens.text_of_shiftRight hv]
      simp
  have hbehind : Alone (some w.kind) (p.after ([] ++ w.text.toList)) text rest ws := hrest
  obtain ⟨halone, hdiagnostics, -, -⟩ := hfront.alone_cons hbehind
  have hzero : p.offset = Position.start.offset + p.offset := (Nat.zero_add _).symm
  have hshifted : List.Forall₂ (Token.Shifted p.offset)
      (onward none .start (w.text.toList ++ text)).tokens.body
      (onward none p (w.text.toList ++ text)).tokens.body := shifted_onward hzero
  rw [List.nil_append] at halone hdiagnostics
  rw [halone] at hshifted
  obtain ⟨u', us', hu, hus, hfound⟩ := List.forall₂_cons_right_iff.mp hshifted
  have hends : (String.ofList (front ++ gap ++ (w.text.toList ++ text))).utf8ByteSize =
      endOf (p.after w.text.toList).offset ws := by
    rw [hrest.ends, ← Position.after_append, ← hp, ← Position.after_append, ← Position.after_append,
      Position.start_after, List.append_assoc]
  refine ⟨front ++ gap, w.text.toList ++ text, rest, u', us', ?_, hoffset, hends, ?_, ?_, ?_, hus⟩
  · simp [hsource]
  · rw [ofText, String.toList_ofList, hfound]
  · rw [ofText, String.toList_ofList]
    exact clean_onward rfl hdiagnostics
  · exact ⟨hu.kind, hu.lexeme, rfl, hu.start, hu.stop⟩

end Lexing

end BendSyntax
