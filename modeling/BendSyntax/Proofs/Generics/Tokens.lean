import BendSyntax.Proofs.Generics

/-! The tokens of a generic. Its words can stand next to each other without blanks, but where two
brackets that close lists stand next to each other they are one token, which has two pieces. -/

namespace BendSyntax

open Lexing Scanned Pieces

namespace Word

/-- Names and the marks of generics. -/
inductive Generic : Word → Prop
  | name (x : Identifier) : Generic x.word
  | mark {s : Symbol} (hs : s ∈ [.less, .greater, .comma, .leftParen, .rightParen]) : Generic (.mark s)

/-- Which words may stand next to each other: names stand behind marks, opening angle brackets
between two names. -/
structure Adjoins (w w' : Word) : Prop where
  behind_name : w.kind = .ident → w'.kind ≠ .ident
  behind_less : w.kind = .mark .less → w'.kind = .ident
  before_less : w'.kind = .mark .less → w.kind = .ident

/-- A piece is a word, and if that is a mark it touches what stands in front of it. -/
structure Fits (w : Word) (p : Piece) : Prop where
  kind : p.kind = w.kind
  lexeme : p.lexeme = w.text
  tight : w.kind ≠ .ident → p.tight = true

/-! ## Words that touch -/

theorem Generic.solid {w : Word} (h : w.Generic) : w.Solid := by
  cases h with
  | name x => exact x.solid
  | mark hs => exact solid_symbol (by rintro rfl; simp at hs)

theorem Generic.ne_shiftRight {w : Word} (h : w.Generic) : w.kind ≠ .mark .shiftRight := by
  cases h with
  | name x => nofun
  | mark hs => rintro ⟨⟩; simp at hs

theorem Generic.eq_mark {w : Word} (h : w.Generic) {s : Symbol} (hkind : w.kind = .mark s) :
    w = .mark s := by
  cases h with
  | name x => cases hkind
  | mark hs =>
      cases hkind
      rfl

theorem not_tail_of_isWordStart {c : Char} (h : isWordStart c = true) (s : Symbol) :
    c ∉ s.spelling.toList.tail := by
  have hall : s.spelling.toList.all (!isWordStart ·) = true := by cases s <;> decide
  intro hmem
  have hnot := List.all_eq_true.mp hall c (List.mem_of_mem_tail hmem)
  simp [h] at hnot

variable {w : Word} {words : List Word}

/-- With what a name or a mark begins. -/
theorem Generic.front (h : w.Generic) : ∃ c cs, w.text.toList = c :: cs ∧
    (w.kind ≠ .ident → isWordPart c = false ∧ c ≠ '/') ∧
    (w.kind ≠ .mark .less → w.kind ≠ .mark .greater → ∀ s : Symbol, c ∉ s.spelling.toList.tail) := by
  cases h with
  | name x =>
      have hstart := x.begins
      cases htext : x.text.toList with
      | nil => simp [htext] at hstart
      | cons c cs =>
          rw [htext] at hstart
          exact ⟨c, cs, htext, fun h => absurd rfl h, fun _ _ => not_tail_of_isWordStart hstart⟩
  | @mark s hs =>
      simp only [List.mem_cons, List.not_mem_nil, or_false] at hs
      rcases hs with rfl | rfl | rfl | rfl | rfl
      · exact ⟨_, _, rfl, fun _ => by decide, fun h => absurd rfl h⟩
      · exact ⟨_, _, rfl, fun _ => by decide, fun _ h => absurd rfl h⟩
      all_goals exact ⟨_, _, rfl, fun _ => by decide, fun _ _ s => by cases s <;> decide⟩

/-- A mark that is no part of a longer one is scanned as a whole in front of anything. -/
theorem mark_endsBefore {s : Symbol} (hs : s ∈ [.comma, .leftParen, .rightParen, .shiftRight])
    (rest : List Char) : (mark s).EndsBefore rest := by
  have hchars : ∃ c cs, s.spelling.toList = c :: cs ∧ c ≠ '+' ∧ c ≠ '-' ∧
      Symbol.atFront? (c :: cs ++ rest) = some s := by
    simp only [List.mem_cons, List.not_mem_nil, or_false] at hs
    rcases hs with rfl | rfl | rfl | rfl <;> exact ⟨_, _, rfl, by decide, by decide, rfl⟩
  obtain ⟨c, cs, htext, hplus, hminus, hfront⟩ := hchars
  exact symbol_endsBefore htext hfront (.inr ⟨hplus, hminus⟩)

/-- A word is scanned as a whole in front of the words that may stand behind it, unless both are
closing angle brackets. -/
theorem Generic.endsBefore (hw : w.Generic) (hwords : ∀ w ∈ words, w.Generic)
    (hadjoins : ∀ w' ∈ words.head?, w.Adjoins w')
    (hgreater : w = .mark .greater → words.head? ≠ some (.mark .greater)) :
    w.EndsBefore (touching words) := by
  cases words with
  | nil => exact hw.solid.whole _ ends_nil
  | cons w' words =>
      have hnext := hwords w' List.mem_cons_self
      have hbeside : w.Adjoins w' := hadjoins w' rfl
      obtain ⟨c, cs, htext, hpart, htail⟩ := hnext.front
      have hrest : touching (w' :: words) = c :: (cs ++ touching words) := by simp [touching, htext]
      rw [hrest]
      cases hw with
      | name x =>
          obtain ⟨hpart, hslash⟩ := hpart (hbeside.behind_name rfl)
          have hlength : wordLength (x.text.toList ++ c :: (cs ++ touching words)) = x.text.toList.length := by
            rw [wordLength_append_cons hpart hslash, x.whole, String.length_toList]
          have hends := word_endsBefore x.begins hlength
          rwa [x.free] at hends
      | @mark s hs =>
          by_cases hangle : s = .less ∨ s = .greater
          · have hkind : w'.kind ≠ .mark .less ∧ w'.kind ≠ .mark .greater := by
              rcases hangle with rfl | rfl
              · have hname := hbeside.behind_less rfl
                exact ⟨by simp [hname], by simp [hname]⟩
              · refine ⟨fun hless => ?_, fun hkind => hgreater rfl ?_⟩
                · cases hbeside.before_less hless
                · rw [hnext.eq_mark hkind]
                  rfl
            rcases hangle with rfl | rfl
            · exact @symbol_endsBefore .less '<' [] _ rfl
                (atFront?_append_cons (htail hkind.1 hkind.2) _ _ _) (.inr (by decide))
            · exact @symbol_endsBefore .greater '>' [] _ rfl
                (atFront?_append_cons (htail hkind.1 hkind.2) _ _ _) (.inr (by decide))
          · refine mark_endsBefore ?_ _
            simp only [List.mem_cons, List.not_mem_nil, or_false, not_or] at hs hangle ⊢
            tauto

/-- Words taken from the left, two closing angle brackets at once where they stand next to each
other. -/
inductive Paired : List Word → Prop
  | nil : Paired []
  | single {w : Word} {words : List Word}
      (h : w = .mark .greater → words.head? ≠ some (.mark .greater)) (more : Paired words) :
      Paired (w :: words)
  | pair {words : List Word} (more : Paired words) : Paired (.mark .greater :: .mark .greater :: words)

theorem paired : (words : List Word) → Paired words
  | [] => .nil
  | [w] => .single (fun _ => nofun) .nil
  | w :: w' :: words => by
      by_cases h : w = .mark .greater ∧ w' = .mark .greater
      · obtain ⟨rfl, rfl⟩ := h
        exact .pair (paired words)
      · exact .single (fun hw hw' => h ⟨hw, Option.some.inj hw'⟩) (paired (w' :: words))

/-- Behind another token, words that may touch are cut into tokens with these words as pieces. -/
theorem exists_cuts {words : List Word} (hwords : ∀ w ∈ words, w.Generic)
    (hchain : words.IsChain Adjoins) (previous : TokenKind) (p : Position) :
    ∃ ts last, Cuts (some previous) p (touching words) [] ts last ∧
      List.Forall₂ Fits words (ofTokens ts) := by
  have hpaired := paired words
  induction hpaired generalizing previous p with
  | nil => exact ⟨[], _, ⟨rfl, rfl⟩, .nil⟩
  | @single w words hgreater _ ih =>
      obtain ⟨hw, hwords⟩ := List.forall_mem_cons.mp hwords
      obtain ⟨hadjoins, hchain⟩ := List.isChain_cons.mp hchain
      obtain ⟨ts, last, hcuts, hfits⟩ := ih hwords hchain w.kind (p.after w.text.toList)
      have hfirst : Cuts (some previous) p w.text.toList (touching words ++ [])
          [w.token p false] (some w.kind) :=
        .word false hw.solid (by
          rw [List.append_nil]
          exact hw.endsBefore hwords hadjoins hgreater)
      refine ⟨_, last, hfirst.append hcuts, ?_⟩
      rw [List.singleton_append, ofTokens_whole hw.ne_shiftRight]
      exact .cons ⟨rfl, rfl, fun _ => rfl⟩ hfits
  | @pair words _ ih =>
      have hrest : ∀ w ∈ words, w.Generic := fun w hw => hwords w (by simp [hw])
      have hbehind : words.IsChain Adjoins := hchain.tail.tail
      obtain ⟨ts, last, hcuts, hfits⟩ := ih hrest hbehind (.mark .shiftRight) (p.after ['>', '>'])
      have hfirst : Cuts (some previous) p ['>', '>'] (touching words ++ [])
          [(mark .shiftRight).token p false] (some (.mark .shiftRight)) :=
        .word false (@solid_symbol .shiftRight (by decide)) (mark_endsBefore (by decide) _)
      refine ⟨_, last, hfirst.append hcuts, ?_⟩
      rw [List.singleton_append, ofTokens_shiftRight rfl]
      exact .cons ⟨rfl, rfl, fun _ => rfl⟩ (.cons ⟨rfl, rfl, fun _ => rfl⟩ hfits)

end Word

/-! ## Texts -/

namespace Generic

open Word (Adjoins)

theorem words_front (g : Generic) : ∃ (x : Identifier) (ws : List Word), g.words = x.word :: ws := by
  cases g <;> exact ⟨_, _, rfl⟩

theorem toList_listed (text : String) (texts : List String) :
    (listed (text :: texts)).toList = text.toList ++ texts.flatMap fun t => ',' :: t.toList := by
  rw [listed, String.toList_intercalate]
  induction texts generalizing text with
  | nil => simp
  | cons t texts ih =>
      have hrest := ih t
      simp only [List.map_cons] at hrest ⊢
      rw [List.intercalate_cons_cons, hrest]
      simp

mutual

/-- The text of a generic is put together from its words. -/
theorem toList_text : (g : Generic) → g.text.toList = touching g.words
  | name x => by simp [text, words, touching, Identifier.word]
  | tyApp head first rest => by
      simp only [text, words, touching, toString, String.toList_append, toList_listed, toList_text first,
        toList_texts rest]
      simp [Word.mark, Identifier.word, Symbol.spelling]
  | call func first rest args => by
      simp only [text, words, touching, toString, String.toList_append, toList_listed, toList_text first,
        toList_texts rest, toList_listed_texts args]
      simp [Word.mark, Identifier.word, Symbol.spelling]

theorem toList_listed_texts : (gs : List Generic) → (listed (texts gs)).toList = touching (wordsOf gs)
  | [] => rfl
  | g :: gs => by
      rw [texts, toList_listed, toList_text g, toList_texts gs, wordsOf, touching, touching, touching,
        List.flatMap_append]

theorem toList_texts : (gs : List Generic) →
    ((texts gs).flatMap fun t => ',' :: t.toList) = touching (wordsBehind gs)
  | [] => rfl
  | g :: gs => by
      rw [texts, List.flatMap_cons, toList_text g, toList_texts gs, wordsBehind, touching, touching,
        touching, List.flatMap_cons, List.flatMap_append]
      rfl

end

mutual

theorem generic_words : (g : Generic) → ∀ w ∈ g.words, w.Generic
  | name x => by simpa [words] using .name x
  | tyApp head first rest => by
      simp only [words, List.forall_mem_cons, List.forall_mem_append]
      exact ⟨.name head, .mark (by decide), generic_words first, generic_wordsBehind rest,
        .mark (by decide), nofun⟩
  | call func first rest args => by
      simp only [words, List.forall_mem_cons, List.forall_mem_append]
      exact ⟨.name func, .mark (by decide), generic_words first, generic_wordsBehind rest,
        .mark (by decide), .mark (by decide), generic_wordsOf args, .mark (by decide), nofun⟩

theorem generic_wordsOf : (gs : List Generic) → ∀ w ∈ wordsOf gs, w.Generic
  | [] => nofun
  | g :: gs => by
      simp only [wordsOf, List.forall_mem_append]
      exact ⟨generic_words g, generic_wordsBehind gs⟩

theorem generic_wordsBehind : (gs : List Generic) → ∀ w ∈ wordsBehind gs, w.Generic
  | [] => nofun
  | g :: gs => by
      simp only [wordsBehind, List.forall_mem_cons, List.forall_mem_append]
      exact ⟨.mark (by decide), generic_words g, generic_wordsBehind gs⟩

end

/-- What may stand behind a generic: nothing, a comma or a closing bracket. -/
def Closes (more : List Word) : Prop :=
  ∀ w ∈ more.head?, ∃ s ∈ [Symbol.comma, .greater, .rightParen], w = .mark s

theorem closes_mark {s : Symbol} (hs : s ∈ [Symbol.comma, .greater, .rightParen]) (more : List Word) :
    Closes (.mark s :: more) := by
  rintro w ⟨⟩
  exact ⟨s, hs, rfl⟩

theorem closes_wordsBehind (gs : List Generic) {more : List Word} (h : Closes more) :
    Closes (wordsBehind gs ++ more) := by
  cases gs with
  | nil => exact h
  | cons g gs => exact closes_mark (by decide) _

theorem adjoins_of_closes {w : Word} {more : List Word} (hw : w.kind ≠ .mark .less)
    (h : Closes more) : ∀ w' ∈ more.head?, w.Adjoins w' := by
  intro w' hw'
  obtain ⟨s, hs, rfl⟩ := h w' hw'
  refine ⟨fun _ => nofun, fun hless => absurd hless hw, ?_⟩
  rintro ⟨⟩
  simp at hs

/-- Behind a mark that begins or goes on with a list a generic may stand. -/
theorem chain_behind_mark (s : Symbol) (g : Generic)
    {more : List Word} (h : (g.words ++ more).IsChain Adjoins) :
    (.mark s :: (g.words ++ more)).IsChain Adjoins := by
  refine List.isChain_cons.mpr ⟨?_, h⟩
  obtain ⟨x, ws, hwords⟩ := g.words_front
  rw [hwords]
  rintro w ⟨⟩
  exact ⟨nofun, fun _ => rfl, nofun⟩

theorem chain_opened (head : Identifier) {ws : List Word}
    (h : (.mark .less :: ws).IsChain Adjoins) :
    (head.word :: .mark .less :: ws).IsChain Adjoins := by
  refine List.isChain_cons.mpr ⟨?_, h⟩
  rintro w ⟨⟩
  exact ⟨fun _ => nofun, nofun, fun _ => rfl⟩

mutual

/-- The words of a generic may stand next to each other. -/
theorem chain_words : (g : Generic) → ∀ more, Closes more → more.IsChain Adjoins →
    (g.words ++ more).IsChain Adjoins
  | name x, more, hcloses, hmore =>
      List.isChain_cons.mpr ⟨adjoins_of_closes nofun hcloses, hmore⟩
  | tyApp head first rest, more, hcloses, hmore => by
      simp only [words, List.cons_append, List.append_assoc, List.nil_append]
      have hend := List.isChain_cons.mpr ⟨adjoins_of_closes (w := .mark .greater) nofun hcloses, hmore⟩
      have hclosing := closes_mark (s := .greater) (by decide) more
      exact chain_opened head <| chain_behind_mark .less first <|
        chain_words first _ (closes_wordsBehind rest hclosing) (chain_wordsBehind rest _ hclosing hend)
  | call func first rest args, more, hcloses, hmore => by
      simp only [words, List.cons_append, List.append_assoc, List.nil_append]
      have hend := List.isChain_cons.mpr ⟨adjoins_of_closes (w := .mark .rightParen) nofun hcloses, hmore⟩
      have hargs := chain_called args hend
      have hopen : (.mark .greater :: .mark .leftParen ::
          (wordsOf args ++ .mark .rightParen :: more)).IsChain Adjoins := by
        refine List.isChain_cons.mpr ⟨?_, hargs⟩
        rintro w ⟨⟩
        exact ⟨nofun, nofun, nofun⟩
      have hclosing := closes_mark (s := .greater) (by decide)
        (.mark .leftParen :: (wordsOf args ++ .mark .rightParen :: more))
      exact chain_opened func <| chain_behind_mark .less first <|
        chain_words first _ (closes_wordsBehind rest hclosing) (chain_wordsBehind rest _ hclosing hopen)

theorem chain_called : (args : List Generic) → ∀ {more : List Word},
    (.mark .rightParen :: more).IsChain Adjoins →
      (.mark .leftParen :: (wordsOf args ++ .mark .rightParen :: more)).IsChain Adjoins
  | [], more, hmore => by
      refine List.isChain_cons.mpr ⟨?_, hmore⟩
      rintro w ⟨⟩
      exact ⟨nofun, nofun, nofun⟩
  | g :: gs, more, hmore => by
      rw [wordsOf, List.append_assoc]
      have hclosing := closes_mark (s := .rightParen) (by decide) more
      exact chain_behind_mark _ g <|
        chain_words g _ (closes_wordsBehind gs hclosing) (chain_wordsBehind gs _ hclosing hmore)

theorem chain_wordsBehind : (gs : List Generic) → ∀ more, Closes more → more.IsChain Adjoins →
    (wordsBehind gs ++ more).IsChain Adjoins
  | [], more, _, hmore => hmore
  | g :: gs, more, hcloses, hmore => by
      rw [wordsBehind, List.cons_append, List.append_assoc]
      exact chain_behind_mark _ g <|
        chain_words g _ (closes_wordsBehind gs hcloses) (chain_wordsBehind gs _ hcloses hmore)

end

end Generic

/-! ## Sessions -/

/-- A session in front of pieces that are words, about which nothing was reported and in which no
attempt has failed. -/
structure Session.Facing (s : Session) (words : List Word) : Prop where
  orderly : s.cursor.Orderly
  pieces : List.Forall₂ Word.Fits words s.cursor.pieces
  named : ∀ t ∈ s.cursor.rest, t.span.length = t.lexeme.utf8ByteSize
  clean : s.diagnostics = #[]
  failures : s.failures = []

/-- In front of the text of a generic stand its words. -/
theorem Generic.facing_initial (g : Generic) : (Reading.initial (ofText g.text)).Facing g.words := by
  obtain ⟨x, ws, hwords⟩ := g.words_front
  have hchain := g.chain_words [] nofun .nil
  have hgeneric := g.generic_words
  rw [List.append_nil, hwords] at hchain
  rw [hwords] at hgeneric
  obtain ⟨hadjoins, hchain⟩ := List.isChain_cons.mp hchain
  obtain ⟨hx, hgeneric⟩ := List.forall_mem_cons.mp hgeneric
  obtain ⟨ts, last, hcuts, hfits⟩ := Word.exists_cuts hgeneric hchain .ident (Position.start.after x.text.toList)
  have hfirst : Cuts none .start x.text.toList (touching ws ++ []) [x.word.token .start true] (some .ident) :=
    .word false x.solid (by
      rw [List.append_nil]
      exact hx.endsBefore hgeneric hadjoins nofun)
  have hwhole := hfirst.append hcuts
  have htext : g.text.toList = x.text.toList ++ touching ws := by
    rw [toList_text, hwords]
    rfl
  rw [← htext] at hwhole
  obtain ⟨hbody, hdiagnostics⟩ := hwhole.ofText
  refine ⟨Cursor.orderly_start _, ?_, (measured_ofText _).length, ?_, rfl⟩
  · change List.Forall₂ Word.Fits g.words (ofTokens (ofText g.text).tokens.body)
    rw [hbody, hwords, List.singleton_append, ofTokens_whole (by nofun)]
    exact .cons ⟨rfl, rfl, fun h => absurd rfl h⟩ hfits
  · simp [Reading.initial, hdiagnostics]

end BendSyntax
