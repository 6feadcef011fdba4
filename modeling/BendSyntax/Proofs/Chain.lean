import BendSyntax.Proofs.Chain.Stops
import BendSyntax.Proofs.DepthLimit

/-! Chains of names with operators between them are grouped by the table of operators: a left
operand reaches as far as the operators bind tightly enough, and there is no other way to group the
chain. -/

namespace BendSyntax

open Reading Grammar

/-- Whether a term is a chain that is grouped in this way. -/
def Tree.Shows (t : Tree) : Grouping → TermId → Prop
  | .name x, id => t.term? id = some (nameTerm x)
  | .node form lhs rhs, id =>
      ∃ l r, t.term? id = some (infixTerm form l r) ∧ t.Shows lhs l ∧ t.Shows rhs r

namespace Tree

variable {t u : Tree} {id : TermId} {g : Grouping}

theorem Shows.mono (h : t.Extends u) (hid : t.Shows g id) : u.Shows g id := by
  induction g generalizing id with
  | name x => exact h.term? hid
  | node form lhs rhs ihl ihr =>
      obtain ⟨l, r, hterm, hlhs, hrhs⟩ := hid
      exact ⟨l, r, h.term? hterm, ihl hlhs, ihr hrhs⟩

end Tree

/-- A session in which a part of a chain has been read as a term, in front of the rest. -/
structure Session.Holds (s : Session) (g : Grouping) (id : TermId) (links : List Link)
    (more : List Token) : Prop where
  shows : s.tree.Shows g id
  faces : s.cursor.Faces (Link.words links) more
  clean : s.diagnostics = #[]

/-! ## Groupings of the beginning of a chain -/

/-- A grouping of all but the last links of a chain, which binds at a level or more tightly. -/
structure Grouping.Begins (g : Grouping) (min : Level) (first : String)
    (steps : List (InfixForm × String)) (rest : List Link) : Prop where
  grouped : g.Grouped
  atLeast : g.AtLeast min
  first : g.first = first
  steps : g.rest ++ rest.map Link.step = steps

namespace Grouping

variable {g h : Grouping} {min : Level} {first : String} {steps : List (InfixForm × String)}
  {l : Link} {links rest : List Link}

theorem begins_name (min : Level) (x : String) (links : List Link) :
    (name x).Begins min x (links.map Link.step) links :=
  ⟨trivial, by simp [AtLeast, top?], rfl, rfl⟩

/-- The next operator is taken with its right operand. -/
theorem Begins.node (hg : g.Begins min first steps (l :: links))
    (hprevious : g.AtLeast l.operator.previous) (hlevel : min ≤ l.operator.level)
    (hh : h.Begins l.operator.next l.name.text (links.map Link.step) rest) :
    (node l.operator.form g h).Begins min first steps rest where
  grouped := by
    rw [grouped_node, l.binding]
    exact ⟨hprevious, hh.atLeast, hg.grouped, hh.grouped⟩
  atLeast := by
    rintro form ⟨⟩
    rwa [l.binding]
  first := hg.first
  steps := by
    rw [Grouping.rest, List.append_assoc, List.cons_append, hh.first, hh.steps, ← hg.steps]
    rfl

/-- What a right operand leaves takes the operator as a part of its left operand. -/
theorem atLeast_previous_of_lt_next {l' : Link} (hlt : l'.operator.level < l.operator.next) :
    (node l.operator.form g h).AtLeast l'.operator.previous := by
  rintro form ⟨⟩
  rw [← l.binding, ← l'.binding] at hlt
  rw [← l'.binding]
  exact InfixForm.previous_le_iff_lt_next.mpr hlt

end Grouping

section Climbing

variable {deep : Deeper} {min : Level} {start : Span} {setting : Setting} {s t : Session}
  {g : Grouping} {lhs id : TermId} {l : Link} {links : List Link} {more : List Token}

/-! ## Rounds -/

/-- Nothing touches a word of a chain, and nothing that touches its end belongs to it. -/
theorem suffixRound_done (deep : Deeper) (start : Span) (lhs : TermId)
    (hstop : Stop setting.slot more) (hfaces : s.cursor.Faces (Link.words links) more) :
    (suffixRound deep start lhs).run setting s = .ok (.done lhs) s := by
  simp only [suffixRound, Reading.cursor, Reading.slot, asks, run_bind, Outcome.andThen_ok]
  cases links with
  | nil =>
      split
      · rfl
      · rename_i hheld
        cases hstop with
        | eof => rw [hfaces.kind_nil]; rfl
        | mark ht => rcases ht with ht | ht | ht | ht | ht <;> rw [hfaces.kind_more, ht] <;> rfl
        | brace hslot ht => simp [hfaces.kind_more, ht, Cursor.bracesOperand, hslot, run_pure]
        | head hslot hhead =>
            simp [Cursor.atCaseHead, hslot, hhead _ hfaces] at hheld
  | cons l links =>
      rw [hfaces.not_tight]
      rfl

/-- A name is read on its own. -/
theorem run_leading {first : Identifier} (deep : Deeper) (hstop : Stop setting.slot more)
    (hfaces : s.cursor.Faces (first.word :: Link.words links) more) (hclean : s.diagnostics = #[]) :
    ∃ id t, (leading deep).run setting s = .ok id t ∧ t.Holds (.name first.text) id links more := by
  have hkind : s.cursor.kind = .ident := hfaces.kind
  have hlexeme : s.cursor.lexeme = first.text := hfaces.token.lexeme
  have hrun : (leading deep).run setting s = runLoop (suffixRound deep s.cursor.span) setting
      (s.tree.addTerm ⟨nameTerm first.text, s.cursor.span, setting.slot.usage⟩).1
      { s with
        cursor := s.cursor.advance
        tree := (s.tree.addTerm ⟨nameTerm first.text, s.cursor.span, setting.slot.usage⟩).2 } := by
    simp only [leading, operand, Reading.cursor, asks, run_bind, Outcome.andThen_ok, hkind, if_true,
      hlexeme]
    rfl
  rw [hrun, runLoop_done (suffixRound_done deep _ _ hstop hfaces.advance)]
  exact ⟨_, _, rfl, Tree.term?_addTerm _ _, hfaces.advance, hclean⟩

/-- Behind a name or a right operand a round begins with the operator. -/
theorem run_climbRound_links (hstop : Stop setting.slot more)
    (hfaces : s.cursor.Faces (Link.words (l :: links)) more) :
    (climbRound deep min start lhs).run setting s =
      (operatorRound deep min start lhs).run setting s := by
  have hhead := hfaces.not_atHead hstop
  rw [run_climbRound, if_neg (by simp [hhead])]
  split
  · rw [run_bind, run_juxtaposed?_of_not hhead (hfaces.not_juxtaposes _)]
    rfl
  · rfl

/-- Where no operator follows that binds tightly enough, the expression ends. -/
theorem climbRound_done (hstop : Stop setting.slot more) (hslot : setting.slot.noDot = false)
    (hfaces : s.cursor.Faces (Link.words links) more)
    (hends : ∀ l ∈ links.head?, l.operator.level < min) :
    (climbRound deep min start lhs).run setting s = .ok (.done lhs) s := by
  cases links with
  | nil => exact (hfaces.settled hstop min).run_climbRound
  | cons l links =>
      have hnone : operator? s.cursor setting.slot min = none := by
        rw [hfaces.operator?_cons hslot]
        exact if_pos (hends l rfl)
      rw [run_climbRound_links hstop hfaces, run_operatorRound, hnone]
      rfl

/-- A right operand is an expression in the same slot, but for the usage. -/
theorem run_rightOperand (deep : Deeper) (op : Infix) (setting : Setting) (s : Session) :
    ∃ usage, (rightOperand deep op).run setting s =
      (deep.expr op.next).run { setting with slot := setting.slot.withUsage usage } s := by
  unfold rightOperand
  split
  · exact ⟨.type, rfl⟩
  · exact ⟨setting.slot.usage, rfl⟩

/-- An operator that binds tightly enough is taken with its right operand, which is read under the
same restrictions. -/
theorem climbRound_more (deep : Deeper) (start : Span) (lhs : TermId)
    (hstop : Stop setting.slot more) (hslot : setting.slot.noDot = false)
    (hfaces : s.cursor.Faces (Link.words (l :: links)) more) (hlevel : min ≤ l.operator.level) :
    ∃ setting', Stop setting'.slot more ∧ setting'.slot.noDot = false ∧
      (climbRound deep min start lhs).run setting s =
        ((deep.expr l.operator.next).run setting' { s with cursor := s.cursor.advance }).andThen
          fun rhs => (Round.more <$> close start (infixTerm l.operator.form lhs rhs)).run setting := by
  obtain ⟨usage, hrun⟩ := run_rightOperand deep l.operator setting
    { s with cursor := s.cursor.advance }
  have hsome : operator? s.cursor setting.slot min = some l.operator := by
    rw [hfaces.operator?_cons hslot]
    exact if_neg (Nat.not_lt.mpr hlevel)
  refine ⟨{ setting with slot := setting.slot.withUsage usage }, hstop.withUsage usage, hslot, ?_⟩
  rw [run_climbRound_links hstop hfaces, run_operatorRound, hsome]
  change ((rightOperand deep l.operator).run setting _).andThen _ = _
  rw [hrun]

/-! ## Expressions -/

/-- A reading goes on with a chain as far as the operators bind tightly enough. -/
def Outcome.ReadsChain (o : Outcome TermId) (min : Level) (first : String)
    (steps : List (InfixForm × String)) (more : List Token) : Prop :=
  ∃ (g : Grouping) (id : TermId) (t : Session) (rest : List Link),
    o = .ok id t ∧ t.Holds g id rest more ∧ g.Begins min first steps rest ∧
      ∀ l ∈ rest.head?, l.operator.level < min

/-- Chains with fewer than `n` operators are read in this way. -/
def Deeper.ReadsChains (deep : Deeper) (n : Nat) : Prop :=
  ∀ (min : Level) (setting : Setting) (s : Session) (first : Identifier) (links : List Link)
    (more : List Token), Stop setting.slot more → setting.slot.noDot = false → links.length < n →
    s.cursor.Faces (first.word :: Link.words links) more → s.diagnostics = #[] →
    ((deep.expr min).run setting s).ReadsChain min first.text (links.map Link.step) more

/-- A right operand leaves fewer links than there were. -/
theorem Grouping.Begins.length_le {h : Grouping} {rest : List Link} {first : String}
    (hh : h.Begins min first (links.map Link.step) rest) : rest.length ≤ links.length := by
  have hlength := congrArg List.length hh.steps
  simp only [List.length_append, List.length_map] at hlength
  omega

/-- The rounds go on until an operator binds too loosely. The induction is on the number of links
in front of the cursor, of which a round takes at least one. -/
theorem runLoop_links {n : Nat} (hdeep : deep.ReadsChains n) (hstop : Stop setting.slot more)
    (hslot : setting.slot.noDot = false) {first : String} {steps : List (InfixForm × String)}
    (hlength : links.length ≤ n) (hs : s.Holds g lhs links more)
    (hg : g.Begins min first steps links) (hnext : ∀ l ∈ links.head?, g.AtLeast l.operator.previous) :
    (runLoop (climbRound deep min start) setting lhs s).ReadsChain min first steps more := by
  induction hm : links.length using Nat.strongRecOn generalizing links g lhs s with
  | _ m ih =>
      by_cases hends : ∀ l ∈ links.head?, l.operator.level < min
      · exact ⟨g, lhs, s, links, runLoop_done (climbRound_done hstop hslot hs.faces hends), hs, hg,
          hends⟩
      · cases links with
        | nil => exact absurd (by simp) hends
        | cons l links =>
            have hlevel : min ≤ l.operator.level := by simpa using hends
            obtain ⟨setting', hstop', hslot', hround⟩ :=
              climbRound_more deep start lhs hstop hslot hs.faces hlevel
            obtain ⟨h, rhs, u, rest, hrhs, hu, hh, hrest⟩ := hdeep l.operator.next setting'
              { s with cursor := s.cursor.advance } l.name links more hstop' hslot' hlength
              hs.faces.advance hs.clean
            let node : TermNode :=
              ⟨infixTerm l.operator.form lhs rhs, start.hull u.cursor.last, setting.slot.usage⟩
            have hmore : (climbRound deep min start lhs).run setting s =
                .ok (.more (u.tree.addTerm node).1) { u with tree := (u.tree.addTerm node).2 } := by
              rw [hround, hrhs]
              rfl
            have hadded : u.tree.Extends (u.tree.addTerm node).2 := .addTerm _ _
            have hholds : Session.Holds { u with tree := (u.tree.addTerm node).2 }
                (.node l.operator.form g h) (u.tree.addTerm node).1 rest more :=
              ⟨⟨lhs, rhs, Tree.term?_addTerm _ _,
                hs.shows.mono ((onward_of_ok hrhs).tree.trans hadded), hu.shows.mono hadded⟩,
                hu.faces, hu.clean⟩
            have hfewer : rest.length ≤ links.length := hh.length_le
            simp only [List.length_cons] at hlength hm
            have hremaining : u.cursor.remaining < s.cursor.remaining := by
              rw [hu.faces.remaining, hs.faces.remaining, Link.length_words, Link.length_words,
                List.length_cons]
              omega
            rw [runLoop_more hmore hremaining]
            exact ih rest.length (by omega) (by omega) hholds (hg.node (hnext l rfl) hlevel hh)
              (fun l' hl' => Grouping.atLeast_previous_of_lt_next (hrest l' hl')) rfl

theorem readsChains_nested (d : Nat) : (nested d).ReadsChains d := by
  induction d with
  | zero => exact fun _ _ _ _ _ _ _ _ hlength => absurd hlength (Nat.not_lt_zero _)
  | succ d ih =>
      intro min setting s first links more hstop hslot hlength hfaces hclean
      obtain ⟨id, t, hleading, ht⟩ := run_leading (nested d) hstop hfaces hclean
      have hrun : ((nested (d + 1)).expr min).run setting s =
          runLoop (climbRound (nested d) min s.cursor.span) setting id t := by
        change ((leading (nested d)).run setting s).andThen _ = _
        rw [hleading]
        rfl
      rw [hrun]
      exact runLoop_links ih hstop hslot (Nat.le_of_lt_succ hlength) ht
        (Grouping.begins_name min first.text links) fun _ _ => by simp [Grouping.AtLeast, Grouping.top?]

/-- An operator binds at least as tightly as an assignment. -/
theorem Link.level_pos (l : Link) : Level.assignment ≤ l.operator.level := by
  rw [← l.binding]
  rcases l.operator.form with op | _ | _ | _
  · cases op <;> decide
  all_goals decide

/-- A chain does not begin a binding. -/
theorem run_statement_links {first : Identifier} (deep : Deeper) (hstop : Stop setting.slot more)
    (hfaces : s.cursor.Faces (first.word :: Link.words links) more) :
    (statement deep).run setting s = (deep.expr .assignment).run setting s := by
  obtain ⟨hcolon, hequals, -⟩ := hfaces.advance.kind_links hstop
  have hnext : s.cursor.kindAt 1 = s.cursor.advance.kind := hfaces.kindAt_succ 0
  rw [← hnext] at hcolon hequals
  simp only [statement, Reading.cursor, asks, run_bind, Outcome.andThen_ok]
  split
  · exact absurd ‹_› hequals
  · exact absurd ‹_› hcolon
  · rfl

/-- In front of a stop a chain is read whole, where the depth leaves room for its operators. -/
theorem run_statement_chain {n : Nat} (setting : Setting) (hdeep : deep.ReadsChains n)
    (hstop : Stop setting.slot more) (hslot : setting.slot.noDot = false)
    (hlength : links.length < n) {first : Identifier}
    (hfaces : s.cursor.Faces (first.word :: Link.words links) more) (hclean : s.diagnostics = #[]) :
    ∃ g id t, (statement deep).run setting s = .ok id t ∧ t.Holds g id [] more ∧ g.Grouped ∧
      g.first = first.text ∧ g.rest = links.map Link.step := by
  obtain ⟨g, id, t, rest, hexpr, ht, hg, hrest⟩ :=
    hdeep .assignment setting s first links more hstop hslot hlength hfaces hclean
  obtain rfl : rest = [] := by
    cases rest with
    | nil => rfl
    | cons l rest => exact absurd (hrest l rfl) (Nat.not_lt.mpr l.level_pos)
  exact ⟨g, id, t, (run_statement_links deep hstop hfaces).trans hexpr, ht, hg.grouped, hg.first,
    by simpa using hg.steps⟩

end Climbing

/-! ## Texts -/

section Texts

variable {first : Identifier} {links : List Link}

/-- A chain is read whole where the depth limit leaves room for its operators. -/
theorem Expression.ofText_chain (first : Identifier) (links : List Link) (config : Config)
    (hdepth : links.length + 2 ≤ config.maxDepth) :
    ∃ e g, Expression.ofText (chainText first links) config = .ok e ∧ e.tree.Shows g e.root ∧
      g.Grouped ∧ g.first = first.text ∧ g.rest = links.map Link.step := by
  obtain ⟨d, hd⟩ : ∃ d, config.maxDepth = d + 1 := ⟨config.maxDepth - 1, by omega⟩
  obtain ⟨hfaces, hlexed⟩ := faces_chainText first links
  have hclean : (initial (Lexing.ofText (chainText first links))).diagnostics = #[] := by
    simp [initial, hlexed]
  obtain ⟨g, id, t, hread, ht, hgrouped, hfirst, hsteps⟩ := run_statement_chain
    (setting config true) (readsChains_nested d) .eof rfl (by omega) hfaces hclean
  have hstatement : ((nested config.maxDepth).statement).run (setting config true)
      (initial (Lexing.ofText (chainText first links))) = .ok id t := by
    rw [hd]
    exact hread
  have hwhole : (wholeStatement (nested config.maxDepth)).onText config true
      (chainText first links) = .ok id t := by
    have hkind : t.cursor.kind = .eof := ht.faces.kind_nil
    simp [wholeStatement, onText, run_bind, hstatement, sees, Reading.kind, Reading.cursor, asks,
      run_pure, hkind]
  refine ⟨⟨t.tree, id⟩, g, ?_, ht.shows, hgrouped, hfirst, hsteps⟩
  rw [Expression.ofText, Expression.read_eq, hwhole]
  simp [Outcome.expression, ht.clean]

end Texts

/-- Unless it is reported to be nested too deeply, a chain of names with operators between them is
read as a term that groups them as the table says, which is the only way to do so; and the nesting
is not too deep if the limit leaves room for the operators. -/
theorem chain_grouped (first : Identifier) (links : List Link) (config : Config) :
    ((∀ ds, Expression.ofText (chainText first links) config = .error ds → ¬tooDeeplyNested ds) →
      ∃ e g, Expression.ofText (chainText first links) config = .ok e ∧ e.tree.Shows g e.root ∧
        ∀ g' : Grouping, (g'.Grouped ∧ g'.first = first.text ∧ g'.rest = links.map Link.step) ↔
          g' = g) ∧
    (links.length + 2 ≤ config.maxDepth →
      (Expression.ofText (chainText first links) config).isOk = true) := by
  constructor
  · intro hdeep
    let higher : Config := ⟨config.maxDepth + (links.length + 2), config.recover⟩
    have hbeyond := Expression.ofText_beyond (chainText first links) config higher rfl
      (nested (links.length + 2)) hdeep
    rw [nestedUpon_nested] at hbeyond
    obtain ⟨e, g, he, hshows, hgrouped, hfirst, hrest⟩ :=
      Expression.ofText_chain first links higher (Nat.le_add_left _ _)
    rw [Expression.ofText, Expression.read_eq] at he
    refine ⟨e, g, hbeyond.symm.trans he, hshows, fun g' => ⟨?_, ?_⟩⟩
    · rintro ⟨hgrouped', hfirst', hrest'⟩
      exact Grouping.eq_of_rest_eq hgrouped' hgrouped (hfirst'.trans hfirst.symm)
        (hrest'.trans hrest.symm)
    · rintro rfl
      exact ⟨hgrouped, hfirst, hrest⟩
  · intro hdepth
    obtain ⟨e, -, he, -⟩ := Expression.ofText_chain first links config hdepth
    rw [he]
    rfl

set_option maxRecDepth 100000 in
/-- Both associativities, a level between them, and the operator that opens a type. -/
theorem chain_grouped_types :
    ∃ e, Expression.ofText "a - b - c ** d ** e :: f" ⟨7, true⟩ = .ok e ∧
      e.tree.Shows (.node .check
        (.node (.op .sub) (.node (.op .sub) (.name "a") (.name "b"))
          (.node (.op .pow) (.name "c") (.node (.op .pow) (.name "d") (.name "e"))))
        (.name "f")) e.root := by
  let names (x : String) (h : x.toList.head?.any Scanned.isWordStart = true ∧
      Scanned.wordLength x.toList = x.length ∧ TokenKind.ofWord? x = none) : Identifier :=
    ⟨x, h.1, h.2.1, h.2.2⟩
  let minus (x : Identifier) : Link := ⟨.mark .minus, .leftOp .sub .additive, x, rfl, by decide⟩
  let power (x : Identifier) : Link := ⟨.mark .power, .rightOp .pow .power, x, rfl, by decide⟩
  let check (x : Identifier) : Link := ⟨.mark .doubleColon, ⟨.check, .check, .right⟩, x, rfl, by decide⟩
  let links : List Link := [minus (names "b" (by decide)), minus (names "c" (by decide)),
    power (names "d" (by decide)), power (names "e" (by decide)), check (names "f" (by decide))]
  have htext : chainText (names "a" (by decide)) links = "a - b - c ** d ** e :: f" := by decide
  obtain ⟨hread, hdepth⟩ := chain_grouped (names "a" (by decide)) links ⟨7, true⟩
  rw [htext] at hread hdepth
  obtain ⟨e, g, he, hshows, hg⟩ := hread fun ds hds => by
    have hok := hdepth (by decide)
    rw [hds] at hok
    cases hok
  obtain rfl := (hg (.node .check
    (.node (.op .sub) (.node (.op .sub) (.name "a") (.name "b"))
      (.node (.op .pow) (.name "c") (.node (.op .pow) (.name "d") (.name "e"))))
    (.name "f"))).mp ⟨by simp [Grouping.Grouped, Grouping.top?]; decide, rfl, rfl⟩
  exact ⟨e, he, hshows⟩

end BendSyntax
