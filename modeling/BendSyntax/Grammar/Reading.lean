import BendSyntax.Grammar.Session

/-!
# Readings

A reading moves a session onward: it takes tokens and adds nodes to the tree, and it may
fail, in which case the session stays where the failure came up. A reading can be tried:
then a failure takes the session back, except for the memory that it failed. Only an
exceeded depth limit cannot be taken back.
-/

namespace BendSyntax

/-- What a reading is done under. -/
structure Setting where
  config : Config
  /-- Whether an attempt is passed over where it is known to have failed. -/
  remembers : Bool
  slot : Slot
  deriving Repr

/-- What a reading ends with, and the session it leaves. -/
inductive Outcome (α : Type) where
  | ok (a : α) (s : Session)
  | error (e : SyntaxError) (s : Session)

namespace Outcome

variable {α β : Type}

def session : Outcome α → Session
  | ok _ s => s
  | error _ s => s

/-- What comes of going on with an answer. -/
def andThen : Outcome α → (α → Session → Outcome β) → Outcome β
  | ok a s, f => f a s
  | error e s, _ => error e s

@[simp] theorem session_ok (a : α) (s : Session) : (ok a s).session = s := rfl

@[simp] theorem session_error (e : SyntaxError) (s : Session) :
    (error e s : Outcome α).session = s := rfl

@[simp] theorem andThen_ok (a : α) (s : Session) (f : α → Session → Outcome β) :
    (ok a s).andThen f = f a s := rfl

@[simp] theorem andThen_error (e : SyntaxError) (s : Session) (f : α → Session → Outcome β) :
    (error e s : Outcome α).andThen f = error e s := rfl

theorem andThen_onward (o : Outcome α) {f : α → Session → Outcome β}
    (h : ∀ (a : α) (s : Session), s.Onward (f a s).session) : o.session.Onward (o.andThen f).session := by
  cases o with
  | ok a s => exact h a s
  | error e s => exact .refl s

/-- What is left of a reading that was tried. Without an answer the session goes back to the
one before, unless the failure is fatal. -/
def retracted (before : Session) : Outcome (Option α) → Outcome (Option α)
  | ok (some a) s => ok (some a) s
  | ok none s => ok none (s.rewind before)
  | error e s => if e.isFatal then error e s else ok none (s.rewind before)

/-- Whether there is an answer. The session goes back, unless the failure is fatal. -/
def tested (before : Session) : Outcome α → Outcome Bool
  | ok _ s => ok true (s.rewind before)
  | error e s => if e.isFatal then error e s else ok false (s.rewind before)

theorem session_retracted (before : Session) (o : Outcome (Option α)) :
    (o.retracted before).session = o.session ∨
      (o.retracted before).session = o.session.rewind before := by
  match o with
  | ok (some a) s => exact .inl rfl
  | ok none s => exact .inr rfl
  | error e s =>
      simp only [retracted]
      split
      · exact .inl rfl
      · exact .inr rfl

theorem session_tested (before : Session) (o : Outcome α) :
    (o.tested before).session = o.session ∨ (o.tested before).session = o.session.rewind before := by
  cases o with
  | ok a s => exact .inr rfl
  | error e s =>
      simp only [tested]
      split
      · exact .inl rfl
      · exact .inr rfl

/-- What is left of a reading whose failure may be dealt with: it is reported, the nodes
added since `before` are discarded, and `handle` goes on. -/
def recovered (recover : Bool) (describe : SyntaxError → SyntaxError) (before : Session)
    (handle : Session → Outcome α) : Outcome α → Outcome α
  | ok a s => ok a s
  | error e s =>
      if recover then handle ((s.discard before).report (describe e)) else error (describe e) s

/-- A failure is reported, and there is no answer. -/
def reported : Outcome α → Outcome (Option α)
  | ok a s => ok (some a) s
  | error e s => ok none (s.report e)

/-- A failure that was dealt with has at most discarded nodes. -/
theorem recovered_onward_of (recover : Bool) (describe : SyntaxError → SyntaxError)
    (before : Session) {handle : Session → Outcome α}
    (h : ∀ s : Session, s.Onward (handle s).session) (o : Outcome α) :
    ∃ s, (s = o.session ∨ s = o.session.discard before) ∧
      s.Onward (o.recovered recover describe before handle).session := by
  cases o with
  | ok a s => exact ⟨s, .inl rfl, .refl s⟩
  | error e s =>
      cases recover with
      | true => exact ⟨_, .inr rfl, (Session.Onward.report _ _).trans (h _)⟩
      | false => exact ⟨s, .inl rfl, .refl s⟩

theorem reported_onward (o : Outcome α) : o.session.Onward o.reported.session := by
  cases o with
  | ok a s => exact .refl s
  | error e s => exact .report s e

theorem retracted_onward {before : Session} {o : Outcome (Option α)} (h : before.Onward o.session) :
    before.Onward (o.retracted before).session := by
  rcases session_retracted before o with ho | ho <;> rw [ho]
  · exact h
  · exact h.rewind

theorem tested_onward {before : Session} {o : Outcome α} (h : before.Onward o.session) :
    before.Onward (o.tested before).session := by
  rcases session_tested before o with ho | ho <;> rw [ho]
  · exact h
  · exact h.rewind

end Outcome

/-- What a run does on its way: it looks at the tokens from a cursor, it looks up a term, a part
of it leads from one cursor to the next, whether it succeeds or not, or a loop goes on from one
cursor to another round at the next. -/
inductive Step where
  | tokens (c : Cursor)
  | term (id : TermId) (tree : Tree)
  | part (c d : Cursor)
  | round (c d : Cursor)

structure Reading (α : Type) where
  run : Setting → Session → Outcome α
  onward : ∀ (setting : Setting) (s : Session), s.Onward (run setting s).session
  /-- The steps of a run, also those that it takes back. -/
  steps : Setting → Session → Step → Prop := fun _ _ _ => False

namespace Reading

variable {α β : Type}

/-- The steps of a reading as part of a run: where it leads, and what it does on its way. -/
def course (r : Reading α) (setting : Setting) (s : Session) (x : Step) : Prop :=
  x = .part s.cursor (r.run setting s).session.cursor ∨ r.steps setting s x

/-- An answer from what is known, which changes nothing. -/
def asks (f : Setting → Session → α) : Reading α where
  run setting s := .ok (f setting s) s
  onward _ s := .refl s
  steps _ s x := x = .tokens s.cursor

instance : Monad Reading where
  pure a := asks fun _ _ => a
  bind r f := {
    run := fun setting s => (r.run setting s).andThen fun a => (f a).run setting
    onward := fun setting s =>
      (r.onward setting s).trans (Outcome.andThen_onward _ fun a => (f a).onward setting)
    steps := fun setting s x =>
      r.course setting s x ∨ ∃ a t, r.run setting s = .ok a t ∧ (f a).course setting t x }

theorem run_pure (a : α) (setting : Setting) (s : Session) :
    (pure a : Reading α).run setting s = .ok a s := rfl

theorem run_bind (r : Reading α) (f : α → Reading β) (setting : Setting) (s : Session) :
    (r >>= f).run setting s = (r.run setting s).andThen fun a => (f a).run setting := rfl

/-- A reading goes onward from where its first part ends. -/
theorem bind_onward (r : Reading α) (f : α → Reading β) (setting : Setting) (s : Session) :
    (r.run setting s).session.Onward ((r >>= f).run setting s).session :=
  Outcome.andThen_onward _ fun a => (f a).onward setting

def fail (e : SyntaxError) : Reading α where
  run _ s := .error e s
  onward _ s := .refl s

/-- Changes the session in a way that goes onward. -/
def moves (f : Session → Session) (h : ∀ s : Session, s.Onward (f s)) : Reading Unit where
  run _ s := .ok () (f s)
  onward _ s := h s
  steps _ s x := x = .tokens s.cursor

/-! ## Tokens -/

def cursor : Reading Cursor := asks fun _ s => s.cursor

def slot : Reading Slot := asks fun setting _ => setting.slot

def config : Reading Config := asks fun setting _ => setting.config

/-- The kind of the next token. -/
def kind : Reading TokenKind := return (← cursor).kind

/-- The span of the next token. -/
def here : Reading Span := return (← cursor).span

def sees (k : TokenKind) : Reading Bool := return (← kind) = k

/-- Reads the next token, whatever it is. -/
def advance : Reading Span where
  run _ s := .ok s.cursor.span { s with cursor := s.cursor.advance }
  onward _ s := .setCursor (.advance s.cursor)
  steps _ s x := x = .tokens s.cursor

/-- Reads the first half of a `>>`. -/
def halve : Reading Unit :=
  moves (fun s => { s with cursor := s.cursor.halve }) fun _ => .setCursor (.halve _)

/-- Reads the next token if it is of the given kind. -/
def accept (k : TokenKind) : Reading Bool := do
  if ← sees k then
    let _ ← advance
    return true
  else return false

/-- Fails because something else was expected here. -/
def unexpected (what : String) : Reading α := do
  let c ← cursor
  fail (.expected what c.described c.span)

/-- Fails unless a condition holds that was expected to hold here. -/
def require (condition : Bool) (what : String) : Reading Unit :=
  if condition then pure () else unexpected what

def expect (k : TokenKind) : Reading Span := do
  if ← sees k then advance else unexpected s!"`{k.name}`"

/-- An identifier with its span. -/
def identifier : Reading (String × Span) := do
  let c ← cursor
  if c.kind = .ident then
    let span ← advance
    return (c.lexeme, span)
  else unexpected "identifier"

/-- Closes a list in angle brackets. Of `>>` only the first half is read, so that the
second can close the list around it. -/
def closeAngle : Reading Unit := do
  match ← kind with
  | .mark .greater =>
      let _ ← advance
  | .mark .shiftRight => halve
  | _ => unexpected "`>`"

/-! ## Nodes -/

/-- Adds a term with the usage of the slot. -/
def addTerm (term : Term TermId PatternId) (span : Span) : Reading TermId where
  run setting s :=
    let (id, tree) := s.tree.addTerm ⟨term, span, setting.slot.usage⟩
    .ok id { s with tree }
  onward _ s := .setTree (.addTerm s.tree _)

def addPattern (pattern : Pattern PatternId) (span : Span) : Reading PatternId where
  run _ s :=
    let (id, tree) := s.tree.addPattern ⟨pattern, span⟩
    .ok id { s with tree }
  onward _ s := .setTree (.addPattern s.tree _)

/-- The span from `start` to the last token that was read. -/
def since (start : Span) : Reading Span := return start.hull (← cursor).last

/-- Adds a term that reaches from `start` to the last token that was read. -/
def close (start : Span) (term : Term TermId PatternId) : Reading TermId := do
  addTerm term (← since start)

def closePattern (start : Span) (pattern : Pattern PatternId) : Reading PatternId := do
  addPattern pattern (← since start)

def widen (id : TermId) (span : Span) : Reading Unit :=
  { moves (fun s => { s with tree := s.tree.widen id span }) fun _ => .setTree (.widen _ id span) with
    steps := fun _ s x => x = .term id s.tree }

/-- An answer from what is known about a term. -/
def asksTerm (id : TermId) (f : Tree → α) : Reading α :=
  { asks fun _ s => f s.tree with steps := fun _ s x => x = .term id s.tree }

def spanOf (id : TermId) : Reading Span := asksTerm id (·.span id)

/-- Whether a term is a name that does not stand in parentheses. -/
def bareName (id : TermId) : Reading Bool := asksTerm id (·.isBareName id)

/-! ## Slots -/

def within (change : Slot → Slot) (r : Reading α) : Reading α where
  run setting s := r.run { setting with slot := change setting.slot } s
  onward _ s := r.onward _ s
  steps setting s := r.steps { setting with slot := change setting.slot } s

/-- Reads for another usage under the same restrictions. -/
def withUsage (usage : Usage) (r : Reading α) : Reading α := within (·.withUsage usage) r

/-- Reads the contents of brackets. -/
def delimited (r : Reading α) : Reading α := within Slot.delimited r

/-! ## Loops -/

/-- What a round of a loop ends with. -/
inductive Round (α : Type) where
  | more (a : α)
  | done (a : α)

def runLoop (step : α → Reading (Round α)) (setting : Setting) (a : α) (s : Session) : Outcome α :=
  match (step a).run setting s with
  | .ok (.done a) now => .ok a now
  | .ok (.more a) now =>
      if now.cursor.remaining < s.cursor.remaining then runLoop step setting a now else .ok a now
  | .error e now => .error e now
termination_by s.cursor.remaining

/-- A loop goes onward from where its first round ends. -/
theorem step_onward_runLoop (step : α → Reading (Round α)) (setting : Setting) (a : α)
    (s : Session) :
    ((step a).run setting s).session.Onward (runLoop step setting a s).session := by
  fun_induction runLoop with
  | case1 a s b now hstep => simpa [hstep] using .refl now
  | case2 a s b now hstep hlt ih =>
      rw [hstep]
      exact ((step b).onward setting now).trans ih
  | case3 a s b now hstep hge => simpa [hstep] using .refl now
  | case4 a s e now hstep => simpa [hstep] using .refl now

theorem runLoop_onward (step : α → Reading (Round α)) (setting : Setting) (a : α) (s : Session) :
    s.Onward (runLoop step setting a s).session :=
  ((step a).onward setting s).trans (step_onward_runLoop step setting a s)

/-- The steps of the rounds of a loop, however often it goes on. -/
inductive LoopStep (step : α → Reading (Round α)) (setting : Setting) : α → Session → Step → Prop
  | inside {a : α} {s : Session} {x : Step} (h : (step a).course setting s x) :
      LoopStep step setting a s x
  | round {a b : α} {s t : Session} (h : (step a).run setting s = .ok (.more b) t) :
      LoopStep step setting a s (.round s.cursor t.cursor)
  | later {a b : α} {s t : Session} {x : Step} (h : (step a).run setting s = .ok (.more b) t)
      (hx : LoopStep step setting b t x) : LoopStep step setting a s x

/-- Repeats rounds until one is the last. Every round but the last moves the cursor. -/
def loop (step : α → Reading (Round α)) (a : α) : Reading α where
  run setting s := runLoop step setting a s
  onward setting s := runLoop_onward step setting a s
  steps setting s := LoopStep step setting a s

/-- Items as long as `continues` holds before one. -/
def collectWhile (continues : Reading Bool) (item : Reading α) : Reading (List α) := do
  let items ← loop (fun acc => do
    if ← continues then return .more (acc.push (← item)) else return .done acc) #[]
  return items.toList

/-- Items, at least one, as long as `continues` holds behind one. -/
def collectThrough (item : Reading α) (continues : Reading Bool) : Reading (List α) := do
  let items ← loop (fun acc => do
    let acc := acc.push (← item)
    if ← continues then return .more acc else return .done acc) #[]
  return items.toList

/-- Items, at least one, with commas between them. -/
def commaList (item : Reading α) : Reading (List α) :=
  collectThrough item (accept (.mark .comma))

/-- Items, at least one, up to a token of the given kind. -/
def oneUpTo (stop : TokenKind) (item : Reading α) : Reading (List α) :=
  collectThrough item (return !(← sees stop))

/-- Items with commas between them, up to a closing bracket; a comma may stand in front
of the bracket. -/
def separated (bracket : TokenKind) (item : Reading α) : Reading (List α) := do
  let items ← loop (fun acc => do
    if ← sees bracket then return .done acc
    let acc := acc.push (← item)
    if ← accept (.mark .comma) then return .more acc else return .done acc) #[]
  return items.toList

/-! ## Attempts -/

/-- Tries a reading that may also decline. If it does, or fails for a reason that is not
fatal, the session goes back. -/
def speculate (r : Reading (Option α)) : Reading (Option α) where
  run setting s := (r.run setting s).retracted s
  onward setting s := Outcome.retracted_onward (r.onward setting s)
  steps := r.course

/-- Whether a reading would succeed. Nothing is read. -/
def succeeds (r : Reading α) : Reading Bool where
  run setting s := (r.run setting s).tested s
  onward setting s := Outcome.tested_onward (r.onward setting s)
  steps := r.course

/-- An attempt that comes to nothing here. -/
def failureOf (what : Attempt) : Reading Failure :=
  asks fun setting s => ⟨s.cursor.index, what, setting.slot⟩

/-- Whether an attempt is to be passed over because it is known to fail. -/
def isKnown (f : Failure) : Reading Bool :=
  asks fun setting s => setting.remembers && s.failures.any f.matches

def remember (f : Failure) : Reading Unit := moves (·.remember f) (.remember · f)

/-- Tries a reading that may also decline. Where it is known to have failed before the
same token, it is not tried again. -/
def attempt (what : Attempt) (r : Reading (Option α)) : Reading (Option α) := do
  let failure ← failureOf what
  let answer ← do if ← isKnown failure then pure none else speculate r
  if answer.isNone then remember failure
  return answer

/-- An attempt in one step: it is passed over or tried, and then remembered if it came to
nothing. -/
theorem run_attempt (what : Attempt) (r : Reading (Option α)) (setting : Setting) (s : Session) :
    (attempt what r).run setting s =
      let failure : Failure := ⟨s.cursor.index, what, setting.slot⟩
      (if setting.remembers && s.failures.any failure.matches then .ok none s
        else (r.run setting s).retracted s).andThen fun answer now =>
          .ok answer (if answer.isNone then now.remember failure else now) := by
  simp only [attempt, failureOf, isKnown, asks, run_bind, Outcome.andThen_ok]
  split
  · rfl
  · rw [run_bind]
    congr 1
    funext answer now
    cases answer <;> rfl

/-! ## Recovery -/

/-- Reads a `>>` from its first half on, even if that has been read. -/
def whole (r : Reading α) : Reading α where
  run setting s := r.run setting { s with cursor := s.cursor.whole }
  onward setting s := (Session.Onward.setCursor (.whole s.cursor)).trans (r.onward setting _)
  steps setting s := r.steps setting { s with cursor := s.cursor.whole }

/-- A failure is reported, and there is no answer. -/
def reported (r : Reading α) : Reading (Option α) where
  run setting s := (r.run setting s).reported
  onward setting s := (r.onward setting s).trans (Outcome.reported_onward _)
  steps := r.course

/-- Where the config says so, a failure is reported as `describe` puts it, the nodes added
until then are discarded, and `handler` goes on from where the failure came up. -/
def recovering (describe : SyntaxError → SyntaxError) (handler r : Reading α) : Reading α where
  run setting s :=
    (r.run setting s).recovered setting.config.recover describe s (handler.run setting)
  onward := by
    intro setting s
    have h := r.onward setting s
    obtain ⟨t, ht, honward⟩ := Outcome.recovered_onward_of setting.config.recover describe s
      (handler.onward setting) (r.run setting s)
    rcases ht with rfl | rfl
    · exact h.trans honward
    · exact h.discard.trans honward
  steps setting s x := r.course setting s x ∨
    ∃ e t, r.run setting s = .error e t ∧ setting.config.recover = true ∧
      handler.course setting ((t.discard s).report (describe e)) x

end Reading

end BendSyntax
