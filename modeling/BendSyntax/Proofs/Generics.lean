import BendSyntax.Proofs.Formula
import BendSyntax.Proofs.Plain.Cursors
import BendSyntax.Proofs.Respaced

/-! Generics: names with lists of types in angle brackets behind them, nested in each other and
written without blanks. The brackets that close lists touch, and the lexer takes two of them for a
`>>` from the left on, whichever lists they close. The pieces of the text are the words it was put
together from. -/

namespace BendSyntax

open Lexing Pieces

/-- A name, a type with its arguments, or a call with type arguments. -/
inductive Generic where
  | name (x : Identifier)
  | tyApp (head : Identifier) (first : Generic) (rest : List Generic)
  | call (func : Identifier) (first : Generic) (rest args : List Generic)

/-- Texts with commas between them, and no blanks. -/
def listed (texts : List String) : String := ",".intercalate texts

/-- The characters of words that touch. -/
def touching (words : List Word) : List Char := words.flatMap (·.text.toList)

namespace Generic

mutual

/-- The text of a generic. -/
def text : Generic → String
  | name x => x.text
  | tyApp head first rest => s!"{head.text}<{listed (first.text :: texts rest)}>"
  | call func first rest args =>
      s!"{func.text}<{listed (first.text :: texts rest)}>({listed (texts args)})"

def texts : List Generic → List String
  | [] => []
  | g :: gs => g.text :: texts gs

end

mutual

/-- The words that a generic is put together from. Every list has a closing bracket of its own. -/
def words : Generic → List Word
  | name x => [x.word]
  | tyApp head first rest =>
      head.word :: .mark .less :: (first.words ++ (wordsBehind rest ++ [.mark .greater]))
  | call func first rest args =>
      func.word :: .mark .less :: (first.words ++ (wordsBehind rest ++ .mark .greater ::
        .mark .leftParen :: (wordsOf args ++ [.mark .rightParen])))

def wordsOf : List Generic → List Word
  | [] => []
  | g :: gs => g.words ++ wordsBehind gs

/-- The words of generics with a comma in front of each. -/
def wordsBehind : List Generic → List Word
  | [] => []
  | g :: gs => .mark .comma :: (g.words ++ wordsBehind gs)

end

mutual

/-- How deep the readings of a generic are nested. -/
def depth : Generic → Nat
  | name _ => 1
  | tyApp _ first rest => max first.depth (depths rest) + 1
  | call _ first rest args => max (max first.depth (depths rest)) (depths args) + 1

def depths : List Generic → Nat
  | [] => 0
  | g :: gs => max g.depth (depths gs)

end

mutual

/-- The structural dump of a generic. -/
def dump : Generic → String
  | name x => x.text
  | tyApp head first rest => (.tyApp head.text (first.dump :: dumps rest) : Term String String).dump
  | call func first rest args =>
      (.genericCall func.text (first.dump :: dumps rest) (dumps args) : Term String String).dump

def dumps : List Generic → List String
  | [] => []
  | g :: gs => g.dump :: dumps gs

end

end Generic

/-! ## Terms -/

mutual

/-- Whether a term is a generic. -/
def Tree.StoresGeneric (t : Tree) : Generic → TermId → Prop
  | .name x, id => t.term? id = some (Grammar.nameTerm x.text)
  | .tyApp head first rest, id =>
      ∃ h a as, t.term? id = some (.tyApp h (a :: as)) ∧
        t.term? h = some (Grammar.nameTerm head.text) ∧ t.StoresGeneric first a ∧ t.StoresGenerics rest as
  | .call func first rest args, id =>
      ∃ h a as bs, t.term? id = some (.genericCall h (a :: as) bs) ∧
        t.term? h = some (Grammar.nameTerm func.text) ∧ t.StoresGeneric first a ∧
          t.StoresGenerics rest as ∧ t.StoresGenerics args bs

def Tree.StoresGenerics (t : Tree) : List Generic → List TermId → Prop
  | [], ids => ids = []
  | g :: gs, ids => ∃ a as, ids = a :: as ∧ t.StoresGeneric g a ∧ t.StoresGenerics gs as

end

namespace Tree

mutual

theorem StoresGeneric.mono {t u : Tree} (h : t.Extends u) :
    (g : Generic) → (id : TermId) → t.StoresGeneric g id → u.StoresGeneric g id
  | .name _, _, hterm => h.term? hterm
  | .tyApp _ first rest, _, ⟨i, a, as, hterm, hhead, hfirst, hrest⟩ =>
      ⟨i, a, as, h.term? hterm, h.term? hhead, StoresGeneric.mono h first a hfirst,
        StoresGenerics.mono h rest as hrest⟩
  | .call _ first rest args, _, ⟨i, a, as, bs, hterm, hhead, hfirst, hrest, hargs⟩ =>
      ⟨i, a, as, bs, h.term? hterm, h.term? hhead, StoresGeneric.mono h first a hfirst,
        StoresGenerics.mono h rest as hrest, StoresGenerics.mono h args bs hargs⟩

theorem StoresGenerics.mono {t u : Tree} (h : t.Extends u) :
    (gs : List Generic) → (ids : List TermId) → t.StoresGenerics gs ids → u.StoresGenerics gs ids
  | [], _, hids => hids
  | g :: gs, _, ⟨a, as, hids, hg, hgs⟩ =>
      ⟨a, as, hids, StoresGeneric.mono h g a hg, StoresGenerics.mono h gs as hgs⟩

end

variable {t : Tree}

/-- A name is shown as its text, whether or not it is a path. -/
theorem dump_nameTerm {id : TermId} {lexeme : String} (h : t.term? id = some (Grammar.nameTerm lexeme)) :
    t.dump id = lexeme := by
  rw [dump_of_term? h]
  · unfold Grammar.nameTerm
    split
    · simp only [Term.map, Term.dump, Grammar.intercalate_cutAtSlashes, String.ofList_toList]
    · rfl
  · unfold Grammar.nameTerm
    split <;> exact fun _ hchild => absurd hchild List.not_mem_nil

mutual

/-- A term that is a generic has its dump. -/
theorem StoresGeneric.dump (h : t.InRange) :
    (g : Generic) → (id : TermId) → t.StoresGeneric g id → t.dump id = g.dump
  | .name _, _, hterm => dump_nameTerm hterm
  | .tyApp head first rest, id, ⟨i, a, as, hterm, hhead, hfirst, hrest⟩ => by
      rw [h.dump hterm, Generic.dump, ← dump_nameTerm hhead, ← StoresGeneric.dump h first a hfirst,
        ← StoresGenerics.dumps h rest as hrest]
      rfl
  | .call func first rest args, id, ⟨i, a, as, bs, hterm, hhead, hfirst, hrest, hargs⟩ => by
      rw [h.dump hterm, Generic.dump, ← dump_nameTerm hhead, ← StoresGeneric.dump h first a hfirst,
        ← StoresGenerics.dumps h rest as hrest, ← StoresGenerics.dumps h args bs hargs]
      rfl

theorem StoresGenerics.dumps (h : t.InRange) : (gs : List Generic) → (ids : List TermId) →
    t.StoresGenerics gs ids → ids.map t.dump = Generic.dumps gs
  | [], ids, hids => by rw [hids]; rfl
  | g :: gs, ids, ⟨a, as, hids, hg, hgs⟩ => by
      rw [hids, List.map_cons, StoresGeneric.dump h g a hg, StoresGenerics.dumps h gs as hgs]
      rfl

end

end Tree

end BendSyntax
