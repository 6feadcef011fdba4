import BendSyntax.Json.Reader

/-!
# Settings of a reading

Settings are decoded from a JSON object, in which other members are ignored, or from
an array of the settings in order. What is missing takes its default; a member of
the wrong type or a repeated one is an error.
-/

namespace BendSyntax

structure Config where
  /-- How deep expressions and patterns may be nested. -/
  maxDepth : Nat
  /-- Whether reading goes on at the next item after an error. -/
  recover : Bool
  deriving Repr, DecidableEq

namespace Config

/-- The default settings. -/
def standard : Config := ⟨256, true⟩

instance : Inhabited Config := ⟨standard⟩

/-- A depth is a whole number of 64 bits. -/
def depth? (j : Json) : Option Nat :=
  match j.nat? with
  | some n => if n < 0x10000000000000000 then some n else none
  | none => none

/-- A member that is missing or occurs once. -/
def setting? {α : Type} (decode : Json → Option α) (standard : α) : List Json → Option α
  | [] => some standard
  | [j] => decode j
  | _ => none

def ofJson? (j : Json) : Option Config :=
  match j with
  | .object members =>
      if members.all (·.1.isSome) then do
        let maxDepth ← setting? depth? standard.maxDepth (j.valuesOf "max_depth")
        let recover ← setting? Json.bool? standard.recover (j.valuesOf "recover")
        return ⟨maxDepth, recover⟩
      else none
  | .array items =>
      if items.length ≤ 2 then do
        let maxDepth ← setting? depth? standard.maxDepth (items.take 1)
        let recover ← setting? Json.bool? standard.recover (items.drop 1)
        return ⟨maxDepth, recover⟩
      else none
  | _ => none

def ofText? (s : String) : Option Config :=
  Json.ofText? s.length s >>= ofJson?

end Config

end BendSyntax
