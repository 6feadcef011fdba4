/-!
# JSON values

Values of the JSON data format as they are written: members of an object keep their
order and may repeat a name, and a number is its numeral. A string whose escapes
leave a surrogate unpaired denotes no text and is kept as nothing.
-/

namespace BendSyntax

inductive Json where
  | null
  | bool (value : Bool)
  | number (numeral : String)
  | string (text : Option String)
  | array (items : List Json)
  | object (members : List (Option String × Json))
  deriving Inhabited

namespace Json

def text (s : String) : Json := .string (some s)

def nat (n : Nat) : Json := .number (toString n)

def record (fields : List (String × Json)) : Json :=
  .object (fields.map fun (name, value) => (some name, value))

/-- A value, or null where there is none. -/
def option {α : Type} (encode : α → Json) : Option α → Json
  | some a => encode a
  | none => .null

def list {α : Type} (encode : α → Json) (items : List α) : Json := .array (items.map encode)

def text? : Json → Option String
  | .string s => s
  | _ => none

def bool? : Json → Option Bool
  | .bool b => some b
  | _ => none

def items? : Json → Option (List Json)
  | .array items => some items
  | _ => none

/-- A number written as digits only. -/
def nat? : Json → Option Nat
  | .number numeral =>
      if numeral.toList.all Char.isDigit then
        some (numeral.toList.foldl (fun n c => 10 * n + (c.toNat - 48)) 0)
      else none
  | _ => none

/-- All members of an object that have a name, in order. -/
def valuesOf (name : String) : Json → List Json
  | .object members => (members.filter (·.1 == some name)).map (·.2)
  | _ => []

/-- The member of an object with a name, the last one if the name is repeated. -/
def field? (name : String) (j : Json) : Option Json := (j.valuesOf name).getLast?

/-- Keeps of the members with one name the last. -/
def distinct : Json → Json
  | .object members =>
      .object (members.foldr
        (fun m kept => if kept.any (·.1 == m.1) then kept else m :: kept) [])
  | j => j

end Json

end BendSyntax
