import BendSyntax.Json.Basic

/-!
# Writing JSON

The text of a value, without blanks. Characters below the space are written as
escapes, all others but quotation mark and backslash as they are.
-/

namespace BendSyntax.Json

def escapeChar (c : Char) : List Char :=
  if c = '"' then ['\\', '"']
  else if c = '\\' then ['\\', '\\']
  else if c.toNat < 32 then
    let digits := Nat.toDigits 16 c.toNat
    ['\\', 'u'] ++ List.replicate (4 - digits.length) '0' ++ digits
  else [c]

def writeString (acc : String) (s : String) : String :=
  (s.toList.foldl (fun acc c => (escapeChar c).foldl String.push acc) (acc.push '"')).push '"'

mutual

/-- Appends the text of a value. -/
def writeTo (acc : String) : Json → String
  | .null => acc ++ "null"
  | .bool b => acc ++ (if b then "true" else "false")
  | .number numeral => acc ++ numeral
  | .string s => writeString acc (s.getD "")
  | .array items => (writeItems (acc.push '[') true items).push ']'
  | .object members => (writeMembers (acc.push '\x7b') true members).push '\x7d'

def writeItems (acc : String) (first : Bool) : List Json → String
  | [] => acc
  | j :: items => writeItems (writeTo (if first then acc else acc.push ',') j) false items

def writeMembers (acc : String) (first : Bool) : List (Option String × Json) → String
  | [] => acc
  | (name, j) :: members =>
      let acc := writeString (if first then acc else acc.push ',') (name.getD "")
      writeMembers (writeTo (acc.push ':') j) false members

end

def write (j : Json) : String := writeTo "" j

end BendSyntax.Json
