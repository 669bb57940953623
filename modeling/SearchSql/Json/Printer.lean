import SearchSql.Json

/-!
# JSON text

* `Json.compact` : JSON text without blanks between its parts.
* `Json.pretty` : JSON text with one member or item on a line, indented by two blanks for each
  level.

In strings the quote, the backslash and the control characters are escaped, and nothing else.
-/

namespace SearchSql

namespace Json

/-- How a character is written in a JSON string. -/
def escape (c : Char) : List Char :=
  match c with
  | '"' => ['\\', '"']
  | '\\' => ['\\', '\\']
  | '\x08' => ['\\', 'b']
  | '\t' => ['\\', 't']
  | '\n' => ['\\', 'n']
  | '\x0c' => ['\\', 'f']
  | '\r' => ['\\', 'r']
  | c =>
    if c.toNat < 0x20 then
      '\\' :: 'u' :: (Nat.toDigits 16 c.toNat).leftpad 4 '0'
    else [c]

/-- A text as a JSON string. -/
def quote (s : String) : String :=
  String.ofList ('"' :: s.toList.flatMap escape ++ ['"'])

mutual

/-- JSON text without blanks between its parts. -/
def compact : Json → String
  | .null => "null"
  | .number n => n.repr
  | .text s => quote s
  | .list items => "[" ++ ",".intercalate (compactItems items) ++ "]"
  | .object members => "\x7b" ++ ",".intercalate (compactMembers members) ++ "\x7d"

/-- The items of a list, each as compact text. -/
def compactItems : List Json → List String
  | [] => []
  | j :: js => compact j :: compactItems js

/-- The members of an object, each as compact text. -/
def compactMembers : List (String × Json) → List String
  | [] => []
  | (k, j) :: ms => (quote k ++ ":" ++ compact j) :: compactMembers ms

end

/-- The start of a line at the given level. -/
def indentation (level : Nat) : String := String.ofList (List.replicate (2 * level) ' ')

/-- Parts on lines of their own, one level deeper than the brackets around them. -/
def block (level : Nat) (opening closing : String) : List String → String
  | [] => opening ++ closing
  | parts =>
    opening ++ "\n" ++ ",\n".intercalate (parts.map fun p => indentation (level + 1) ++ p) ++
      "\n" ++ indentation level ++ closing

mutual

/-- JSON text with one member or item on a line, at the given level of indentation. -/
def prettyAt (level : Nat) : Json → String
  | .null => "null"
  | .number n => n.repr
  | .text s => quote s
  | .list items => block level "[" "]" (prettyItems (level + 1) items)
  | .object members => block level "\x7b" "\x7d" (prettyMembers (level + 1) members)

/-- The items of a list, each as indented text. -/
def prettyItems (level : Nat) : List Json → List String
  | [] => []
  | j :: js => prettyAt level j :: prettyItems level js

/-- The members of an object, each as indented text. -/
def prettyMembers (level : Nat) : List (String × Json) → List String
  | [] => []
  | (k, j) :: ms => (quote k ++ ": " ++ prettyAt level j) :: prettyMembers level ms

end

/-- JSON text with one member or item on a line. -/
def pretty (j : Json) : String := prettyAt 0 j

end Json

end SearchSql
