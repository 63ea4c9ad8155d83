import FortigateDns.Go.Sha256

/-!
# Canonical JSON

`encoding/json.Marshal` of strings, integers, booleans, slices and structs: fields in declaration
order, no white space, and the escapes of Go's encoder, which also escapes HTML.
-/

namespace Go

namespace Json

/-- The escape of one character, if it has one. -/
def escape (c : Char) : List Char :=
  let n := c.toNat
  let unicode := ['\\', 'u', Sha256.hexDigit (n / 4096 % 16), Sha256.hexDigit (n / 256 % 16),
    Sha256.hexDigit (n / 16 % 16), Sha256.hexDigit (n % 16)]
  if c = '"' ∨ c = '\\' then ['\\', c]
  else if n = 8 then ['\\', 'b']
  else if n = 12 then ['\\', 'f']
  else if n = 10 then ['\\', 'n']
  else if n = 13 then ['\\', 'r']
  else if n = 9 then ['\\', 't']
  else if n < 32 ∨ c = '<' ∨ c = '>' ∨ c = '&' ∨ n = 0x2028 ∨ n = 0x2029 then unicode
  else [c]

/-- A string value. -/
def string (s : String) : List Char := '"' :: s.toList.flatMap escape ++ ['"']

/-- An integer value. -/
def int (n : Int) : List Char := (toString n).toList

/-- A boolean value. -/
def bool (b : Bool) : List Char := if b then "true".toList else "false".toList

/-- The fields of a struct, with the values already encoded. -/
def fields : List (String × List Char) → List Char
  | [] => []
  | [f] => string f.1 ++ ':' :: f.2
  | f :: g :: rest => string f.1 ++ ':' :: f.2 ++ ',' :: fields (g :: rest)

/-- A struct. -/
def object (values : List (String × List Char)) : List Char := '\x7b' :: fields values ++ ['\x7d']

/-- A field that `omitempty` drops when it is empty. -/
def omitEmpty (name : String) (empty : Bool) (value : List Char) : List (String × List Char) :=
  if empty then [] else [(name, value)]

/-- The elements of a slice. -/
def elements : List (List Char) → List Char
  | [] => []
  | [v] => v
  | v :: w :: rest => v ++ ',' :: elements (w :: rest)

/-- A slice. -/
def array (values : List (List Char)) : List Char := '[' :: elements values ++ [']']

end Json

end Go
