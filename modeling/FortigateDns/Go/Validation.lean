import FortigateDns.Go.Strings

/-!
# Names as the Kubernetes API validates them

The checks of RFC 1123 labels and subdomains, and of the values of object labels.
-/

namespace Go

/-- A lower case letter or a digit. -/
def isLowerAlnum (c : Char) : Bool := ('a' ≤ c && c ≤ 'z') || ('0' ≤ c && c ≤ '9')

/-- The pattern of a label: letters, digits and inner hyphens. -/
def labelPattern (l : List Char) : Bool :=
  !l.isEmpty && l.all (fun c => isLowerAlnum c || c == '-') && l.head? != some '-' && l.getLast? != some '-'

/-- The labels of a name. -/
def labels (l : List Char) : List (List Char) := l.splitOn '.'

/-- `IsDNS1123Label`. -/
def isDNS1123Label (s : String) : Bool := decide (s.toList.length ≤ 63) && labelPattern s.toList

/-- `IsDNS1123Subdomain`. -/
def isDNS1123Subdomain (s : String) : Bool := decide (s.toList.length ≤ 253) && (labels s.toList).all labelPattern

/-- A letter or a digit. -/
def isAlnum (c : Char) : Bool := isLowerAlnum c || ('A' ≤ c && c ≤ 'Z')

/-- `IsValidLabelValue`: empty, or short with a letter or a digit at both ends. -/
def isValidLabelValue (s : String) : Bool :=
  s.toList.isEmpty ||
    (decide (s.toList.length ≤ 63) && s.toList.all (fun c => isAlnum c || c == '-' || c == '_' || c == '.') &&
      s.toList.head?.any isAlnum && s.toList.getLast?.any isAlnum)

end Go
