import CheckpointedLog.Pattern.CharClass
import CheckpointedLog.Text.Script

namespace CheckpointedLog.NamedClass

/-- The ASCII classes that are written between `[:` and `:]`. -/
def posix : List (String × Text.Ranges) :=
  [("alnum", [(0x30, 0x39), (0x41, 0x5A), (0x61, 0x7A)]), ("alpha", [(0x41, 0x5A), (0x61, 0x7A)]),
    ("ascii", [(0, 0x7F)]), ("blank", [(0x9, 0x9), (0x20, 0x20)]),
    ("cntrl", [(0, 0x1F), (0x7F, 0x7F)]), ("digit", [(0x30, 0x39)]), ("graph", [(0x21, 0x7E)]),
    ("lower", [(0x61, 0x7A)]), ("print", [(0x20, 0x7E)]),
    ("punct", [(0x21, 0x2F), (0x3A, 0x40), (0x5B, 0x60), (0x7B, 0x7E)]),
    ("space", [(0x9, 0xD), (0x20, 0x20)]), ("upper", [(0x41, 0x5A)]),
    ("word", [(0x30, 0x39), (0x41, 0x5A), (0x5F, 0x5F), (0x61, 0x7A)]),
    ("xdigit", [(0x30, 0x39), (0x41, 0x46), (0x61, 0x66)])]

/-- The class that a lower-case letter after a backslash stands for: digits, blanks or characters of
words, of ASCII only or of all scripts. -/
def ofLetter? (unicode : Bool) : Char → Option Text.Ranges
  | 'd' => some (if unicode then Text.decimalDigits else [(0x30, 0x39)])
  | 's' => some (if unicode then Text.whitespace else [(0x9, 0xD), (0x20, 0x20)])
  | 'w' => some (if unicode then Text.wordChars else (posix.lookup "word").getD [])
  | _ => none

def lowercase : Text.Ranges :=
  Text.Category.charsOf [.lowercaseLetter]
    ++ [(0xAA, 0xAA), (0xBA, 0xBA), (0x2B0, 0x2B8), (0x2C0, 0x2C1), (0x2E0, 0x2E4), (0x345, 0x345),
      (0x37A, 0x37A), (0x10FC, 0x10FC), (0x1D2C, 0x1D6A), (0x1D78, 0x1D78), (0x1D9B, 0x1DBF),
      (0x2071, 0x2071), (0x207F, 0x207F), (0x2090, 0x209C), (0x2170, 0x217F), (0x24D0, 0x24E9),
      (0x2C7C, 0x2C7D), (0xA69C, 0xA69D), (0xA770, 0xA770), (0xA7F8, 0xA7F9), (0xAB5C, 0xAB5F)]

def uppercase : Text.Ranges :=
  Text.Category.charsOf [.uppercaseLetter]
    ++ [(0x2160, 0x216F), (0x24B6, 0x24CF), (0x1F130, 0x1F149), (0x1F150, 0x1F169),
      (0x1F170, 0x1F189)]

def binary : List (List String × Text.Ranges) :=
  [(["alphabetic", "alpha"], Text.alphabetic), (["lowercase", "lower"], lowercase),
    (["uppercase", "upper"], uppercase),
    (["whitespace", "wspace", "space"], Text.whitespace),
    (["asciihexdigit", "ahex"], [(0x30, 0x39), (0x41, 0x46), (0x61, 0x66)])]

/-- The characters of the categories that a name stands for. -/
def category? (name : String) : Option CharClass :=
  match name with
  | "any" => some (.ranges [(0, 0x10FFFF)])
  | "assigned" => some (.compl (.ranges (Text.Category.charsOf [.unassigned])))
  | "ascii" => some (.ranges [(0, 0x7F)])
  | _ => (Text.Category.ofName? name).map fun cs => .ranges (Text.Category.charsOf cs)

/-- The name of a property or of one of its values without blanks, underscores, hyphens and a
leading `is`, in small letters. -/
def normalName (name : List Char) : String :=
  let letters := name.filterMap fun c =>
    if c == ' ' || c == '_' || c == '-' || 0x80 ≤ c.toNat then none else some c.toLower
  match name.map Char.toLower with
  | 'i' :: 's' :: _ =>
    let rest := letters.drop 2
    if rest == ['c'] then "isc" else String.ofList rest
  | _ => String.ofList letters

/-- The class of a property given by one name. Three short names are those of categories rather than
of properties. -/
def ofName? (name : List Char) : Option CharClass :=
  let name := normalName name
  let isBinary := !(["cf", "sc", "lc"].contains name)
  match (binary.find? fun (names, _) => isBinary && names.contains name) with
  | some (_, rs) => some (.ranges rs)
  | none => (category? name).or ((Text.scriptOfName? name).map .ranges)

/-- The class of the characters for which a property has a value. -/
def ofValue? (property value : List Char) : Option CharClass :=
  let value := normalName value
  if ["gc", "generalcategory"].contains (normalName property) then category? value
  else if ["sc", "script", "scx", "scriptextensions"].contains (normalName property) then
    (Text.scriptOfName? value).map .ranges
  else none

end CheckpointedLog.NamedClass
