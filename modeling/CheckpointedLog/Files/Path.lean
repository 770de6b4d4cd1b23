namespace CheckpointedLog.Path

def segments (cs : List Char) : List (List Char) := (cs.splitOn '/').filter (· != [])

/-- The names between the slashes, apart from those that stay at the same place. -/
def names (path : String) : List String :=
  ((segments path.toList).filter (· != ['.'])).map String.ofList

/-- Whether the path ends in a place that it was at before. -/
def endsInDot (path : String) : Bool := (segments path.toList).getLast? == some ['.']

def meansDirectory (path : String) : Bool :=
  path.toList.getLast? == some '/' || endsInDot path

/-- Whether the path does not end in a name of its own. -/
def endsInDots (path : String) : Bool :=
  match (segments path.toList).getLast? with
  | some name => name == ['.'] || name == ['.', '.']
  | none => true

def isAbsolute (path : String) : Bool := path.toList.head? == some '/'

/-- A reversed path without the slashes, and the dots after slashes, at its end. -/
def trimReversed : List Char → List Char
  | '/' :: c :: cs => trimReversed (c :: cs)
  | '.' :: '/' :: cs => trimReversed ('/' :: cs)
  | cs => cs
termination_by structural cs => cs

/-- The path up to its last name, and that name, both as characters. -/
def splitLast (path : String) : List Char × List Char :=
  let reversed := trimReversed path.toList.reverse
  ((reversed.dropWhile (· != '/')).reverse, (reversed.takeWhile (· != '/')).reverse)

def parent? (path : String) : Option String :=
  let (front, name) := splitLast path
  if name.isEmpty then none else some (String.ofList (trimReversed front.reverse).reverse)

/-- The last name, if it is one of its own. -/
def fileName? (path : String) : Option (List Char) :=
  let name := (splitLast path).2
  if name.isEmpty || name == ['.'] || name == ['.', '.'] then none else some name

/-- A name up to its last dot, and what follows the dot. A dot at the beginning does not count. -/
def splitExtension (name : List Char) : List Char × Option (List Char) :=
  let reversed := name.reverse
  match reversed.dropWhile (· != '.') with
  | [] | [_] => (name, none)
  | _ :: stem => (stem.reverse, some (reversed.takeWhile (· != '.')).reverse)

def extension? (path : String) : Option String :=
  (fileName? path).bind fun name => (splitExtension name).2.map String.ofList

/-- The path with another extension; a path that ends in no name stays as it is. -/
def withExtension (path extension : String) : String :=
  match fileName? path with
  | none => path
  | some name =>
    String.ofList ((splitLast path).1 ++ (splitExtension name).1) ++ "." ++ extension

def join (directory name : String) : String :=
  if directory.isEmpty || isAbsolute name then name
  else if directory.toList.getLast? == some '/' then directory ++ name
  else directory ++ "/" ++ name

end CheckpointedLog.Path
