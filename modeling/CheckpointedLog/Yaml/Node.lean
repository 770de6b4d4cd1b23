import CheckpointedLog.Yaml.Token

namespace CheckpointedLog.Yaml

inductive Node where
  | scalar (tag : Option String) (style : ScalarStyle) (text : String)
  | sequence (tag : Option String) (items : List Node)
  | mapping (tag : Option String) (pairs : List (Node × Node))
deriving Inhabited, Repr

namespace Node

def missing (tag : Option String := none) : Node := scalar tag .plain ""

/-- The tokens that are still to be read, the nodes that aliases may name, and the handles of tags
with their expansions. -/
structure Source where
  tokens : List Token
  anchors : List (String × Node) := []
  handles : List (String × String) := []

abbrev Read := StateT Source Option

def peek : Read (Option Token) := do return (← get).tokens.head?

def drop : Read Unit := modify fun s => { s with tokens := s.tokens.tail }

/-- Goes past the next token if it is `t`; also tells whether it was. -/
def skip? (t : Token) : Read Bool := do
  if (← peek) == some t then drop; return true
  else return false

/-- Whether the next token is one of `ts`, or there is none. -/
def atOneOf (ts : List Token) : Read Bool := do return (← peek).all ts.contains

/-- Names a node, in place of an earlier one of that name. -/
def remember (name : String) (n : Node) : Read Unit :=
  modify fun s => { s with anchors := (name, n) :: s.anchors.filter (·.1 != name) }

/-- Takes a name from the node that has it, since a new one is being read. -/
def forget (name : String) : Read Unit :=
  modify fun s => { s with anchors := s.anchors.filter (·.1 != name) }

def lookUp (name : String) : Read Node := fun s => do
  let n ← s.anchors.lookup name
  return (n, s)

def expand (handle suffix : String) : Read String := fun s => do
  if handle.isEmpty then return (suffix, s)
  else
    let expansion ← s.handles.lookup handle
    return (expansion ++ suffix, s)

/-- The anchor and the tag before a node, in either order. -/
def properties : Read (Option String × Option String) := do
  match ← peek with
  | some (.anchor name) =>
    drop
    match ← peek with
    | some (.tag handle suffix) => drop; return (some name, some (← expand handle suffix))
    | _ => return (some name, none)
  | some (.tag handle suffix) =>
    drop
    match ← peek with
    | some (.anchor name) => drop; return (some name, some (← expand handle suffix))
    | _ => return (none, some (← expand handle suffix))
  | _ => return (none, none)

mutual

/-- Reads a node. `inBlock` tells whether block collections may begin, `indentless` whether a
sequence may begin without being indented, as the value of a key. -/
def read (inBlock indentless : Bool) : (fuel : Nat) → Read Node
  | 0 => failure
  | fuel + 1 => do
    match ← peek with
    | some (.alias name) => drop; lookUp name
    | _ =>
      let (anchor, tag) ← properties
      if let some name := anchor then forget name
      let n ← content inBlock indentless tag (anchor.isSome || tag.isSome) fuel
      if let some name := anchor then remember name n
      return n

/-- Reads a node after its properties, if it has any. -/
def content (inBlock indentless : Bool) (tag : Option String) (hasProperties : Bool) :
    (fuel : Nat) → Read Node
  | 0 => failure
  | fuel + 1 => do
    match ← peek with
    | some (.scalar style text) => drop; return scalar tag style text
    | some .flowSequenceStart => drop; sequence tag <$> flowItems true [] fuel
    | some .flowMappingStart => drop; mapping tag <$> flowPairs true [] fuel
    | some .blockEntry =>
      if indentless then sequence tag <$> blockItems true [] fuel
      else if hasProperties then return missing tag
      else failure
    | some .blockSequenceStart =>
      if inBlock then drop; sequence tag <$> blockItems false [] fuel
      else if hasProperties then return missing tag
      else failure
    | some .blockMappingStart =>
      if inBlock then drop; mapping tag <$> blockPairs [] fuel
      else if hasProperties then return missing tag
      else failure
    | _ => if hasProperties then return missing tag else failure

/-- Reads the items of a block sequence; `found` holds the ones before, in reverse. A sequence that
is not indented ends at the first token that is no item. -/
def blockItems (indentless : Bool) (found : List Node) : (fuel : Nat) → Read (List Node)
  | 0 => failure
  | fuel + 1 => do
    if ← skip? .blockEntry then
      let ends := if indentless then [.blockEntry, .key, .value, .blockEnd]
        else [.blockEntry, .blockEnd]
      let item ← if ← atOneOf ends then pure missing else read true false fuel
      blockItems indentless (item :: found) fuel
    else if indentless then return found.reverse
    else if ← skip? .blockEnd then return found.reverse
    else failure

/-- Reads the pairs of a block mapping; `found` holds the ones before, in reverse. -/
def blockPairs (found : List (Node × Node)) : (fuel : Nat) → Read (List (Node × Node))
  | 0 => failure
  | fuel + 1 => do
    let ends := [.key, .value, .blockEnd]
    if ← skip? .blockEnd then return found.reverse
    else if ← skip? .key then
      let k ← if ← atOneOf ends then pure missing else read true true fuel
      let v ←
        if ← skip? .value then
          if ← atOneOf ends then pure missing else read true true fuel
        else pure missing
      blockPairs ((k, v) :: found) fuel
    else failure

/-- Reads the items of a flow sequence; `found` holds the ones before, in reverse. An item with a
colon is a mapping of one pair. -/
def flowItems (first : Bool) (found : List Node) : (fuel : Nat) → Read (List Node)
  | 0 => failure
  | fuel + 1 => do
    if ← skip? .flowSequenceEnd then return found.reverse
    else
      if !first then
        unless ← skip? .flowEntry do failure
      if ← skip? .flowSequenceEnd then return found.reverse
      else if ← skip? .key then
        let ends := [.flowEntry, .flowSequenceEnd]
        let k ←
          if ← atOneOf (.value :: ends) then drop; pure missing else read false false fuel
        let v ←
          if ← skip? .value then
            if ← atOneOf ends then pure missing else read false false fuel
          else pure missing
        flowItems false (mapping none [(k, v)] :: found) fuel
      else
        let item ← read false false fuel
        flowItems false (item :: found) fuel

/-- Reads the pairs of a flow mapping; `found` holds the ones before, in reverse. -/
def flowPairs (first : Bool) (found : List (Node × Node)) :
    (fuel : Nat) → Read (List (Node × Node))
  | 0 => failure
  | fuel + 1 => do
    if ← skip? .flowMappingEnd then return found.reverse
    else
      if !first then
        unless ← skip? .flowEntry do failure
      if ← skip? .flowMappingEnd then return found.reverse
      else if ← skip? .key then
        let ends := [.flowEntry, .flowMappingEnd]
        let k ← if ← atOneOf (.value :: ends) then pure missing else read false false fuel
        let v ←
          if ← skip? .value then
            if ← atOneOf ends then pure missing else read false false fuel
          else pure missing
        flowPairs false ((k, v) :: found) fuel
      else
        let k ← read false false fuel
        flowPairs false ((k, missing) :: found) fuel

end

/-- Reads the directives before a document: the version, at most once, and handles of tags, each at
most once. -/
def directives (versioned : Bool) (found : List (String × String)) :
    (fuel : Nat) → Read (Bool × List (String × String))
  | 0 => failure
  | fuel + 1 => do
    match ← peek with
    | some (.version major minor) =>
      if versioned || major != 1 || !(minor == 1 || minor == 2) then failure
      else drop; directives true found fuel
    | some (.tagHandle handle expansion) =>
      if (found.lookup handle).isSome then failure
      else drop; directives versioned ((handle, expansion) :: found) fuel
    | _ => return (versioned, found)

def knownHandles : List (String × String) := [("!", "!"), ("!!", "tag:yaml.org,2002:")]

def document (fuel : Nat) : Read Node := do
  let (versioned, found) ← directives false [] fuel
  modify fun s => { s with handles := found ++ knownHandles }
  let marked ← skip? .documentStart
  if !marked && (versioned || !found.isEmpty) then failure
  let n ←
    if marked then
      match ← peek with
      | none | some .documentEnd => pure missing
      | some .documentStart | some (.version ..) | some (.tagHandle ..) => failure
      | some _ => read true false fuel
    else read true false fuel
  modify fun s => { s with tokens := s.tokens.dropWhile (· == .documentEnd) }
  match ← peek with
  | none => return n
  | some _ => failure

/-- The document that the tokens make up, if there is exactly one. -/
def ofTokens? (tokens : List Token) : Option Node :=
  (document (3 * tokens.length + 3) { tokens := tokens }).map (·.1)

def parse? (s : String) : Option Node := (Token.ofText? s).bind ofTokens?

end Node

end CheckpointedLog.Yaml
