import CheckpointedLog.Command.Parameter

namespace CheckpointedLog.Command

inductive OutputFormat where
  /-- On one line. -/
  | json
  /-- Indented. -/
  | pretty
deriving DecidableEq, Repr

inductive Subcommand where
  | inspect
  | migrate
  | assign
  | snapshots
  | validate
deriving DecidableEq, Repr

namespace Subcommand

def all : List Subcommand := [inspect, migrate, assign, snapshots, validate]

def name : Subcommand → String
  | inspect => "inspect"
  | migrate => "migrate"
  | assign => "assign"
  | snapshots => "snapshots"
  | validate => "validate"

def ofName? (word : String) : Option Subcommand := all.find? fun s => s.name == word

end Subcommand

def pathParameter (name : String) : Parameter :=
  { name := name, kind := .path, isPositional := true, isRequired := true }

def releaseOption : Parameter := { name := "from", kind := .text }

def numberOption (name : String) : Parameter := { name := name, kind := .number, isRequired := true }

def Subcommand.parameters : Subcommand → List Parameter
  | inspect => [pathParameter "snapshot", releaseOption]
  | migrate => [pathParameter "input", pathParameter "output", releaseOption]
  | assign =>
    [numberOption "subtasks", numberOption "index",
      { name := "partitions", kind := .text, isPositional := true, isRequired := true,
        isRepeated := true }]
  | snapshots => [pathParameter "dir"]
  | validate => [pathParameter "config"]

/-- The options that may stand before and after the subcommand. -/
def commonOptions : List Parameter :=
  [{ name := "format", kind := .choice ["json", "pretty"], short := some 'f' },
    { name := "verbose", kind := .flag, short := some 'v' },
    { name := "help", kind := .help, short := some 'h' }]

/-- The options that may stand before the subcommand. -/
def leadingOptions : List Parameter :=
  commonOptions ++ [{ name := "version", kind := .version, short := some 'V' }]

inductive Request where
  | inspect (snapshot : String) (release : Option String)
  | migrate (input output : String) (release : Option String)
  | assign (subtasks index : UInt64) (partitions : List String)
  | snapshots (directory : String)
  | validate (config : String)
deriving DecidableEq, Repr

structure Invocation where
  format : OutputFormat := .json
  verbose : Bool := false
  request : Request
deriving DecidableEq, Repr

/-- The request that the values of a subcommand make up. -/
def Subcommand.request? (s : Subcommand) (l : Level) : Option Request := do
  let number (name : String) : Option UInt64 :=
    (l.value? name).bind fun v => Decimal.uint64? v.toList
  match s with
  | inspect => return .inspect (← l.value? "snapshot") (l.value? "from")
  | migrate => return .migrate (← l.value? "input") (← l.value? "output") (l.value? "from")
  | assign => return .assign (← number "subtasks") (← number "index") (l.valuesOf "partitions")
  | snapshots => return .snapshots (← l.value? "dir")
  | validate => return .validate (← l.value? "config")

def helpAbout : List String → UsageFault
  | [] => .helpRequested
  | [word] =>
    if word == "help" || (Subcommand.ofName? word).isSome then .helpRequested
    else .unknownSubcommand
  | _ => .unknownSubcommand

/-- Reads the words before the subcommand; also gives the subcommand and the words after it. -/
def readLeading (l : Level) :
    List String → Except UsageFault (Level × Option (Subcommand × List String))
  | [] => .ok (l, none)
  | word :: rest =>
    let mayBeSubcommand := !l.isTrailing && !l.awaitsValue
    if mayBeSubcommand && word == "help" then .error (helpAbout rest)
    else match (Subcommand.ofName? word).filter fun _ => mayBeSubcommand with
      | some s => .ok (l, some (s, rest))
      | none => do
        let isName := word == "help" || (Subcommand.ofName? word).isSome
        let surplus := if l.isTrailing && isName then .unknownArgument else .unknownSubcommand
        readLeading (← l.readWord leadingOptions word surplus) rest

def withoutSubcommand (l : Level) : UsageFault :=
  if l.values.isEmpty then .nothingRequested else .missingSubcommand

def readSubcommand (s : Subcommand) (words : List String) : Except UsageFault Level := do
  let (positionals, options) := s.parameters.partition (·.isPositional)
  let start : Level := { positionals := positionals }
  let l ← words.foldlM
    (fun (l : Level) word => l.readWord (options ++ commonOptions) word .unknownArgument) start
  l.finish s.parameters

/-- Reads a command line. An option after the subcommand wins over the same one before it. -/
def Invocation.ofWords (words : List String) : Except UsageFault Invocation := do
  let (leading, subcommand) ← readLeading {} words
  let some (s, rest) := subcommand | throw (withoutSubcommand (← leading.settle))
  let l ← readSubcommand s rest
  let leading ← leading.settle
  let format := (l.value? "format").or (leading.value? "format")
  let isVerbose (l : Level) : Bool := (l.value? "verbose").isSome
  let some request := s.request? l | throw .missingArgument
  return {
    format := if format == some "pretty" then .pretty else .json
    verbose := isVerbose l || isVerbose leading
    request := request }

end CheckpointedLog.Command
