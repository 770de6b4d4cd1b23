import CheckpointedLog.Text.Digits

/-!
Words of a command line and the parameters that they give values to. A word may begin an option, be
the value of the option before it, or be the value of the next positional parameter. The values of a
parameter are checked when the next one begins, so that of two mistakes the one that is found first
need not be the one that was made first.
-/
namespace CheckpointedLog.Command

/-- Why a command line is not understood, or what it asks for instead of a command. -/
inductive UsageFault where
  | helpRequested
  | versionRequested
  /-- Nothing was asked for. -/
  | nothingRequested
  | missingSubcommand
  | unknownSubcommand
  | unknownArgument
  | missingArgument
  /-- A value is missing or is not one of those that are allowed. -/
  | invalidValue
  /-- A value is not a number. -/
  | malformedValue
  | surplusValue
  /-- A parameter was given twice. -/
  | conflict
deriving DecidableEq, Repr

def UsageFault.message : UsageFault → String
  | helpRequested => "help was requested"
  | versionRequested => "the version was requested"
  | nothingRequested => "a subcommand is required"
  | missingSubcommand => "a subcommand is required"
  | unknownSubcommand => "there is no such subcommand"
  | unknownArgument => "unexpected argument"
  | missingArgument => "a required argument is missing"
  | invalidValue => "a value is missing or not allowed"
  | malformedValue => "a value is not a number"
  | surplusValue => "a value was given to a flag"
  | conflict => "an argument cannot be used several times"

inductive ValueKind where
  | help
  | version
  | flag
  | text
  /-- A text that is not empty. -/
  | path
  | number
  | choice (names : List String)
deriving DecidableEq, Repr

namespace ValueKind

def takesValue : ValueKind → Bool
  | help | version | flag => false
  | _ => true

def check (value : String) : ValueKind → Except UsageFault Unit
  | path => if value.isEmpty then .error .invalidValue else .ok ()
  | number =>
    if (Decimal.uint64? value.toList).isSome then .ok () else .error .malformedValue
  | choice names => if names.contains value then .ok () else .error .invalidValue
  | _ => .ok ()

end ValueKind

/-- A parameter: an option, or a positional one if it has no name on the command line. -/
structure Parameter where
  name : String
  kind : ValueKind
  isPositional : Bool := false
  short : Option Char := none
  isRequired : Bool := false
  /-- Whether it may be given several times. -/
  isRepeated : Bool := false
deriving DecidableEq, Repr

/-- What was read of one level of a command line: of the words before a subcommand, or of those after
it. -/
structure Level where
  /-- The values in the order in which they were checked. -/
  values : List (String × String) := []
  /-- The parameter whose values are not checked yet. -/
  pending : Option (Parameter × List String) := none
  /-- Whether the next word is the value of the pending option unless it begins an option. -/
  awaitsValue : Bool := false
  /-- The positional parameters that have no value yet. -/
  positionals : List Parameter := []
  /-- Whether all further words are values of positional parameters. -/
  isTrailing : Bool := false

namespace Level

def valuesOf (l : Level) (name : String) : List String :=
  (l.values.filter (·.1 == name)).map (·.2)

def value? (l : Level) (name : String) : Option String := (l.valuesOf name).head?

def store (l : Level) (p : Parameter) (values : List String) : Except UsageFault Level := do
  if p.kind.takesValue && values.isEmpty then throw .invalidValue
  if !p.isRepeated && (l.value? p.name).isSome then throw .conflict
  values.forM fun v => p.kind.check v
  return { l with values := l.values ++ values.map (p.name, ·) }

def settle (l : Level) : Except UsageFault Level :=
  match l.pending with
  | none => .ok l
  | some (p, values) => { l with pending := none, awaitsValue := false }.store p values

def trigger (l : Level) (p : Parameter) : Except UsageFault Level :=
  match p.kind with
  | .help => .error .helpRequested
  | .version => .error .versionRequested
  | _ => l.store p [""]

/-- Begins an option, with a value if one is written in the same word. -/
def beginOption (l : Level) (p : Parameter) (attached : Option String) :
    Except UsageFault Level := do
  let l ← l.settle
  match attached with
  | some v => l.store p [v]
  | none =>
    if p.kind.takesValue then return { l with pending := some (p, []), awaitsValue := true }
    else l.trigger p

/-- Reads `--name` or `--name=value` after the hyphens. -/
def readLong (options : List Parameter) (l : Level) (word : List Char) :
    Except UsageFault Level :=
  let name := String.ofList (word.takeWhile (· != '='))
  let attached := match word.dropWhile (· != '=') with
    | [] => none
    | _ :: value => some (String.ofList value)
  match options.find? fun p => p.name == name with
  | none => .error .unknownArgument
  | some p =>
    if attached.isSome && !p.kind.takesValue then .error .surplusValue
    else l.beginOption p attached

/-- Reads one-letter options after the hyphen. A letter that takes a value takes the rest of the word,
if there is any. -/
def readShort (options : List Parameter) (l : Level) : List Char → Except UsageFault Level
  | [] => .ok l
  | c :: rest => do
    let some p := options.find? fun p => p.short == some c | throw .unknownArgument
    if p.kind.takesValue then
      match rest with
      | [] => l.beginOption p none
      | '=' :: value | value => l.beginOption p (some (String.ofList value))
    else
      let l ← l.beginOption p none
      readShort options l rest

def readPositional (l : Level) (word : String) (surplus : UsageFault) : Except UsageFault Level :=
  match l.positionals with
  | [] => .error surplus
  | p :: others => do
    match l.pending with
    | some (q, values) =>
      if q == p && p.isRepeated then
        return { l with pending := some (p, values ++ [word]) }
    | none => pure ()
    let l ← l.settle
    return { l with
      pending := some (p, [word])
      positionals := if p.isRepeated then p :: others else others }

/-- Reads one word. `surplus` is the fault of a value that no parameter takes. -/
def readWord (options : List Parameter) (l : Level) (word : String) (surplus : UsageFault) :
    Except UsageFault Level :=
  if l.isTrailing then l.readPositional word surplus
  else match word.toList with
    | ['-', '-'] => .ok { l with isTrailing := true }
    | '-' :: '-' :: name => l.readLong options name
    | '-' :: c :: letters => l.readShort options (c :: letters)
    | _ =>
      match l.awaitsValue, l.pending with
      | true, some (p, values) =>
        .ok { l with pending := some (p, values ++ [word]), awaitsValue := false }
      | _, _ => l.readPositional word surplus

/-- Checks the last values, and that no required parameter is missing. -/
def finish (l : Level) (parameters : List Parameter) : Except UsageFault Level := do
  let l ← l.settle
  if parameters.any fun p => p.isRequired && (l.value? p.name).isNone then throw .missingArgument
  return l

end Level

end CheckpointedLog.Command
