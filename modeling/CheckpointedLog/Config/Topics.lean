import CheckpointedLog.Document
import CheckpointedLog.Libraries
import CheckpointedLog.SourceError

/-!
Which topics are read: those of a list, or those whose whole name matches a pattern. The pattern is put
into a group between the two ends of the name, so that none of its alternatives can match less.
-/
namespace CheckpointedLog

inductive Topics where
  | list (names : List String)
  | pattern (text : String)
deriving DecidableEq, Repr, Inhabited

namespace Topics

/-- The pattern between the two ends of a name. -/
def anchored (text : String) : String := "^(?:" ++ text ++ ")$"

/-- A subscription that is ready to be asked about many topics. -/
inductive Matcher where
  | names (names : List String)
  | expression (found : String → Bool)

def Matcher.covers (m : Matcher) (topic : String) : Bool :=
  match m with
  | .names all => all.contains topic
  | .expression found => found topic

section

variable [Libraries]

/-- In which topic names the anchored pattern is found. -/
def compilePattern : Topics → Except SourceError (String → Bool)
  | list _ => .error (.config "topic list has no pattern")
  | pattern text => (Libraries.compile (anchored text)).mapError .invalidPattern

def matcher : Topics → Except SourceError Matcher
  | list names => .ok (.names names)
  | t@(pattern _) => t.compilePattern.map .expression

/-- Whether a topic is covered; a pattern that is no expression covers none. -/
def covers (t : Topics) (topic : String) : Bool :=
  match t.matcher with
  | .ok m => m.covers topic
  | .error _ => false

end

variable {ν : Type} [Document ν]

/-- Reads a subscription among other fields. The list wins if both are given, unless it is no list of
texts. -/
def ofFields? (fields : List (String × ν)) : Option Topics :=
  let names? (n : ν) : Option (List String) :=
    (Document.keptItems? n).bind (·.mapM Document.keptText?)
  ((Document.required fields "topics" names?).map list).or
    ((Document.required fields "topic_pattern" Document.keptText?).map pattern)

def ofDocument? (n : ν) : Option Topics :=
  (Document.pairs? n).bind fun fields =>
    if fields.all fun f => Document.canKeep f.2 then ofFields? fields else none

end Topics

end CheckpointedLog
