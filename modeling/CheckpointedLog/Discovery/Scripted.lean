import CheckpointedLog.Discovery.Discoverer

namespace CheckpointedLog

inductive DiscovererCall where
  | start
  | discover
  | mark (partition : Partition)
  | close
deriving DecidableEq, Repr

/-- The answers that are still to be given. -/
structure ScriptedDiscoverer where
  partitions : List Partition := []
  startFailure : Option SourceError := none
  /-- The failures of the next discoveries. -/
  discoverFailures : List SourceError := []
  closeFailure : Option SourceError := none

namespace ScriptedDiscoverer

/-- The result of a request that fails in one way or not at all. -/
def outcome (failure : Option SourceError) : Except SourceError Unit := failure.elim (.ok ()) .error

/-- Scripted discovery, beginning with the given answers whenever a discoverer is created. Every
partition is new to it. -/
def discoverer (ω : Type) (script : ScriptedDiscoverer) :
    Discoverer ScriptedDiscoverer (ω × List DiscovererCall) where
  create _ := script
  start d w := (outcome d.startFailure, d, w.1, w.2 ++ [.start])
  discover d w :=
    match d.discoverFailures with
    | [] => (.ok d.partitions, d, w.1, w.2 ++ [.discover])
    | e :: rest => (.error e, { d with discoverFailures := rest }, w.1, w.2 ++ [.discover])
  mark p d w := (true, d, w.1, w.2 ++ [.mark p])
  close d w := (outcome d.closeFailure, d, w.1, w.2 ++ [.close])

end ScriptedDiscoverer

end CheckpointedLog
