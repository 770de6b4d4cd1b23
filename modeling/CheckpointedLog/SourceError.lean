import CheckpointedLog.Partition

namespace CheckpointedLog

/-- A failure of the log source or of the broker behind it. -/
inductive SourceError where
  /-- The configuration does not fit the request. -/
  | config (message : String)
  | invalidValue (field message : String)
  /-- A YAML document is malformed or does not have the expected shape. -/
  | yamlSyntax (message : String)
  /-- A JSON document is malformed or does not have the expected shape. -/
  | jsonSyntax (message : String)
  /-- A topic pattern is not a regular expression. -/
  | invalidPattern (message : String)
  /-- The partitions could not be listed. -/
  | discovery (message : String)
  /-- The partitions could not be listed in the allowed number of attempts. -/
  | discoveryExhausted (attempts : UInt32) (message : String)
  | transient (message : String)
  | timeout (ms : UInt64)
  /-- Reading a partition failed for good. -/
  | poll (partition : Partition) (offset : Int64) (message : String)
  | commit (message : String)
  | corruptState (message : String)
  /-- A snapshot has a newer format. -/
  | unsupportedVersion (version supported : UInt32)
  | invalidState (operation state : String)
  | io (message : String)
  | fileNotFound (path : String)
  /-- A failure with its context. -/
  | other (message : String)
  /-- A failure reported by an outside library. -/
  | foreign (message : String)
deriving DecidableEq, Repr

namespace SourceError

def message : SourceError → String
  | config m => "Configuration error: " ++ m
  | invalidValue field m => "Invalid config value for '" ++ field ++ "': " ++ m
  | yamlSyntax m => "Failed to parse YAML: " ++ m
  | jsonSyntax m => "Failed to parse JSON: " ++ m
  | invalidPattern m => "Invalid topic pattern: " ++ m
  | discovery m => "Partition discovery failed: " ++ m
  | discoveryExhausted attempts m =>
    "Partition discovery failed after " ++ toString attempts.toNat ++ " attempts: " ++ m
  | transient m => "Transient broker error: " ++ m
  | timeout ms => "Broker request timed out after " ++ toString ms.toNat ++ "ms"
  | poll p offset m =>
    "Poll failed for " ++ p.display ++ " at offset " ++ toString offset.toInt ++ ": " ++ m
  | commit m => "Offset commit failed: " ++ m
  | corruptState m => "Corrupt snapshot state: " ++ m
  | unsupportedVersion version supported =>
    "Unsupported snapshot format version " ++ toString version.toNat ++ " (newest supported is "
      ++ toString supported.toNat ++ ")"
  | invalidState operation state => "Cannot " ++ operation ++ " while connector is " ++ state
  | io m => "IO error: " ++ m
  | fileNotFound path => "File not found: " ++ path
  | other m => m
  | foreign m => m

/-- Failures that the component which met them tries again. -/
def isRetryable : SourceError → Bool
  | transient _ | timeout _ | discovery _ => true
  | _ => false

def inContext (note : String) (e : SourceError) : SourceError := other (note ++ ": " ++ e.message)

end SourceError

end CheckpointedLog
