import CheckpointedLog.Config.Reading
import CheckpointedLog.Files.FileProgram

namespace CheckpointedLog.SourceConfig

variable [Libraries]

/-- Reads a configuration file: JSON if the path says so, and otherwise YAML. -/
def ofFile (path : String) : FileTask SourceConfig := do
  let s ← FileTask.readText path
  if Path.extension? path == some "json" then FileTask.ofExcept (ofJson s)
  else FileTask.ofExcept (ofYaml s)

end CheckpointedLog.SourceConfig
