/-!
What is taken from libraries and has no definition of its own: what a regular expression matches, and in
which words a text is refused.
-/
namespace CheckpointedLog

/-- The libraries that a program runs with. -/
class Libraries where
  /-- Tells in which texts a regular expression finds a match, or why it is none. -/
  compile : String → Except String (String → Bool)
  /-- Why a text is no JSON document of the expected shape. -/
  jsonRefusal : String → String
  yamlRefusal : String → String

end CheckpointedLog
