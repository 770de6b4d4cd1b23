import CheckpointedLog.Discovery.Discoverer

namespace CheckpointedLog

/-- Something that a discoverer was asked for, with its answer. -/
inductive DiscovererReply where
  | started (answer : Except SourceError Unit)
  | discovered (answer : Except SourceError (List Partition))
  | marked (partition : Partition) (isNew : Bool)
  | closed (answer : Except SourceError Unit)

/-- The discoverer in a world that keeps all its replies. -/
def Discoverer.recorded {δ ω : Type} (d : Discoverer δ ω) :
    Discoverer δ (ω × List DiscovererReply) where
  create := d.create
  start s w := let (r, s, v) := d.start s w.1; (r, s, v, w.2 ++ [.started r])
  discover s w := let (r, s, v) := d.discover s w.1; (r, s, v, w.2 ++ [.discovered r])
  mark p s w := let (isNew, s, v) := d.mark p s w.1; (isNew, s, v, w.2 ++ [.marked p isNew])
  close s w := let (r, s, v) := d.close s w.1; (r, s, v, w.2 ++ [.closed r])

end CheckpointedLog
