import Relink.Source.Dialect
import Relink.Source.Node

namespace Relink.Source

structure Outline where
  root : Node
  broken : Bool

/-- What reads the octets of a source into its tree. -/
abbrev Grammar := Dialect → Bytes → Outline

end Relink.Source
