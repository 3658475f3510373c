import Relink.Main
import Relink.Pipeline
import Relink.Storage.Memory
import Relink.Proofs.Alias.Collision
import Relink.Proofs.Alias.Matching
import Relink.Proofs.Command.Isolation
import Relink.Proofs.Config.Ending
import Relink.Proofs.Conversion
import Relink.Proofs.Json.Comments
import Relink.Proofs.Literal.Closing
import Relink.Proofs.Pipeline
import Relink.Proofs.Project
import Relink.Proofs.Resolution.Strategy
import Relink.Proofs.Source.Comments
import Relink.Proofs.Source.Overlap
import Relink.Proofs.Specifier.Drive
import Relink.Proofs.Specifier.Escapes
import Relink.Proofs.Specifier.Idempotence
import Relink.Proofs.Specifier.Relative
import Relink.Proofs.Specifier.Wildcard
