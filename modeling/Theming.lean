import Theming.Json.Reader
import Theming.Session
import Theming.Settings.Json
import Theming.Settings.Toml
import Theming.Sheet.Arena
import Theming.Proofs.Session.Compiling
import Theming.Proofs.Sheet.Cascade
import Theming.Proofs.Sheet.Unspliced
import Theming.Proofs.Sheet.Surviving
import Theming.Proofs.Sheet.Guarantees
import Theming.Proofs.Sheet.Texts
import Theming.Proofs.Sheet.Lengths
import Theming.Proofs.Sheet.Pruning
import Theming.Proofs.Sheet.Grouping
import Theming.Proofs.Sheet.Merging
import Theming.Proofs.Sheet.PlainForm
import Theming.Proofs.Sheet.Rereading
import Theming.Proofs.Sheet.Spans
import Theming.Proofs.Sheet.Interpolations
import Theming.Proofs.Sheet.Braces
import Theming.Proofs.Style.Composing
import Theming.Proofs.Style.Registering
import Theming.Proofs.Style.Substituting
import Theming.Proofs.Style.UsedNames
import Theming.Proofs.Template.Loading
import Theming.Proofs.Token.Cycles
import Theming.Proofs.Token.Spellings
import Theming.Proofs.Token.Storing
import Theming.Proofs.Token.Pending
import Theming.Proofs.Token.Verbatim
import Theming.Proofs.Token.Arguments
import Theming.Proofs.Template.Phases
import Theming.Proofs.Sheet.Positions
import Theming.Proofs.Sheet.Declaring
import Theming.Proofs.Token.Rebuilding
import Theming.Proofs.Sheet.Relinking
import Theming.Proofs.Monitor.Alerting
import Theming.Proofs.Monitor.History
import Theming.Proofs.Sheet.NormalForm
