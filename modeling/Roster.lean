import Roster.Backend.Json
import Roster.Main
import Roster.Proofs.Backend.Readers
import Roster.Proofs.Config.Layout
import Roster.Proofs.Config.Reorder
import Roster.Proofs.Config.Section
import Roster.Proofs.Inspection
import Roster.Proofs.Path
import Roster.Proofs.Run.Age
import Roster.Proofs.Run.Demo
import Roster.Proofs.Run.Phases
import Roster.Proofs.Session.Journal
import Roster.Proofs.Session.Memory
import Roster.Proofs.Session.Omission
import Roster.Proofs.Session.Opening
import Roster.Proofs.Session.Reordering
import Roster.Proofs.Session.Status
import Roster.Proofs.User.Age
import Roster.Proofs.User.Cut
import Roster.Proofs.User.Mismatch
import Roster.Proofs.User.RoundTrip
