import HarvestCircle.CatalogEdits
import HarvestCircle.LineageHistory
import HarvestCircle.Departure
import HarvestCircle.SubmissionRuns
import HarvestCircle.IdentityAtomicity
import HarvestCircle.WorkAccounting
import HarvestCircle.ActivationRuns
import HarvestCircle.ChangeDelivery
import HarvestCircle.JournalCapacity
import HarvestCircle.CountRuns
import HarvestCircle.Trace
import HarvestCircle.DispatchHistory
import HarvestCircle.Chains
import HarvestCircle.DispatchDigest
import HarvestCircle.Fingerprints
import HarvestCircle.HoldScopes
import HarvestCircle.NewDepartures
import HarvestCircle.PageCursors
import HarvestCircle.RemovalTokens
import HarvestCircle.ReturnProvenance
import HarvestCircle.TreatmentCommands
import HarvestCircle.FoundReviews
import HarvestCircle.KeyringRuns
