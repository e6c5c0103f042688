import HarvestCircle.Actuals
import HarvestCircle.HoldTiming

/-! # Reports of stock that had already been taken

A report is kept as it was made.  What it names are claims, and what it does not say is
never filled in; only a later review takes packs out of stock.
-/
namespace HarvestCircle
open Checked

def hubActualReportSourceCandidates : Nat := 64

/-- A place the packs are said to have been taken from. -/
structure ReportedActualSource where
  trace : HubRecordId
  group : Option HubRecordId
  location : Option HubRecordId
  deriving DecidableEq, Repr

/-- What a report claims of its sources; an established claim is still only a claim. -/
inductive ActualReportSources where
  | unknown
  | possible (candidates : List ReportedActualSource)
  | establishedClaim (source : ReportedActualSource)
  deriving DecidableEq, Repr

namespace ActualReportSources

/-- Candidates are bounded and different from each other. -/
def validate : ActualReportSources → Except ActualReportError Unit
  | possible candidates => do
    refuse (candidates = []) .invalidInput
    refuse (candidates.length > hubActualReportSourceCandidates) .capacity
    refuse (¬ candidates.Nodup) .invalidInput
  | unknown => .ok ()
  | establishedClaim _ => .ok ()

def candidates : ActualReportSources → List ReportedActualSource
  | unknown => []
  | possible candidates => candidates
  | establishedClaim source => [source]

end ActualReportSources

/-- A report as it was made: what was not said is `none`. -/
structure ActualReportCommand where
  variant : Option HubRecordId
  recipient : Option HubRecordId
  packs : Option WholePacks
  sources : ActualReportSources
  occurred : Occurrence
  observation : SourceProvenance
  deriving DecidableEq, Repr

/-- Only the form of a report is judged; none of its records has to exist. -/
def ActualReportCommand.validate (report : ActualReportCommand) :
    Except ActualReportError Unit := do
  report.sources.validate
  refuse (∃ packs ∈ report.packs, packs.value = 0) .invalidInput
  refuse report.occurred.Inverted .invalidInput

/-- A kept report, with the revisions the hub was at. -/
structure ActualReportRecord where
  id : HubRecordId
  operation : HubRecordId
  hub : HubId
  stockRevision : HubRevision
  catalogRevision : HubRevision
  actor : PublicKey
  recordedAt : UnixTimestamp
  report : ActualReportCommand
  deriving DecidableEq, Repr

/-- The claimed time against the clock of the recording. -/
inductive ActualReportedClockAssessment where
  | unknown
  | notAfterRecordedTime
  | recordingClockConflict
  deriving DecidableEq, Repr

/-- The identity of a report comes from its operation. -/
def actualReportId [Sha256] (operation : HubRecordId) : Except ActualReportError HubRecordId :=
  mapErr (fun _ => .invalidIdentity) (HubRecordId.derived
    (utf8 "harvestcircle.hub.actual.report.identity.v1\x00" ++ operation.asBytes))

namespace ActualReportRecord

/-- The latest claimed instant against the time of recording. -/
def recordingClockAssessment (record : ActualReportRecord) : ActualReportedClockAssessment :=
  match record.report.occurred.bounds with
  | none => .unknown
  | some (_, latest) =>
    if latest > record.recordedAt then .recordingClockConflict else .notAfterRecordedTime

def validate [Sha256] (record : ActualReportRecord) : Except ActualReportError Unit := do
  let id ← actualReportId record.operation
  refuse (record.id ≠ id ∨ record.id = record.operation ∨ record.stockRevision = .initial)
    .invalidHistory
  record.report.validate

end ActualReportRecord

end HarvestCircle
