import HarvestCircle.ActualReports
import HarvestCircle.Counts
import HarvestCircle.Quantities

/-! # Departures that are known

A departure is known by what was recorded of it: the original, everyone it was ever said
to have gone to, and the quantities it was corrected to.  It may have been recorded as a
departure, or found out later from a count that came up short.

Everyone it may have gone to stays a possible recipient, also after a correction; and one
correction to an unknown recipient makes everyone possible.
-/
namespace HarvestCircle
open Checked

structure ActualKnownDepartureLine where
  group : HubRecordId
  location : ReferenceRecord
  packs : WholePacks
  deriving DecidableEq, Repr

/-- A departure as it was first known. -/
structure ActualKnownDeparture where
  operation : HubRecordId
  actor : PublicKey
  hub : HubId
  stockRevision : HubRevision
  catalogRevision : HubRevision
  trace : HubRecordId
  variant : ReferenceRecord
  recipient : ReferenceRecord
  occurred : Occurrence
  recordedAt : UnixTimestamp
  lines : List ActualKnownDepartureLine
  deriving DecidableEq, Repr

namespace ActualKnownDeparture

def packs (departure : ActualKnownDeparture) : Except ActualReportError WholePacks :=
  departure.lines.foldlM (fun total line =>
    mapErr (fun _ => .invalidHistory) (total.checkedAdd line.packs)) WholePacks.zero

def validate (departure : ActualKnownDeparture) : Except ActualReportError Unit := do
  refuse (departure.lines = [] ∨ departure.lines.length > hubDispatchLines) .capacity
  mapErr (fun _ => .invalidHistory) (departure.occurred.validate departure.recordedAt)
  refuse (departure.variant.value.kind ≠ .pack ∨ departure.recipient.value.kind ≠ .party ∨
    departure.variant.revision.value > departure.catalogRevision.value ∨
    departure.recipient.revision.value > departure.catalogRevision.value ∨
    departure.stockRevision = .initial) .invalidHistory
  refuse (¬ (departure.lines.map ActualKnownDepartureLine.group).Nodup ∨
    ∃ line ∈ departure.lines, line.packs.value = 0 ∨ line.location.value.kind ≠ .location ∨
      line.location.revision.value > departure.catalogRevision.value) .invalidHistory
  let _ ← departure.packs

end ActualKnownDeparture

/-! ## Everyone it may have gone to -/

/-- Whom the stock may have gone to. -/
structure KnownRecipients where
  parties : Finset HubRecordId
  unresolved : Bool
  deriving DecidableEq

namespace KnownRecipients

/-- Whether a recipient, or any where none is named, may be the one. -/
def couldMatch (known : KnownRecipients) (recipient : Option HubRecordId) : Bool :=
  known.unresolved || recipient.all (· ∈ known.parties)

def note (known : KnownRecipients) : AmendedRecipient → KnownRecipients
  | .known party => { known with parties := insert party.id known.parties }
  | .unknown => { known with unresolved := true }

/-- The first recipient and everyone a correction named. -/
def through (recipient : HubRecordId) (history : List RecipientAttributionCorrection) :
    KnownRecipients :=
  history.foldl (fun known record => (known.note record.before).note record.after)
    ⟨{recipient}, false⟩

/-- Not a possible recipient. -/
def Excludes (known : KnownRecipients) (recipient : HubRecordId) : Prop :=
  known.couldMatch (some recipient) = false

variable {recipient : HubRecordId}

theorem excludes_note {known : KnownRecipients} {named : AmendedRecipient} :
    (known.note named).Excludes recipient ↔
      known.Excludes recipient ∧ ∃ party, named = .known party ∧ party.id ≠ recipient := by
  cases named with
  | known party =>
    simp only [Excludes, couldMatch, note, Option.all_some, Bool.or_eq_false_iff,
      decide_eq_false_iff_not, Finset.mem_insert, not_or, AmendedRecipient.known.injEq,
      exists_eq_left', and_assoc]
    exact and_congr_right fun _ => and_comm.trans (and_congr_right fun _ => ne_comm)
  | unknown => simp [Excludes, couldMatch, note]

/-- Whoever is excluded was never named, and nothing was left open. -/
theorem excludes_through {first : HubRecordId} {history : List RecipientAttributionCorrection} :
    (through first history).Excludes recipient ↔ first ≠ recipient ∧
      ∀ record ∈ history, (∃ party, record.before = .known party ∧ party.id ≠ recipient) ∧
        ∃ party, record.after = .known party ∧ party.id ≠ recipient := by
  have hgeneral : ∀ known : KnownRecipients,
      (history.foldl (fun known record => (known.note record.before).note record.after)
        known).Excludes recipient ↔ known.Excludes recipient ∧
      ∀ record ∈ history, (∃ party, record.before = .known party ∧ party.id ≠ recipient) ∧
        ∃ party, record.after = .known party ∧ party.id ≠ recipient := by
    induction history with
    | nil => simp
    | cons record history ih =>
      intro known
      rw [List.foldl_cons, ih, excludes_note, excludes_note, List.forall_mem_cons, and_assoc,
        and_assoc, and_assoc]
  rw [through, hgeneral]
  refine and_congr_left fun _ => ?_
  simp [Excludes, couldMatch, eq_comm]

end KnownRecipients

/-! ## What is known of a departure at a cut -/

inductive QuantityEffectError where
  | invalidHistory
  | invalidFacts
  | invalidScope
  | staleRevision
  | uncertainSubmission
  | alreadyReviewed
  | unsupportedFamily
  | actual (error : ActualReportError)
  | accounting (error : CorrectionError)
  deriving DecidableEq, Repr

/-- What the corrected quantity is computed from. -/
inductive KnownCorrectionQuantity where
  | physical (accounts : List DepartureQuantityAccount)
  | countExplanation (count : CountPostPlan) (account : CountLossQuantityAccount)
  deriving DecidableEq

/-- A departure with its corrections. -/
structure CorrectionKnownDeparture where
  original : ActualKnownDeparture
  recipientOriginal : OriginalRecipientAttribution
  recipientHistory : List RecipientAttributionCorrection
  quantity : KnownCorrectionQuantity
  deriving DecidableEq

/-- The packs a count found missing. -/
def CountEffect.shortagePacks : CountEffect → Option WholePacks
  | .shortage packs .. => some packs
  | _ => none

namespace CorrectionKnownDeparture

/-- Everyone the departure may have gone to, by the given revisions and time. -/
def recipientAssociationsThrough (known : CorrectionKnownDeparture) (hub : HubId)
    (stock catalog : HubRevision) (latest : UnixTimestamp) :
    Except QuantityEffectError KnownRecipients := do
  let original := known.original
  mapErr QuantityEffectError.actual original.validate
  let recipient := known.recipientOriginal
  refuse (original.hub ≠ hub ∨ original.stockRevision.value > stock.value ∨
    original.catalogRevision.value > catalog.value ∨ original.recordedAt > latest ∨
    recipient.hub ≠ original.hub ∨ recipient.operation ≠ original.operation ∨
    recipient.stockRevision ≠ original.stockRevision ∨
    recipient.catalogRevision ≠ original.catalogRevision ∨ recipient.actor ≠ original.actor ∨
    recipient.recordedAt ≠ original.recordedAt ∨ recipient.recipient ≠ original.recipient ∨
    original.trace ∉ recipient.populations ∨
    ∃ record ∈ known.recipientHistory, record.stamp.stockRevision.value > stock.value ∨
      record.stamp.catalogRevision.value > catalog.value ∨ record.stamp.recordedAt > latest)
    .invalidHistory
  let _ ← mapErr (fun _ => .invalidHistory)
    (currentRecipientAttribution recipient known.recipientHistory)
  return .through original.recipient.id known.recipientHistory

/-- An account of a line of the departure. -/
def LineAccount (original : ActualKnownDeparture) (stock : HubRevision)
    (account : DepartureQuantityAccount) : Prop :=
  account.original.operation = original.operation ∧
  account.original.stockRevision = original.stockRevision ∧
  account.original.trace = original.trace ∧ account.original.variant = original.variant.id ∧
  (∃ line ∈ original.lines, line.group = account.original.group ∧
    line.packs = account.original.packs) ∧
  ∀ change ∈ account.amendments, change.stockRevision.value ≤ stock.value

instance (original : ActualKnownDeparture) (stock : HubRevision) :
    DecidablePred (LineAccount original stock) := fun _ => inferInstanceAs (Decidable (_ ∧ _))

/-- The one explanation that is the departure. -/
def explained (account : CountLossQuantityAccount) (operation : HubRecordId) :
    Option EffectiveCountExplanation :=
  account.effective.find? fun row => row.original.operation = operation

/-- What the count and its account have in common, whichever explanation is looked at. -/
structure CountAccount (count : CountPostPlan) (account : CountLossQuantityAccount) (hub : HubId)
    (stock catalog : HubRevision) (latest : UnixTimestamp) : Prop where
  hub_eq : count.count.scope.hub = hub
  reconciliation_eq : account.original.reconciliation = count.id
  operation_eq : account.original.operation = count.operation
  revision_eq : account.original.stockRevision = count.stockRevision
  packs_eq : count.effect.shortagePacks = some account.original.packs
  trace_eq : count.before.trace = account.original.trace
  variant_eq : count.before.variant = account.original.variant
  recorded_le : count.recordedAt ≤ latest
  catalog_le : count.catalogRevision.value ≤ catalog.value
  explanations_le : ∀ row ∈ account.explanations, row.stockRevision.value ≤ stock.value
  amendments_le : ∀ row ∈ account.amendments, row.stockRevision.value ≤ stock.value

/-- The departure is the explanation. -/
structure Explains (original : ActualKnownDeparture) (count : CountPostPlan)
    (account : CountLossQuantityAccount) (row : EffectiveCountExplanation) : Prop where
  trace_eq : account.original.trace = original.trace
  variant_eq : account.original.variant = original.variant.id
  revision_eq : row.original.stockRevision = original.stockRevision
  lines_eq : original.lines.map (fun line => (line.group, line.packs)) =
    [(count.before.id, row.original.packs)]
  recorded_le : count.recordedAt ≤ original.recordedAt
  catalog_le : count.catalogRevision.value ≤ original.catalogRevision.value

section
variable [Sha256]

def checkQuantity (known : CorrectionKnownDeparture) (hub : HubId) (stock catalog : HubRevision)
    (latest : UnixTimestamp) : Except QuantityEffectError Unit :=
  let original := known.original
  match known.quantity with
  | .physical accounts =>
    refuse (known.recipientOriginal.family = .explainedCountLoss ∨
      accounts.length ≠ original.lines.length ∨
      ¬ (accounts.map fun account => account.original.group).Nodup ∨
      ∃ account ∈ accounts, ¬ LineAccount original stock account) .invalidHistory
  | .countExplanation count account => do
    mapErr (fun _ => .invalidHistory) count.validate
    let loss := account.original
    let packs ← okOr count.effect.shortagePacks .invalidHistory
    let row ← okOr (explained account original.operation) .invalidHistory
    refuse (known.recipientOriginal.family ≠ .explainedCountLoss ∨
      count.count.scope.hub ≠ hub ∨ loss.reconciliation ≠ count.id ∨
      loss.operation ≠ count.operation ∨ loss.stockRevision ≠ count.stockRevision ∨
      loss.trace ≠ original.trace ∨ loss.variant ≠ original.variant.id ∨ loss.packs ≠ packs ∨
      count.before.trace ≠ loss.trace ∨ count.before.variant ≠ loss.variant ∨
      row.original.stockRevision ≠ original.stockRevision ∨
      original.lines.map (fun line => (line.group, line.packs)) ≠
        [(count.before.id, row.original.packs)] ∨
      count.recordedAt > original.recordedAt ∨
      count.catalogRevision.value > original.catalogRevision.value ∨ count.recordedAt > latest ∨
      count.catalogRevision.value > catalog.value ∨
      (∃ row ∈ account.explanations, row.stockRevision.value > stock.value) ∨
      ∃ row ∈ account.amendments, row.stockRevision.value > stock.value) .invalidHistory

/-- Everyone the departure may have gone to, with its quantities checked too. -/
def associationsThrough (known : CorrectionKnownDeparture) (hub : HubId)
    (stock catalog : HubRevision) (latest : UnixTimestamp) :
    Except QuantityEffectError KnownRecipients := do
  let result ← known.recipientAssociationsThrough hub stock catalog latest
  known.checkQuantity hub stock catalog latest
  return result

/-- A count explains the departure exactly if the count is in order and the departure is one of
its explanations. -/
theorem checkQuantity_countExplanation {original : ActualKnownDeparture}
    {recipient : OriginalRecipientAttribution} {history : List RecipientAttributionCorrection}
    {count : CountPostPlan} {account : CountLossQuantityAccount} {hub : HubId}
    {stock catalog : HubRevision} {latest : UnixTimestamp} {u : Unit} :
    checkQuantity ⟨original, recipient, history, .countExplanation count account⟩ hub stock catalog
        latest = .ok u ↔
      count.validate = .ok () ∧ CountAccount count account hub stock catalog latest ∧
      recipient.family = .explainedCountLoss ∧
      ∃ row, explained account original.operation = some row ∧
        Explains original count account row := by
  simp only [checkQuantity, accepted, passed, not_exists, not_and]
  constructor
  · rintro ⟨hvalid, packs, hpacks, row, hrow, hfamily, hhub, hreconciliation, hoperation, hrevision,
      htrace, hvariant, rfl, hbefore, hbeforeVariant, hrowRevision, hlines, hrecorded, hcatalog,
      hlatest, hcut, hexplanations, hamendments⟩
    exact ⟨hvalid, ⟨hhub, hreconciliation, hoperation, hrevision, hpacks, hbefore, hbeforeVariant,
      hlatest, hcut, hexplanations, hamendments⟩, hfamily, row, hrow,
      htrace, hvariant, hrowRevision, hlines, hrecorded, hcatalog⟩
  · rintro ⟨hvalid, ha, hfamily, row, hrow, he⟩
    exact ⟨hvalid, _, ha.packs_eq, row, hrow, hfamily, ha.hub_eq, ha.reconciliation_eq,
      ha.operation_eq, ha.revision_eq, he.trace_eq, he.variant_eq, rfl, ha.trace_eq, ha.variant_eq,
      he.revision_eq, he.lines_eq, he.recorded_le, he.catalog_le, ha.recorded_le, ha.catalog_le,
      ha.explanations_le, ha.amendments_le⟩

end

/-- What the recipients of a departure rest on. -/
theorem recipientAssociationsThrough_eq_ok {known : CorrectionKnownDeparture} {hub : HubId}
    {stock catalog : HubRevision} {latest : UnixTimestamp} {result : KnownRecipients}
    (h : known.recipientAssociationsThrough hub stock catalog latest = .ok result) :
    result = .through known.original.recipient.id known.recipientHistory ∧
    known.original.validate = .ok () ∧
    known.recipientOriginal.operation = known.original.operation ∧
    ∃ current, currentRecipientAttribution known.recipientOriginal known.recipientHistory =
      .ok current := by
  simp only [recipientAssociationsThrough, accepted, passed] at h
  obtain ⟨hvalid, ⟨-, -, -, -, -, hoperation, -⟩, current, hcurrent, rfl⟩ := h
  exact ⟨rfl, hvalid, hoperation, current, hcurrent⟩

end CorrectionKnownDeparture

end HarvestCircle
