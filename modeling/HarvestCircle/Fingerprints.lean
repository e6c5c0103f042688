import HarvestCircle.Intents

/-! # Fingerprints identify commands

A command that arrives twice is recognised by its fingerprint alone, so two intents with
one fingerprint must be one intent.  `HubIntent` is an intent of any of the 27 kinds.  The
strings of different kinds begin with different purposes, each ended by its only zero byte,
so the string tells the kind; within a kind it tells the rest.
-/
namespace HarvestCircle
open Checked Codes

inductive HubCommandKind where
  | reference
  | receipt
  | opening
  | movement
  | split
  | treatment
  | replan
  | newWork
  | discrepancy
  | dispatch
  | departure
  | disposition
  | returned
  | countObserve
  | countPost
  | actualNewDeparture
  | actualDuplicateLink
  | countReturnAssociation
  | correctionObservation
  | foundCorrection
  | foundStock
  | sourceAttribution
  | recipientAttribution
  | correctionFollowUp
  | additionalQuantity
  | countExplanation
  | countClassification
  deriving DecidableEq, Repr

namespace HubCommandKind

/-- The identities a kind's fingerprint is given. -/
@[reducible] def Ids : HubCommandKind → Type
  | reference => Unit
  | receipt => HubRecordId × HubRecordId
  | opening => OpeningIdentities
  | dispatch => DispatchIdentities
  | departure => DepartureIdentities
  | disposition => DispositionIdentities
  | returned => ReturnIdentities
  | _ => HubRecordId

/-- The commands of a kind.  The groups of new work are a vector, whose length fits 64 bits. -/
@[reducible] def Command : HubCommandKind → Type
  | reference => ReferenceCommand
  | receipt => ReceiptCommand
  | opening => OpeningCommand
  | movement => MovementCommand
  | split => SplitCommand
  | treatment => TreatmentCommand
  | replan => ReplanCommand
  | newWork => { command : NewWorkCommand // command.groups.length < 2 ^ 64 }
  | discrepancy => DiscrepancyCommand
  | dispatch => DispatchCommand
  | departure => DepartureCommand
  | disposition => DispositionCommand
  | returned => ReturnCommand
  | countObserve => CountObserveCommand
  | countPost => CountPostCommand
  | actualNewDeparture => ActualNewDepartureCommand
  | actualDuplicateLink => ActualDuplicateLink
  | countReturnAssociation => CountReturnAssociationCommand
  | correctionObservation => CorrectionObservationCommand
  | foundCorrection => FoundCorrectionCommand
  | foundStock => FoundStockCommand
  | sourceAttribution => SourceAttributionCommand
  | recipientAttribution => RecipientAttributionCommand
  | correctionFollowUp => CorrectionFollowUpCommand
  | additionalQuantity => AdditionalQuantityCommand
  | countExplanation => CountExplanationCommand
  | countClassification => CountClassificationCommand

/-- What the string of a kind begins with. -/
def purpose : HubCommandKind → String
  | reference => "harvestcircle.hub.reference.command.v1\x00"
  | receipt => "harvestcircle.hub.receipt.command.v1\x00"
  | opening => "harvestcircle.hub.counted-opening.command.v1\x00"
  | movement => "harvestcircle.hub.movement.command.v1\x00"
  | split => "harvestcircle.hub.portion.split.command.v1\x00"
  | treatment => "harvestcircle.hub.treatment.command.v1\x00"
  | replan => "harvestcircle.hub.replan.command.v1\x00"
  | newWork => "harvestcircle.hub.new-work.command.v1\x00"
  | discrepancy => "harvestcircle.hub.discrepancy.command.v1\x00"
  | dispatch => "harvestcircle.hub.dispatch.command.v1\x00"
  | departure => "harvestcircle.hub.departure.command.v1\x00"
  | disposition => "harvestcircle.hub.disposition.command.v1\x00"
  | returned => "harvestcircle.hub.return.command.v1\x00"
  | countObserve => "harvestcircle.hub.count.observe.command.v1\x00"
  | countPost => "harvestcircle.hub.count.post.command.v1\x00"
  | actualNewDeparture => "harvestcircle.hub.actual.review.command.v1\x00"
  | actualDuplicateLink => "harvestcircle.hub.actual.duplicate.link.command.v1\x00"
  | countReturnAssociation => "harvestcircle.hub.count-return.association.command.v1\x00"
  | correctionObservation => "harvestcircle.hub.correction.observation.command.v1\x00"
  | foundCorrection => "harvestcircle.hub.correction.found.recorded.command.v1\x00"
  | foundStock => "harvestcircle.hub.correction.found.command.v1\x00"
  | sourceAttribution => "harvestcircle.hub.correction.source.command.v1\x00"
  | recipientAttribution => "harvestcircle.hub.correction.recipient.command.v1\x00"
  | correctionFollowUp => "harvestcircle.hub.correction.follow_up.command.v1\x00"
  | additionalQuantity => "harvestcircle.hub.correction.additional.command.v2\x00"
  | countExplanation => "harvestcircle.hub.correction.count_explain.command.v2\x00"
  | countClassification => "harvestcircle.hub.correction.count_classify.recorded.command.v1\x00"

theorem purpose_terminated (kind : HubCommandKind) : Terminated 0 (utf8 kind.purpose) := by
  cases kind <;> decide

def all : List HubCommandKind :=
  [reference, receipt, opening, movement, split, treatment, replan, newWork, discrepancy, dispatch,
    departure, disposition, returned, countObserve, countPost, actualNewDeparture,
    actualDuplicateLink, countReturnAssociation, correctionObservation, foundCorrection, foundStock,
    sourceAttribution, recipientAttribution, correctionFollowUp, additionalQuantity,
    countExplanation, countClassification]

/-- No two kinds share a purpose. -/
theorem purpose_injective : Function.Injective purpose := by
  have hall : ∀ kind, kind ∈ all := by
    intro kind
    cases kind <;> decide
  have hnodup : (all.map purpose).Nodup := by decide +kernel
  intro a b h
  exact List.inj_on_of_nodup_map hnodup (hall a) (hall b) h

end HubCommandKind

/-- A command of any kind, with the hub, the account and the identities it is given. -/
structure HubIntent where
  kind : HubCommandKind
  intent : Intent kind.Ids kind.Command

namespace HubIntent
variable [Sha256]

/-- The string whose digest is the fingerprint. -/
def preimage : HubIntent → List UInt8
  | ⟨.reference, intent⟩ => intent.feed fun command hub actor () => command.preimage hub actor
  | ⟨.receipt, intent⟩ => intent.feed ReceiptCommand.preimage
  | ⟨.opening, intent⟩ => intent.feed OpeningCommand.preimage
  | ⟨.movement, intent⟩ => intent.feed MovementCommand.preimage
  | ⟨.split, intent⟩ => intent.feed SplitCommand.preimage
  | ⟨.treatment, intent⟩ => intent.feed TreatmentCommand.preimage
  | ⟨.replan, intent⟩ => intent.feed ReplanCommand.preimage
  | ⟨.newWork, intent⟩ => intent.feed fun command => command.1.preimage
  | ⟨.discrepancy, intent⟩ => intent.feed DiscrepancyCommand.preimage
  | ⟨.dispatch, intent⟩ => intent.feed DispatchCommand.preimage
  | ⟨.departure, intent⟩ => intent.feed DepartureCommand.preimage
  | ⟨.disposition, intent⟩ => intent.feed DispositionCommand.preimage
  | ⟨.returned, intent⟩ => intent.feed ReturnCommand.preimage
  | ⟨.countObserve, intent⟩ => intent.feed CountObserveCommand.preimage
  | ⟨.countPost, intent⟩ => intent.feed CountPostCommand.preimage
  | ⟨.actualNewDeparture, intent⟩ => intent.feed ActualNewDepartureCommand.preimage
  | ⟨.actualDuplicateLink, intent⟩ => intent.feed ActualDuplicateLink.preimage
  | ⟨.countReturnAssociation, intent⟩ => intent.feed CountReturnAssociationCommand.preimage
  | ⟨.correctionObservation, intent⟩ => intent.feed CorrectionObservationCommand.preimage
  | ⟨.foundCorrection, intent⟩ => intent.feed FoundCorrectionCommand.preimage
  | ⟨.foundStock, intent⟩ => intent.feed FoundStockCommand.preimage
  | ⟨.sourceAttribution, intent⟩ => intent.feed SourceAttributionCommand.preimage
  | ⟨.recipientAttribution, intent⟩ => intent.feed RecipientAttributionCommand.preimage
  | ⟨.correctionFollowUp, intent⟩ => intent.feed CorrectionFollowUpCommand.preimage
  | ⟨.additionalQuantity, intent⟩ => intent.feed AdditionalQuantityCommand.preimage
  | ⟨.countExplanation, intent⟩ => intent.feed CountExplanationCommand.preimage
  | ⟨.countClassification, intent⟩ => intent.feed CountClassificationCommand.preimage

/-- The string whose digest stands in another's place in the preimage, if there is one. -/
def nested : HubIntent → List (List UInt8)
  | ⟨.countExplanation, intent⟩ =>
    [intent.command.facts.preimage intent.hub intent.actor intent.ids]
  | ⟨.foundStock, intent⟩ =>
    [intent.command.observed.preimage intent.hub intent.actor intent.ids]
  | _ => []

/-- Every string hashed on the way to the fingerprint. -/
def hashed (x : HubIntent) : List (List UInt8) := x.preimage :: x.nested

/-- Requests with found allocations are refused for their number before they are hashed. -/
def check : HubIntent → Except CorrectionObservationError Unit
  | ⟨.correctionObservation, intent⟩ => intent.command.validate
  | ⟨.foundStock, intent⟩ => do
    refuse (intent.command.allocations = [] ∨
      intent.command.allocations.length > hubFoundAllocations) .capacity
    intent.command.observed.validate
  | _ => pure ()

def fingerprint (x : HubIntent) : Except CorrectionObservationError (BitVec 256) := do
  x.check
  return Sha256.digest x.preimage

theorem purpose_isPrefix (x : HubIntent) : utf8 x.kind.purpose <+: x.preimage := by
  obtain ⟨kind, intent⟩ := x
  cases kind <;> exact ⟨_, rfl⟩

/-- A string tells the kind of its intent. -/
theorem kind_eq {x y : HubIntent} (he : x.preimage = y.preimage) : x.kind = y.kind := by
  obtain ⟨r, hr⟩ := x.purpose_isPrefix
  obtain ⟨t, ht⟩ := y.purpose_isPrefix
  have hpurpose := (purpose_inj x.kind.purpose_terminated y.kind.purpose_terminated).mp
    (hr.trans (he.trans ht.symm))
  exact HubCommandKind.purpose_injective hpurpose.1

omit [Sha256] in
theorem bounded_of_validate {command : CorrectionObservationCommand}
    (h : command.validate = .ok ()) : command.facts.Bounded := by
  unfold CorrectionObservationCommand.validate at h
  unfold CorrectionObservedFacts.Bounded
  split at h
  · simp_all
  · simp_all

/-- An intent is told by its string, where the digests in it tell what they were taken of. -/
theorem preimage_inj {hashed : Set (List UInt8)} (hfree : Set.InjOn Sha256.digest hashed)
    {x y : HubIntent} (hx : ∀ s ∈ x.nested, s ∈ hashed) (hy : ∀ s ∈ y.nested, s ∈ hashed)
    (hxcheck : x.check = .ok ()) (hycheck : y.check = .ok ()) (he : x.preimage = y.preimage) :
    x = y := by
  obtain ⟨kind, a⟩ := x
  obtain ⟨kind', b⟩ := y
  obtain rfl : kind = kind' := kind_eq he
  refine congrArg (HubIntent.mk kind) ?_
  cases kind with
  | reference => exact ReferenceCommand.parses.injOn trivial trivial he
  | receipt => exact ReceiptCommand.parses.injOn trivial trivial he
  | opening => exact OpeningCommand.parses.injOn trivial trivial he
  | movement => exact MovementCommand.parses.injOn trivial trivial he
  | split => exact SplitCommand.parses.injOn trivial trivial he
  | treatment => exact TreatmentCommand.parses.injOn trivial trivial he
  | replan => exact ReplanCommand.parses.injOn trivial trivial he
  | newWork => exact NewWorkCommand.parses.injOn trivial trivial he
  | discrepancy => exact DiscrepancyCommand.parses.injOn trivial trivial he
  | dispatch => exact DispatchCommand.parses.injOn trivial trivial he
  | departure => exact DepartureCommand.parses.injOn trivial trivial he
  | disposition => exact DispositionCommand.parses.injOn trivial trivial he
  | returned => exact ReturnCommand.parses.injOn trivial trivial he
  | countObserve => exact CountObserveCommand.parses.injOn trivial trivial he
  | countPost => exact CountPostCommand.parses.injOn trivial trivial he
  | actualNewDeparture => exact ActualNewDepartureCommand.parses.injOn trivial trivial he
  | actualDuplicateLink => exact ActualDuplicateLink.parses.injOn trivial trivial he
  | countReturnAssociation => exact CountReturnAssociationCommand.parses.injOn trivial trivial he
  | correctionObservation =>
    exact CorrectionObservationCommand.parses.injOn (bounded_of_validate hxcheck)
      (bounded_of_validate hycheck) he
  | foundCorrection => exact FoundCorrectionCommand.parses.injOn trivial trivial he
  | foundStock =>
    simp only [check, accepted, passed] at hxcheck hycheck
    exact (FoundStockCommand.parses hfree).injOn ⟨hxcheck.1.2, hx _ (.head _)⟩
      ⟨hycheck.1.2, hy _ (.head _)⟩ he
  | sourceAttribution => exact SourceAttributionCommand.parses.injOn trivial trivial he
  | recipientAttribution => exact RecipientAttributionCommand.parses.injOn trivial trivial he
  | correctionFollowUp => exact CorrectionFollowUpCommand.parses.injOn trivial trivial he
  | additionalQuantity => exact AdditionalQuantityCommand.parses.injOn trivial trivial he
  | countExplanation =>
    exact (CountExplanationCommand.parses hfree).injOn (hx _ (.head _)) (hy _ (.head _)) he
  | countClassification => exact CountClassificationCommand.parses.injOn trivial trivial he

end HubIntent

/-- **A fingerprint identifies its command.**  Two intents of any kinds with one fingerprint are one
intent: the same kind, hub, account, identities and fields.  Or two different strings hashed on the
way to the two fingerprints have one SHA-256 digest. -/
theorem fingerprint_identifies_command [Sha256] {x y : HubIntent} {digest : BitVec 256}
    (hx : x.fingerprint = .ok digest) (hy : y.fingerprint = .ok digest) :
    x = y ∨ Collides Sha256.digest (x.hashed ++ y.hashed) := by
  simp only [HubIntent.fingerprint, accepted] at hx hy
  obtain ⟨hxcheck, hxdigest⟩ := hx
  obtain ⟨hycheck, hydigest⟩ := hy
  by_cases hcollides : Collides Sha256.digest (x.hashed ++ y.hashed)
  · exact .inr hcollides
  · have hfree := injOn_digest hcollides
    have hleft : ∀ s ∈ x.hashed, s ∈ x.hashed ++ y.hashed := fun s hs => List.mem_append_left _ hs
    have hright : ∀ s ∈ y.hashed, s ∈ x.hashed ++ y.hashed := fun s hs => List.mem_append_right _ hs
    have hsame : x.preimage = y.preimage :=
      hfree (hleft _ (.head _)) (hright _ (.head _)) (hxdigest.trans hydigest.symm)
    exact .inl (HubIntent.preimage_inj hfree (fun s hs => hleft s (.tail _ hs))
      (fun s hs => hright s (.tail _ hs)) hxcheck hycheck hsame)

/-! ### The fingerprint of the crate's departure -/

def crateIntent : HubIntent :=
    ⟨.departure, ⟨cratePaper.hub, crateActor, crateIdentities, crateDeparture⟩⟩

/-- SHA-256 on the string of the crate's departure. -/
@[reducible] def crateIntentDigest : Sha256 where
  digest bytes :=
    if bytes = crateDeparture.preimage cratePaper.hub crateActor crateIdentities then
      0xea18b7c4efafc9eb408af72fca0dfc2d129a20810dac7f13649be82206148f00
    else 0

/-- The crate's departure is told by its fingerprint. -/
theorem fingerprint_identifies_command_crate :
    let _ : Sha256 := crateIntentDigest
    crateIntent.fingerprint =
      .ok 0xea18b7c4efafc9eb408af72fca0dfc2d129a20810dac7f13649be82206148f00 ∧
    (crateIntent = crateIntent ∨
      Collides Sha256.digest (crateIntent.hashed ++ crateIntent.hashed)) := by
  intro inst
  have hfingerprint : crateIntent.fingerprint =
      .ok 0xea18b7c4efafc9eb408af72fca0dfc2d129a20810dac7f13649be82206148f00 := by
    decide +kernel
  exact ⟨hfingerprint, fingerprint_identifies_command hfingerprint hfingerprint⟩

end HarvestCircle
