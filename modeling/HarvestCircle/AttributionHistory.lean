import HarvestCircle.Departure
import HarvestCircle.RecipientHistory
import HarvestCircle.SourceHistory

/-! # Corrections extend their histories

A correction leaves manual work behind, one piece for each thing it affects.  That such
work was done is observed in a history of its own, which is replayed with every look at
it, as seen from the hub at the time.

With it the three histories are complete: what is planned is accepted by the checker at
the end of its history, and no impact is forgotten (`corrections_extend_histories`).
-/
namespace HarvestCircle
open Checked

/-- Manual work that a correction calls for; `workRecorded` is no proof of anything done
elsewhere. -/
inductive CorrectionManualWork where
  | outstanding
  | workRecorded
  deriving DecidableEq, Repr

/-- What became of one target of a correction. -/
structure CorrectionFollowUpObservation where
  stamp : AttributionStamp
  correction : HubRecordId
  target : CorrectionImpact
  prior : Option HubRecordId
  state : CorrectionManualWork
  deriving DecidableEq, Repr

/-- Records the work done on one target. -/
structure CorrectionFollowUpCommand where
  correction : HubRecordId
  target : CorrectionImpact
  expectedStockRevision : HubRevision
  expectedCatalogRevision : HubRevision
  expectedPrior : Option HubRecordId
  state : CorrectionManualWork
  basis : SourceProvenance
  deriving DecidableEq, Repr

/-- What the hub reads for a follow-up. -/
structure CorrectionFollowUpContext where
  cut : AttributionCut
  correction : AttributionStamp
  impact : CorrectionImpactSet
  /-- The observations for this correction, over all its targets. -/
  history : List CorrectionFollowUpObservation
  deriving DecidableEq, Repr

/-- What the replay of the observations keeps. -/
structure FollowUpReplay where
  trail : StampTrail
  /-- The last operation for each target, newest first. -/
  targets : List (CorrectionImpact × HubRecordId)
  deriving DecidableEq

namespace CorrectionFollowUpContext

def step (context : CorrectionFollowUpContext) (state : FollowUpReplay)
    (row : CorrectionFollowUpObservation) : Except AttributionError FollowUpReplay := do
  let trail ← state.trail.enter context.cut.hub row.stamp
  refuse (row.correction ≠ context.correction.operation ∨ row.target ∉ context.impact ∨
    row.prior ≠ state.targets.lookup row.target ∨
    row.stamp.stockRevision.value > context.cut.stockRevision.value ∨
    row.stamp.catalogRevision.value > context.cut.catalog.revision.value) .invalidHistory
  return ⟨trail, (row.target, row.stamp.operation) :: state.targets⟩

/-- Where the replay of the observations starts: at the correction. -/
def start (context : CorrectionFollowUpContext) : FollowUpReplay where
  trail := ⟨context.correction.stockRevision, context.correction.catalogRevision,
    context.correction.recordedAt, {context.correction.operation}⟩
  targets := []

def validate (context : CorrectionFollowUpContext) : Except AttributionError Unit := do
  refuse (context.history.length > hubCorrectionRows) .capacity
  refuse (context.correction.hub ≠ context.cut.hub ∨
    context.correction.stockRevision.value > context.cut.stockRevision.value ∨
    context.correction.catalogRevision.value > context.cut.catalog.revision.value) .invalidHistory
  let _ ← context.history.foldlM context.step context.start

def current (context : CorrectionFollowUpContext) (target : CorrectionImpact) :
    Except AttributionError CorrectionManualWork := do
  context.validate
  refuse (target ∉ context.impact) .invalidScope
  return ((context.history.reverse.find? fun row => row.target = target).map (·.state)).getD
    .outstanding

end CorrectionFollowUpContext

def CorrectionFollowUpCommand.plan (command : CorrectionFollowUpCommand)
    (context : CorrectionFollowUpContext) (operation : HubRecordId) (actor : PublicKey)
    (now : UnixTimestamp) : Except AttributionError CorrectionFollowUpObservation := do
  let next ← context.cut.check command.expectedStockRevision command.expectedCatalogRevision now
  context.validate
  refuse (context.history.length ≥ hubCorrectionRows) .capacity
  refuse (command.correction ≠ context.correction.operation ∨ command.target ∉ context.impact)
    .invalidScope
  let previous := context.history.reverse.find? fun row => row.target = command.target
  refuse (command.expectedPrior ≠ previous.map (·.stamp.operation)) .staleRevision
  refuse (operation = command.correction ∨
    (∃ row ∈ context.history, row.stamp.operation = operation) ∨
    now < (context.history.getLast?.map (·.stamp.recordedAt)).getD context.correction.recordedAt)
    .invalidHistory
  return {
    stamp := {
      operation, hub := context.cut.hub, stockRevision := next
      catalogRevision := context.cut.catalog.revision, actor, recordedAt := now
      basis := command.basis }
    correction := command.correction, target := command.target, prior := command.expectedPrior
    state := command.state }

namespace CorrectionFollowUpContext
variable {context context' : CorrectionFollowUpContext} {state state' : FollowUpReplay}
  {row : CorrectionFollowUpObservation}

theorem step_eq_ok : context.step state row = .ok state' ↔
    state.trail.Continues context.cut.hub row.stamp ∧
    row.correction = context.correction.operation ∧ row.target ∈ context.impact ∧
    row.prior = state.targets.lookup row.target ∧
    row.stamp.stockRevision.value ≤ context.cut.stockRevision.value ∧
    row.stamp.catalogRevision.value ≤ context.cut.catalog.revision.value ∧
    state' = ⟨state.trail.after row.stamp,
      (row.target, row.stamp.operation) :: state.targets⟩ := by
  simp only [step, accepted, StampTrail.enter_eq_ok, passed]
  constructor
  · rintro ⟨trail, ⟨hcontinues, rfl⟩, ⟨hcorrection, htarget, hprior, hstock, hcatalog⟩, rfl⟩
    exact ⟨hcontinues, hcorrection, htarget, hprior, hstock, hcatalog, rfl⟩
  · rintro ⟨hcontinues, hcorrection, htarget, hprior, hstock, hcatalog, rfl⟩
    exact ⟨_, ⟨hcontinues, rfl⟩, ⟨hcorrection, htarget, hprior, hstock, hcatalog⟩, rfl⟩

theorem validate_eq_ok : context.validate = .ok () ↔
    context.history.length ≤ hubCorrectionRows ∧ context.correction.hub = context.cut.hub ∧
    context.correction.stockRevision.value ≤ context.cut.stockRevision.value ∧
    context.correction.catalogRevision.value ≤ context.cut.catalog.revision.value ∧
    ∃ state, context.history.foldlM context.step context.start = .ok state := by
  simp only [validate, accepted, passed, and_true, and_assoc]

/-- What the replay knows after the observations. -/
structure Follows (context : CorrectionFollowUpContext)
    (history : List CorrectionFollowUpObservation) (state : FollowUpReplay) : Prop where
  trail_eq : state.trail = context.start.trail.through (history.map (·.stamp))
  targets_eq : state.targets = (history.map fun row => (row.target, row.stamp.operation)).reverse
  stock_le : state.trail.revision.value ≤ context.cut.stockRevision.value
  catalog_le : state.trail.catalog.value ≤ context.cut.catalog.revision.value

theorem follows_of_foldlM (hvalid : context.validate = .ok ())
    (h : context.history.foldlM context.step context.start = .ok state) :
    context.Follows context.history state := by
  obtain ⟨-, -, hstock, hcatalog, -⟩ := validate_eq_ok.mp hvalid
  refine foldlM_invariant (fun done state => context.Follows done state)
    ⟨rfl, rfl, hstock, hcatalog⟩ ?_ h
  intro done row rest state state' _ hfollows hstep
  obtain ⟨-, -, -, -, hstock, hcatalog, rfl⟩ := step_eq_ok.mp hstep
  exact ⟨by simp [hfollows.trail_eq], by simp [hfollows.targets_eq], hstock, hcatalog⟩

/-- The last operation for a target is that of its last observation. -/
theorem Follows.lookup_eq {history : List CorrectionFollowUpObservation}
    (h : context.Follows history state) (target : CorrectionImpact) :
    state.targets.lookup target =
      (history.reverse.find? fun row => row.target = target).map (·.stamp.operation) := by
  rw [h.targets_eq, ← List.map_reverse]
  induction history.reverse with
  | nil => rfl
  | cons row rows ih =>
    by_cases htarget : row.target = target
    · simp [htarget]
    · have hne : (target == row.target) = false := beq_false_of_ne (Ne.symm htarget)
      simp [List.lookup_cons, htarget, hne, ih]

/-- Seen from a later cut, the replay is the same. -/
theorem step_of_later (hhub : context'.cut.hub = context.cut.hub)
    (hcorrection : context'.correction = context.correction)
    (himpact : context'.impact = context.impact)
    (hstock : context.cut.stockRevision.value ≤ context'.cut.stockRevision.value)
    (hcatalog : context.cut.catalog.revision.value ≤ context'.cut.catalog.revision.value)
    (h : context.step state row = .ok state') : context'.step state row = .ok state' := by
  rw [step_eq_ok] at h ⊢
  rw [hhub, hcorrection, himpact]
  obtain ⟨hcontinues, hrow, htarget, hprior, hrowStock, hrowCatalog, heq⟩ := h
  exact ⟨hcontinues, hrow, htarget, hprior, hrowStock.trans hstock, hrowCatalog.trans hcatalog, heq⟩

/-- A later row that the replay accepts keeps the history valid, seen from a later cut. -/
theorem validate_concat {cut : AttributionCut} (hvalid : context.validate = .ok ())
    (hlength : context.history.length < hubCorrectionRows)
    (hstate : context.history.foldlM context.step context.start = .ok state)
    (hhub : cut.hub = context.cut.hub)
    (hstock : context.cut.stockRevision.value ≤ cut.stockRevision.value)
    (hcatalog : context.cut.catalog.revision.value ≤ cut.catalog.revision.value)
    (hrow : { context with cut }.step state row = .ok state') :
    { context with cut, history := context.history ++ [row] }.validate = .ok () := by
  obtain ⟨-, hhub', hstock', hcatalog', -⟩ := validate_eq_ok.mp hvalid
  refine validate_eq_ok.mpr ⟨?_, hhub'.trans hhub.symm, hstock'.trans hstock,
    hcatalog'.trans hcatalog, state', ?_⟩
  · show (context.history ++ [row]).length ≤ _
    rw [List.length_append, List.length_singleton]
    exact hlength
  · -- the earlier rows are replayed as before, and the new one comes after them
    show (context.history ++ [row]).foldlM (step { context with cut }) context.start = _
    have hlater : ∀ before later after, context.step before later = .ok after →
        step { context with cut } before later = .ok after := by
      intro before later after hstep
      exact @step_of_later context { context with cut } _ _ _ hhub rfl rfl hstock hcatalog hstep
    rw [List.foldlM_append, bind_eq_ok]
    refine ⟨state, foldlM_imp (fun a _ s s' => hlater s a s') hstate, ?_⟩
    rw [List.foldlM_cons, bind_eq_ok]
    exact ⟨state', hrow, rfl⟩

theorem current_eq {target : CorrectionImpact} (h : context.validate = .ok ()) :
    context.current target =
      if target ∈ context.impact then
        .ok (((context.history.reverse.find? fun row => row.target = target).map (·.state)).getD
          .outstanding)
      else .error .invalidScope := by
  unfold current
  rw [h, ok_bind]
  split <;> simp_all [refuse]

end CorrectionFollowUpContext

/-- **A recorded follow-up extends its history**, seen from any later cut: its target is in the
recorded state, and every other target is as it was. -/
theorem CorrectionFollowUpCommand.plan_extends {command : CorrectionFollowUpCommand}
    {context : CorrectionFollowUpContext} {operation : HubRecordId} {actor : PublicKey}
    {now : UnixTimestamp} {row : CorrectionFollowUpObservation}
    (h : command.plan context operation actor now = .ok row) {cut : AttributionCut}
    (hcut : cut.AtOrAfter row.stamp) :
    let extended := { context with cut, history := context.history ++ [row] }
    extended.validate = .ok () ∧ extended.current row.target = .ok row.state ∧
      ∀ target, target ≠ row.target → extended.current target = context.current target := by
  simp only [plan, accepted, not_or, Decidable.not_not] at h
  obtain ⟨next, hnext, hvalid, hlength, ⟨hcorrection, htarget⟩, hprior, ⟨hoperation, hfresh, htime⟩,
    rfl⟩ := h
  intro extended
  obtain ⟨hhub, hstock, hcatalog⟩ := hcut
  have hlater := AttributionCut.check_eq_ok hnext
  dsimp only at hhub hstock hcatalog
  obtain ⟨-, hhub', hstock', hcatalog', state, hstate⟩ :=
    CorrectionFollowUpContext.validate_eq_ok.mp hvalid
  have hfollows := CorrectionFollowUpContext.follows_of_foldlM hvalid hstate
  have hextended : extended.validate = .ok () := by
    refine CorrectionFollowUpContext.validate_concat hvalid (by omega) hstate hhub (by omega)
      hcatalog (CorrectionFollowUpContext.step_eq_ok.mpr ⟨?_, hcorrection, htarget, ?_, hstock,
        hcatalog, rfl⟩)
    · have hstockLe := hfollows.stock_le
      have hcatalogLe := hfollows.catalog_le
      rw [hfollows.trail_eq, StampTrail.through_revision, List.getLast?_map, Option.map_map]
        at hstockLe
      rw [hfollows.trail_eq, StampTrail.through_catalog, List.getLast?_map, Option.map_map]
        at hcatalogLe
      rw [hfollows.trail_eq]
      refine StampTrail.continues_of_plan hhub.symm hnext hstockLe hcatalogLe (not_lt.mp htime) ?_
        hfresh
      exact fun hsame => hoperation ((Finset.mem_singleton.mp hsame).trans hcorrection.symm)
    · rw [hprior]
      exact (hfollows.lookup_eq command.target).symm
  refine ⟨hextended, ?_, fun target hne => ?_⟩
  · rw [CorrectionFollowUpContext.current_eq hextended]
    simp [extended, htarget]
  · rw [CorrectionFollowUpContext.current_eq hextended, CorrectionFollowUpContext.current_eq hvalid]
    simp [extended, Ne.symm hne]

/-- **What is planned extends its history, and no impact is forgotten.**

A planned correction of a recipient or a source is accepted at the end of its history and
becomes current.  Its impact covers the departure with its populations and papers, or everything
that lies downstream of the population.  A follow-up is valid from any later cut and changes the
work of its own target only.

In an accepted history each correction names what every earlier one named, and every
interpretation up to its own. -/
theorem corrections_extend_histories :
    (∀ (command : RecipientAttributionCommand) (context : RecipientAttributionContext)
      (operation : HubRecordId) (actor : PublicKey) (now : UnixTimestamp)
      (c : RecipientAttributionCorrection), command.plan context operation actor now = .ok c →
      currentRecipientAttribution context.original (context.history ++ [c]) = .ok c.after ∧
      (∀ target ∈ (context.original.affected
          (.known context.original.recipient :: (context.history ++ [c]).map (·.after))).entries,
        target ∈ c.impact) ∧
      ∀ id ∈ context.linkedIssuedVersions, .issuedVersion id ∈ c.impact) ∧
    (∀ (command : SourceAttributionCommand) (context : SourceAttributionContext)
      (operation : HubRecordId) (actor : PublicKey) (now : UnixTimestamp)
      (c : SourceAttributionCorrection), command.plan context operation actor now = .ok c →
      currentSourceAttribution context.original (context.history ++ [c]) = .ok c.after ∧
      .population context.original.trace ∈ c.impact ∧
      (∀ event ∈ context.affected, ∀ target ∈ event.entries, target ∈ c.impact) ∧
      ∀ issued ∈ context.issuedVersions, ∀ target ∈ issued.entries, target ∈ c.impact) ∧
    (∀ (command : CorrectionFollowUpCommand) (context : CorrectionFollowUpContext)
      (operation : HubRecordId) (actor : PublicKey) (now : UnixTimestamp)
      (o : CorrectionFollowUpObservation), command.plan context operation actor now = .ok o →
      ∀ cut : AttributionCut, cut.AtOrAfter o.stamp →
        let extended := { context with cut, history := context.history ++ [o] }
        extended.validate = .ok () ∧ extended.current o.target = .ok o.state ∧
          ∀ target, target ≠ o.target → extended.current target = context.current target) ∧
    (∀ (original : OriginalRecipientAttribution)
      (earlier later : List RecipientAttributionCorrection)
      (record : RecipientAttributionCorrection) (current : AmendedRecipient),
      currentRecipientAttribution original (earlier ++ record :: later) = .ok current →
      (∀ previous ∈ earlier, ∀ target ∈ previous.impact, target ∈ record.impact) ∧
      ∀ recipient ∈ .known original.recipient :: (earlier ++ [record]).map (·.after),
        ∀ target ∈ recipient.entries original.operation, target ∈ record.impact) ∧
    ∀ (original : OriginalSourceAttribution) (earlier later : List SourceAttributionCorrection)
      (record : SourceAttributionCorrection) (current : AmendedSource),
      currentSourceAttribution original (earlier ++ record :: later) = .ok current →
      (∀ previous ∈ earlier, ∀ target ∈ previous.impact, target ∈ record.impact) ∧
      ∀ source ∈ original.source.source :: (earlier ++ [record]).map (·.after.source),
        ∀ target ∈ source.entries original.trace, target ∈ record.impact := by
  refine ⟨?_, ?_, ?_, ?_, ?_⟩
  · intro command context operation actor now c h
    obtain ⟨-, -, state, hstate, haccepts, hlinked⟩ := RecipientAttributionCommand.plan_eq_ok h
    have hfollows := replayRecipients_follows hstate
    exact ⟨RecipientAttributionCommand.plan_extends h,
      fun target => haccepts.covers hfollows, hlinked⟩
  · intro command context operation actor now c h
    obtain ⟨-, state, -, haccepts, hevents, hversions⟩ := SourceAttributionCommand.plan_eq_ok h
    exact ⟨SourceAttributionCommand.plan_extends h, haccepts.population_mem, hevents, hversions⟩
  · intro command context operation actor now o h cut hcut
    exact CorrectionFollowUpCommand.plan_extends h hcut
  · intro original earlier later record current h
    obtain ⟨hearlier, hcovers⟩ := recipient_history_retains h
    refine ⟨hearlier, fun recipient hrecipient target htarget => hcovers target ?_⟩
    exact (original.mem_entries _).2.2.2 recipient hrecipient target htarget
  · intro original earlier later record current h
    exact source_history_retains h

/-! ### The crate did not go to the kitchen -/

def crateCut (revision : HubRevision) : AttributionCut :=
  ⟨.of 1, revision, crateCatalog, crateTime, false⟩

def crateAttributionStamp (operation : HubRecordId) (revision : HubRevision) : AttributionStamp :=
  ⟨operation, .of 1, revision, .initial, crateActor, crateTime, crateNote⟩

def crateWentTo : OriginalRecipientAttribution where
  hub := .of 1
  family := .normal
  operation := .of 23
  stockRevision := .of 6
  catalogRevision := .initial
  recordedAt := crateTime
  actor := crateActor
  recipient := crateRecipient
  populations := [cratePopulation.id]
  issuedVersions := [crateDeparture.identification]

/-- Who received the crate is not known any more. -/
def crateWentElsewhere : RecipientAttributionCorrection where
  stamp := crateAttributionStamp (.of 51) (.of 7)
  original := crateWentTo
  prior := none
  before := .known crateRecipient
  after := .unknown
  impact := {
    rows := [.population cratePopulation.id, .departure (.of 23),
      .issuedVersion crateDeparture.identification, .recipient crateRecipient.id,
      .unresolvedRecipient (.of 23)]
    sorted := by decide +kernel
    nonempty := by decide
    bounded := by decide }

def crateCameFrom : OriginalSourceAttribution where
  hub := .of 1
  operation := .of 1
  trace := cratePopulation.id
  stockRevision := .of 2
  catalogRevision := .initial
  recordedAt := crateTime
  actor := crateActor
  source := ⟨.unknown, none⟩

/-- The crate is now said to come from a batch. -/
def crateCameFromBatch : SourceAttributionCorrection where
  stamp := crateAttributionStamp (.of 52) (.of 8)
  original := crateCameFrom
  prior := none
  before := ⟨.unknown, none⟩
  after := ⟨.referenced ⟨.of 61, some crateRecipient.id, .producerBatch,
    ⟨"batch 7", Eq.refl true⟩, crateNote⟩ .established, some crateRecipient⟩
  impact := {
    rows := [.population cratePopulation.id, .source (.of 61), .departure (.of 23),
      .issuedVersion crateDeparture.identification, .recipient crateRecipient.id,
      .unresolvedSource cratePopulation.id, .unresolvedRecipient (.of 23)]
    sorted := by decide +kernel
    nonempty := by decide
    bounded := by decide }

/-- The kitchen has been told. -/
def crateKitchenTold : CorrectionFollowUpObservation where
  stamp := crateAttributionStamp (.of 53) (.of 9)
  correction := .of 51
  target := .recipient crateRecipient.id
  prior := none
  state := .workRecorded

/-- The kitchen had the crate after all. -/
def crateWentBack : RecipientAttributionCorrection where
  stamp := crateAttributionStamp (.of 54) (.of 10)
  original := crateWentTo
  prior := some (.of 51)
  before := .unknown
  after := .known crateRecipient
  impact := crateWentElsewhere.impact

/-- The batch is only a possible source. -/
def crateCameFromSome : SourceAttributionCorrection where
  stamp := crateAttributionStamp (.of 55) (.of 11)
  original := crateCameFrom
  prior := some (.of 52)
  before := crateCameFromBatch.after
  after := ⟨.referenced ⟨.of 61, some crateRecipient.id, .producerBatch,
    ⟨"batch 7", Eq.refl true⟩, crateNote⟩ .reportedPossible, some crateRecipient⟩
  impact := crateCameFromBatch.impact

/-- The departure has been looked at. -/
def crateDepartureChecked : CorrectionFollowUpObservation where
  stamp := crateAttributionStamp (.of 56) (.of 12)
  correction := .of 51
  target := .departure (.of 23)
  prior := none
  state := .workRecorded

/-- Each of the three plans is made on a history that has a row already, and each is accepted: the
later correction names what the earlier one named, and the second follow-up leaves the first one's
target alone. -/
theorem corrections_extend_histories_crate :
    currentRecipientAttribution crateWentTo [crateWentElsewhere, crateWentBack] =
      .ok (.known crateRecipient) ∧
    currentSourceAttribution crateCameFrom [crateCameFromBatch, crateCameFromSome] =
      .ok crateCameFromSome.after ∧
    CorrectionFollowUpContext.current
      ⟨crateCut (.of 12), crateWentElsewhere.stamp, crateWentElsewhere.impact,
        [crateKitchenTold, crateDepartureChecked]⟩ (.departure (.of 23)) = .ok .workRecorded ∧
    CorrectionFollowUpContext.current
      ⟨crateCut (.of 12), crateWentElsewhere.stamp, crateWentElsewhere.impact,
        [crateKitchenTold, crateDepartureChecked]⟩ (.recipient crateRecipient.id) =
      .ok .workRecorded ∧
    (∀ target ∈ crateWentElsewhere.impact, target ∈ crateWentBack.impact) ∧
    (∀ target ∈ crateCameFromBatch.impact, target ∈ crateCameFromSome.impact) ∧
    .unresolvedRecipient (.of 23) ∈ crateWentBack.impact ∧
    .unresolvedSource cratePopulation.id ∈ crateCameFromSome.impact := by
  have hrecipient : RecipientAttributionCommand.plan
      ⟨.of 23, .of 9, .initial, some (.of 51), some crateRecipient.id, crateNote⟩
      ⟨crateCut (.of 9), crateWentTo, [crateWentElsewhere], [crateDeparture.identification]⟩
      (.of 54) crateActor crateTime = .ok crateWentBack := by decide +kernel
  have hsource : SourceAttributionCommand.plan
      ⟨cratePopulation.id, .of 10, .initial, some (.of 52), crateCameFromSome.after.source,
        crateNote⟩
      ⟨crateCut (.of 10), crateCameFrom, [crateCameFromBatch], [],
        [⟨.of 23, [cratePopulation.id], [.known crateRecipient, .unknown],
          [crateDeparture.identification]⟩], []⟩
      (.of 55) crateActor crateTime = .ok crateCameFromSome := by decide +kernel
  have hfollowUp : CorrectionFollowUpCommand.plan
      ⟨.of 51, .departure (.of 23), .of 11, .initial, none, .workRecorded, crateNote⟩
      ⟨crateCut (.of 11), crateWentElsewhere.stamp, crateWentElsewhere.impact, [crateKitchenTold]⟩
      (.of 56) crateActor crateTime = .ok crateDepartureChecked := by decide +kernel
  obtain ⟨recipients, sources, followUps, recipientHistory, sourceHistory⟩ :=
    corrections_extend_histories
  have hwent := (recipients _ _ _ _ _ _ hrecipient).1
  have hcame := (sources _ _ _ _ _ _ hsource).1
  obtain ⟨-, hchecked, hothers⟩ := followUps _ _ _ _ _ _ hfollowUp (crateCut (.of 12))
    ⟨rfl, le_refl _, le_refl _⟩
  obtain ⟨hwentKeeps, hwentNames⟩ := recipientHistory crateWentTo [crateWentElsewhere] [] _ _ hwent
  obtain ⟨hcameKeeps, hcameNames⟩ := sourceHistory crateCameFrom [crateCameFromBatch] [] _ _ hcame
  refine ⟨hwent, hcame, hchecked, ?_, hwentKeeps _ List.mem_cons_self,
    hcameKeeps _ List.mem_cons_self, ?_, ?_⟩
  · exact (hothers _ (by decide)).trans (by decide +kernel)
  · exact hwentNames .unknown (by simp [crateWentElsewhere]) _ (by decide)
  · exact hcameNames .unknown List.mem_cons_self _ (by decide)

end HarvestCircle
