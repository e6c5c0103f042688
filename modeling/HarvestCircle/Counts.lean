import HarvestCircle.Movement
import HarvestCircle.Treatment

/-! # Counts

A count is an observation of how many packs of one group are on hand; it does not set
the balance.  It is posted after a review, if the group is still as it was observed
and nothing else can explain the difference.  Then a shortage takes the missing packs
out of the group and drops the work still pending on them, and a surplus becomes
stock of its own.
-/
namespace HarvestCircle
open Checked

inductive CountError where
  | reference (error : HubReferenceError)
  | movement (error : MovementError)
  | stock (error : StockError)
  | staleRevision
  | revisionExhausted
  | invalidHistory
  | invalidInput
  | reviewRequired
  deriving DecidableEq, Repr

/-- The following revision, as counts refuse it. -/
def nextCount (revision : HubRevision) : Except CountError HubRevision :=
  mapErr (fun _ => .revisionExhausted) revision.next

section Identities
variable [Sha256]

def countDerivedId (purpose : String) (operation : HubRecordId) : Except CountError HubRecordId :=
  mapErr .reference (HubRecordId.derived (utf8 purpose ++ operation.asBytes))

def countRecordId (operation : HubRecordId) : Except CountError HubRecordId :=
  countDerivedId "harvestcircle.hub.count.observation.identity.v1\x00" operation

def countReconciliationId (operation : HubRecordId) : Except CountError HubRecordId :=
  countDerivedId "harvestcircle.hub.count.reconciliation.identity.v1\x00" operation

end Identities

/-! ## Observations -/

/-- What the hub reads for a count. -/
structure CountObservationContext where
  hub : HubId
  stockRevision : HubRevision
  catalog : ReferenceCatalog
  group : PhysicalStockGroup
  latestPhysicalRecordedAt : UnixTimestamp
  previousReconciliation : Option HubRecordId

/-- What is known when a count is reviewed. -/
structure CountContext extends CountObservationContext where
  latestObservation : Option HubRecordId
  unresolvedActual : Bool
  uncertainIntent : Bool

def CountObservationContext.validate (context : CountObservationContext) :
    Except CountError Unit := do
  mapErr .movement (context.group.validateCatalog context.catalog)
  refuse (∃ floor ∈ context.group.causalFloor, floor > context.latestPhysicalRecordedAt)
    .invalidHistory

/-- The group as it was observed. -/
structure CountScope where
  hub : HubId
  stockRevision : HubRevision
  catalogRevision : HubRevision
  trace : HubRecordId
  group : HubRecordId
  groupRevision : HubRevision
  product : ReferenceRecord
  variant : ReferenceRecord
  location : ReferenceRecord
  recordedPacks : WholePacks
  latestPhysicalRecordedAt : UnixTimestamp
  previousReconciliation : Option HubRecordId
  deriving DecidableEq, Repr

/-- A count as it was recorded. -/
structure CountObservation where
  id : HubRecordId
  operation : HubRecordId
  recordedRevision : HubRevision
  scope : CountScope
  countedPacks : WholePacks
  cutoff : Occurrence
  actor : PublicKey
  recordedAt : UnixTimestamp
  observation : SourceProvenance
  deriving DecidableEq, Repr

/-- Counts the packs of one group. -/
structure CountObserveCommand where
  expectedStockRevision : HubRevision
  expectedCatalogRevision : HubRevision
  group : HubRecordId
  expectedGroupRevision : HubRevision
  countedPacks : WholePacks
  cutoff : Occurrence
  observation : SourceProvenance
  deriving DecidableEq, Repr

/-- The counted packs against the recorded ones. -/
inductive CountDifference where
  | none
  | shortage (packs : WholePacks)
  | surplus (packs : WholePacks)
  deriving DecidableEq, Repr

/-- Why a count may not be posted. -/
inductive CountBlockReason where
  | scopeChanged
  | newerReconciliation
  | notLatestObservation
  | cutoffUncertain
  | cutoffPrecedesRecordedActivity
  | unresolvedActual
  | uncertainPriorOutcome
  deriving DecidableEq, Repr

/-- The difference, and all that blocks its posting. -/
structure CountReview where
  difference : CountDifference
  blockers : List CountBlockReason
  deriving DecidableEq, Repr

section Observation
variable [Sha256]

def CountObservation.validate (count : CountObservation) : Except CountError Unit := do
  let scope := count.scope
  let id ← countRecordId count.operation
  refuse (count.id ≠ id) .invalidHistory
  let revision ← nextCount scope.stockRevision
  refuse (count.recordedRevision ≠ revision ∨ scope.recordedPacks.value = 0 ∨
    packProduct scope.variant.value ≠ some scope.product.id ∨
    scope.product.value.kind ≠ .product ∨ scope.location.value.kind ≠ .location ∨
    (∃ record ∈ [scope.product, scope.variant, scope.location],
      record.revision.value > scope.catalogRevision.value) ∨
    scope.latestPhysicalRecordedAt > count.recordedAt) .invalidHistory
  mapErr (fun _ => .invalidHistory) (count.cutoff.validate count.recordedAt)

def CountObservation.difference (count : CountObservation) :
    Except CountError CountDifference := do
  count.validate
  let recorded := count.scope.recordedPacks
  if count.countedPacks.value < recorded.value then do
    let packs ← mapErr .reference (recorded.checkedSub count.countedPacks)
    return .shortage packs
  else if count.countedPacks.value > recorded.value then do
    let packs ← mapErr .reference (count.countedPacks.checkedSub recorded)
    return .surplus packs
  else return .none

/-- Records the count; the stock is not changed. -/
def CountObserveCommand.plan (command : CountObserveCommand) (context : CountObservationContext)
    (operation : HubRecordId) (actor : PublicKey) (recordedAt : UnixTimestamp) :
    Except CountError CountObservation := do
  context.validate
  refuse (command.expectedStockRevision ≠ context.stockRevision ∨
    command.expectedCatalogRevision ≠ context.catalog.revision ∨
    command.group ≠ context.group.id ∨ command.expectedGroupRevision ≠ context.group.revision)
    .staleRevision
  mapErr .stock (command.cutoff.validate recordedAt)
  let reference := fun id kind => mapErr CountError.reference (context.catalog.requireKind id kind)
  let variant ← reference context.group.variant .pack
  let product ← okOr (packProduct variant.value) .invalidHistory
  let id ← countRecordId operation
  let recordedRevision ← nextCount context.stockRevision
  let product ← reference product .product
  let location ← reference context.group.location .location
  let count : CountObservation := {
    id, operation, recordedRevision
    scope := {
      hub := context.hub, stockRevision := context.stockRevision
      catalogRevision := context.catalog.revision, trace := context.group.trace
      group := context.group.id, groupRevision := context.group.revision, product, variant
      location, recordedPacks := context.group.packs
      latestPhysicalRecordedAt := context.latestPhysicalRecordedAt
      previousReconciliation := context.previousReconciliation }
    countedPacks := command.countedPacks, cutoff := command.cutoff, actor, recordedAt
    observation := command.observation }
  count.validate
  return count

/-- The group is not what it was when it was counted. -/
def CountScope.Changed (scope : CountScope) (current : CountContext) : Prop :=
  current.hub ≠ scope.hub ∨ current.group.id ≠ scope.group ∨ current.group.trace ≠ scope.trace ∨
    current.group.variant ≠ scope.variant.id ∨ current.group.location ≠ scope.location.id ∨
    current.group.revision ≠ scope.groupRevision ∨ current.group.packs ≠ scope.recordedPacks

instance (scope : CountScope) (current : CountContext) : Decidable (scope.Changed current) :=
  inferInstanceAs (Decidable (_ ∨ _))

/-- The cutoff cannot be told apart from activity that is already recorded. -/
def cutoffBlocker (cutoff : Occurrence) (latest : UnixTimestamp) : Option CountBlockReason :=
  match cutoff with
  | .known time => if time < latest then some .cutoffPrecedesRecordedActivity else none
  | _ => some .cutoffUncertain

def CountObservation.blockers (count : CountObservation) (current : CountContext) :
    List CountBlockReason :=
  (if count.scope.Changed current then [.scopeChanged] else []) ++
  (if current.previousReconciliation ≠ count.scope.previousReconciliation then
    [.newerReconciliation] else []) ++
  (if current.latestObservation ≠ some count.id then [.notLatestObservation] else []) ++
  (cutoffBlocker count.cutoff current.latestPhysicalRecordedAt).toList ++
  (if current.unresolvedActual then [.unresolvedActual] else []) ++
  (if current.uncertainIntent then [.uncertainPriorOutcome] else [])

def CountObservation.review (count : CountObservation) (current : CountContext) :
    Except CountError CountReview := do
  count.validate
  current.toCountObservationContext.validate
  refuse (current.stockRevision.value < count.recordedRevision.value ∨
    current.catalog.revision.value < count.scope.catalogRevision.value ∨
    current.latestPhysicalRecordedAt < count.scope.latestPhysicalRecordedAt) .invalidHistory
  let difference ← count.difference
  return { difference, blockers := count.blockers current }

end Observation

/-! ## Posting -/

/-- Posts a reviewed count. -/
structure CountPostCommand where
  expectedStockRevision : HubRevision
  expectedCatalogRevision : HubRevision
  count : HubRecordId
  reviewedActivity : Bool
  surplusIdentification : Option PhysicalIdentification
  reason : SourceProvenance
  deriving DecidableEq, Repr

/-- A requirement that a shortage closed in part. -/
structure CountWorkChange where
  before : WorkRequirement
  after : WorkRequirement
  retired : WholePacks
  deriving DecidableEq, Repr

/-- What posting does to the group. -/
inductive CountEffect where
  | noVariance
  | shortage (packs afterPacks : WholePacks) (afterRevision : HubRevision)
      (workChanges : List CountWorkChange)
  | surplus (packs : WholePacks) (identification : PhysicalIdentification)
      (source : SourceAttribution) (acceptance : AcceptanceStatus)
  deriving DecidableEq, Repr

structure CountPostReferences where
  product : ReferenceRecord
  variant : ReferenceRecord
  location : ReferenceRecord
  deriving DecidableEq, Repr

/-- A posted count with the group before it. -/
structure CountPostPlan where
  id : HubRecordId
  operation : HubRecordId
  count : CountObservation
  before : PhysicalStockGroup
  stockRevision : HubRevision
  catalogRevision : HubRevision
  references : CountPostReferences
  actor : PublicKey
  recordedAt : UnixTimestamp
  confirmedOnHandAt : UnixTimestamp
  effect : CountEffect
  reason : SourceProvenance
  deriving DecidableEq, Repr

/-- The work still pending on packs that are missing is dropped. -/
def CountWorkChange.retire (packs : WholePacks) (allocation : WorkAllocation) :
    Except CountError CountWorkChange := do
  let after ← allocation.requirement.retirePacks .reference .stock .revisionExhausted packs
  return { before := allocation.requirement, after, retired := packs }

theorem CountWorkChange.retire_eq_ok {packs : WholePacks} {allocation : WorkAllocation}
    {change : CountWorkChange} (h : retire packs allocation = .ok change) :
    change.before = allocation.requirement ∧ change.before.Retires change.after packs ∧
      change.retired = packs := by
  simp only [retire, accepted] at h
  obtain ⟨after, hafter, rfl⟩ := h
  exact ⟨rfl, WorkRequirement.retirePacks_eq_ok hafter, rfl⟩

/-- The purpose of a location. -/
def locationPurpose : ReferenceValue → Option LocationPurpose
  | .location _ purpose => some purpose
  | _ => none

/-- The references at posting are later versions of those observed. -/
def CountPostReferences.validate (references : CountPostReferences) (observed : CountScope)
    (catalog : HubRevision) : Except CountError Unit := do
  [(references.product, observed.product, ReferenceKind.product),
    (references.variant, observed.variant, ReferenceKind.pack),
    (references.location, observed.location, ReferenceKind.location)].forM
    fun (posted, original, kind) =>
      refuse (posted.id ≠ original.id ∨ posted.value.kind ≠ kind ∨
        posted.revision.value < original.revision.value ∨
        posted.revision.value > catalog.value) CountError.invalidHistory
  refuse (references.variant ≠ observed.variant) .invalidHistory
  refuse (locationPurpose references.location.value = none ∨
    locationPurpose references.location.value ≠ locationPurpose observed.location.value)
    .invalidHistory

section Posting
variable [Sha256]

/-- A recorded change of pending work is the one the shortage makes. -/
def CountWorkChange.check (packs : WholePacks) (changes : List CountWorkChange)
    (allocation : WorkAllocation) : Except CountError Unit := do
  let change ← okOr (changes.find? fun change => change.before.id = allocation.requirement.id)
    .invalidHistory
  let expected ← retire packs allocation
  refuse (change ≠ expected) .invalidHistory

def CountPostPlan.checkEffect (plan : CountPostPlan) : Except CountError Unit := do
  let difference ← plan.count.difference
  match plan.effect, difference with
  | .noVariance, .none => return ()
  | .surplus packs _ source acceptance, .surplus expected =>
    refuse (packs ≠ expected ∨ source ≠ .unknown ∨ acceptance ≠ .reviewRequired) .invalidHistory
  | .shortage packs afterPacks afterRevision changes, .shortage expected => do
    refuse (packs ≠ expected ∨ afterPacks ≠ plan.count.countedPacks) .invalidHistory
    let revision ← nextCount plan.before.revision
    refuse (afterRevision ≠ revision) .invalidHistory
    refuse (plan.before.pendingWork.length ≠ changes.length) .invalidHistory
    plan.before.pendingWork.forM (CountWorkChange.check packs changes)
  | _, _ => throw .invalidHistory

def CountPostPlan.validate (plan : CountPostPlan) : Except CountError Unit := do
  plan.count.validate
  mapErr (fun _ => .invalidHistory) plan.before.validate
  let scope := plan.count.scope
  plan.references.validate scope plan.catalogRevision
  let id ← countReconciliationId plan.operation
  refuse (plan.id ≠ id ∨ plan.stockRevision.value ≤ plan.count.recordedRevision.value ∨
    plan.catalogRevision.value < scope.catalogRevision.value ∨
    plan.recordedAt < plan.count.recordedAt ∨ plan.count.cutoff ≠ .known plan.confirmedOnHandAt ∨
    plan.confirmedOnHandAt < scope.latestPhysicalRecordedAt ∨
    (∃ floor ∈ plan.before.causalFloor, floor > plan.confirmedOnHandAt) ∨
    plan.before.id ≠ scope.group ∨ plan.before.trace ≠ scope.trace ∨
    plan.before.variant ≠ scope.variant.id ∨ plan.before.location ≠ scope.location.id ∨
    plan.before.revision ≠ scope.groupRevision ∨ plan.before.packs ≠ scope.recordedPacks)
    .invalidHistory
  plan.checkEffect

/-- What a difference does to the group. -/
def CountPostCommand.effect (command : CountPostCommand) (count : CountObservation)
    (group : PhysicalStockGroup) : CountDifference → Except CountError CountEffect
  | .none => do
    refuse (command.surplusIdentification ≠ none) .invalidInput
    return .noVariance
  | .shortage packs => do
    refuse (command.surplusIdentification ≠ none) .invalidInput
    let changes ← group.pendingWork.mapM (CountWorkChange.retire packs)
    let afterRevision ← nextCount group.revision
    return .shortage packs count.countedPacks afterRevision changes
  | .surplus packs => do
    let identification ← okOr command.surplusIdentification .invalidInput
    return .surplus packs identification .unknown .reviewRequired

/-- Posts a count that nothing blocks. -/
def CountPostCommand.plan (command : CountPostCommand) (count : CountObservation)
    (current : CountContext) (operation : HubRecordId) (actor : PublicKey)
    (recordedAt : UnixTimestamp) : Except CountError CountPostPlan := do
  refuse (command.expectedStockRevision ≠ current.stockRevision ∨
    command.expectedCatalogRevision ≠ current.catalog.revision) .staleRevision
  refuse (command.count ≠ count.id ∨ command.reviewedActivity = false) .reviewRequired
  refuse (recordedAt < count.recordedAt ∨ recordedAt < current.latestPhysicalRecordedAt)
    .invalidHistory
  let review ← count.review current
  refuse (review.blockers ≠ []) .reviewRequired
  let confirmedOnHandAt ← (match count.cutoff with
    | .known time => pure time
    | _ => throw .reviewRequired)
  let effect ← command.effect count current.group review.difference
  let reference := fun id kind => mapErr CountError.reference (current.catalog.requireKind id kind)
  let variant ← reference current.group.variant .pack
  let product ← okOr (packProduct variant.value) .invalidHistory
  let product ← reference product .product
  let location ← reference current.group.location .location
  let id ← countReconciliationId operation
  let stockRevision ← nextCount current.stockRevision
  let plan : CountPostPlan := {
    id, operation, count, before := current.group, stockRevision
    catalogRevision := current.catalog.revision, references := { product, variant, location }
    actor, recordedAt, confirmedOnHandAt, effect, reason := command.reason }
  plan.validate
  return plan

/-! ## What an accepted count says -/

/-- What an observation keeps of the group it was made of. -/
structure CountObservation.Records (count : CountObservation) (context : CountObservationContext)
    (operation : HubRecordId) : Prop where
  operation_eq : count.operation = operation
  id_eq : countRecordId operation = .ok count.id
  revision_eq : nextCount context.stockRevision = .ok count.recordedRevision
  group_eq : count.scope.group = context.group.id
  groupRevision_eq : count.scope.groupRevision = context.group.revision
  packs_eq : count.scope.recordedPacks = context.group.packs
  previous_eq : count.scope.previousReconciliation = context.previousReconciliation

variable {count : CountObservation} {current : CountContext} {operation : HubRecordId}
  {recordedAt : UnixTimestamp} {difference : CountDifference} {command : CountPostCommand}

theorem CountObserveCommand.plan_eq_ok {command : CountObserveCommand}
    {context : CountObservationContext} {actor : PublicKey}
    (h : command.plan context operation actor recordedAt = .ok count) :
    count.Records context operation := by
  simp only [plan, accepted] at h
  obtain ⟨-, -, -, variant, -, product, -, id, hid, revision, hrevision, product', -, location, -,
    -, rfl⟩ := h
  exact ⟨rfl, hid, hrevision, rfl, rfl, rfl, rfl⟩

/-- The difference between the packs recorded and those counted. -/
def CountDifference.Between (recorded counted : WholePacks) : CountDifference → Prop
  | .none => counted = recorded
  | .shortage packs => 0 < packs.value ∧ packs.value + counted.value = recorded.value
  | .surplus packs => 0 < packs.value ∧ packs.value + recorded.value = counted.value

theorem CountObservation.difference_eq_ok (h : count.difference = .ok difference) :
    difference.Between count.scope.recordedPacks count.countedPacks := by
  simp only [CountObservation.difference, accepted] at h
  obtain ⟨-, h⟩ := h
  split at h
  · simp only [accepted, WholePacks.checkedSub_eq_ok] at h
    obtain ⟨packs, hpacks, rfl⟩ := h
    exact ⟨by omega, by omega⟩
  · split at h
    · simp only [accepted, WholePacks.checkedSub_eq_ok] at h
      obtain ⟨packs, hpacks, rfl⟩ := h
      exact ⟨by omega, by omega⟩
    · rw [pure_eq_ok] at h
      subst h
      exact WholePacks.ext (by omega)

/-- Nothing stands in the way of posting a count. -/
structure CountObservation.Ready (count : CountObservation) (current : CountContext) : Prop where
  scope : ¬ count.scope.Changed current
  previous : current.previousReconciliation = count.scope.previousReconciliation
  latest : current.latestObservation = some count.id
  cutoff : ∃ time, count.cutoff = .known time ∧ current.latestPhysicalRecordedAt ≤ time

omit [Sha256] in
theorem CountObservation.Ready.group_eq (h : count.Ready current) :
    current.group.id = count.scope.group := by
  have hscope := h.scope
  simp only [CountScope.Changed, passed] at hscope
  exact hscope.2.1

omit [Sha256] in
theorem cutoffBlocker_eq_none {cutoff : Occurrence} {latest : UnixTimestamp}
    (h : cutoffBlocker cutoff latest = none) : ∃ time, cutoff = .known time ∧ latest ≤ time := by
  cases cutoff with
  | known time =>
    refine ⟨time, rfl, le_of_not_gt fun hlt => ?_⟩
    simp [cutoffBlocker, hlt] at h
  | interval earliest latest => simp [cutoffBlocker] at h
  | unknown => simp [cutoffBlocker] at h

omit [Sha256] in
theorem CountObservation.ready_of_blockers (h : count.blockers current = []) :
    count.Ready current := by
  simp only [blockers, List.append_eq_nil_iff, ite_eq_right_iff, reduceCtorEq, imp_false, passed,
    Option.toList_eq_nil_iff] at h
  obtain ⟨⟨⟨⟨⟨hscope, hprevious⟩, hlatest⟩, hcutoff⟩, -⟩, -⟩ := h
  exact ⟨hscope, hprevious, hlatest, cutoffBlocker_eq_none hcutoff⟩

/-- What an effect says of the group it is for. -/
def CountEffect.Explains (group : PhysicalStockGroup) (counted : WholePacks) : CountEffect → Prop
  | .noVariance => counted = group.packs
  | .shortage packs afterPacks afterRevision changes =>
    0 < packs.value ∧ packs.value + counted.value = group.packs.value ∧ afterPacks = counted ∧
    afterRevision.value = group.revision.value + 1 ∧
    group.pendingWork.mapM (CountWorkChange.retire packs) = .ok changes
  | .surplus packs _ source acceptance =>
    0 < packs.value ∧ packs.value + group.packs.value = counted.value ∧ source = .unknown ∧
    acceptance = .reviewRequired

omit [Sha256] in
theorem CountPostCommand.effect_eq_ok {group : PhysicalStockGroup} {effect : CountEffect}
    (h : command.effect count group difference = .ok effect)
    (hdifference : difference.Between group.packs count.countedPacks) :
    effect.Explains group count.countedPacks := by
  cases difference with
  | none =>
    simp only [CountPostCommand.effect, accepted] at h
    obtain ⟨-, rfl⟩ := h
    exact hdifference
  | shortage packs =>
    simp only [CountPostCommand.effect, accepted] at h
    obtain ⟨-, changes, hchanges, revision, hrevision, rfl⟩ := h
    simp only [nextCount, mapErr_eq_ok, HubRevision.next_eq_ok] at hrevision
    exact ⟨hdifference.1, hdifference.2, rfl, hrevision, hchanges⟩
  | surplus packs =>
    simp only [CountPostCommand.effect, accepted] at h
    obtain ⟨identification, -, rfl⟩ := h
    exact ⟨hdifference.1, hdifference.2, rfl, rfl⟩

/-- What a posted count says of the group it was posted to. -/
structure CountPostPlan.Posts (posted : CountPostPlan) (count : CountObservation)
    (current : CountContext) (operation : HubRecordId) : Prop where
  operation_eq : posted.operation = operation
  id_eq : countReconciliationId operation = .ok posted.id
  revision_eq : nextCount current.stockRevision = .ok posted.stockRevision
  count_eq : posted.count = count
  before_eq : posted.before = current.group
  valid : current.group.Valid
  ready : count.Ready current
  confirmed_eq : count.cutoff = .known posted.confirmedOnHandAt
  explains : posted.effect.Explains current.group count.countedPacks

theorem CountPostCommand.plan_eq_ok {actor : PublicKey} {posted : CountPostPlan}
    (h : command.plan count current operation actor recordedAt = .ok posted) :
    posted.Posts count current operation := by
  simp only [plan, accepted, passed] at h
  obtain ⟨-, -, -, review, hreview, hblockers, time, -, effect, heffect, variant, -, product, -,
    product', -, location, -, id, hid, stockRevision, hrevision, hvalid, rfl⟩ := h
  simp only [CountObservation.review, accepted] at hreview
  obtain ⟨-, -, -, difference, hdifference, rfl⟩ := hreview
  -- the retained plan repeats the comparison with the counted group
  simp only [CountPostPlan.validate, accepted, PhysicalStockGroup.validate_eq_ok, passed] at hvalid
  obtain ⟨-, hgroup, -, _, -, ⟨-, -, -, -, hcutoff, -, -, -, -, -, -, -, hpacks⟩, -⟩ := hvalid
  have hbetween := CountObservation.difference_eq_ok hdifference
  rw [← hpacks] at hbetween
  exact {
    operation_eq := rfl
    id_eq := hid
    revision_eq := hrevision
    count_eq := rfl
    before_eq := rfl
    valid := hgroup
    ready := CountObservation.ready_of_blockers hblockers
    confirmed_eq := hcutoff
    explains := effect_eq_ok heffect hbetween }

end Posting

end HarvestCircle
