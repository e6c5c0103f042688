import HarvestCircle.HistoricalSources
import HarvestCircle.TreatmentCommands

/-! # Whether stock that left was under a hold

A hold was placed on a group, and stock of another group has left.  Whether it was under
the hold depends on where the groups came from and when they came to be: not on when
that was recorded.  `verify` looks at every anchor of the hold, walks from it down to the
group and requires a dated birth of everything it meets, and of whatever else was
separated from the anchor.

A birth is known as an occurrence only.  What a verified scope says is read against every
choice of instants the occurrences allow (`HoldScopeTiming`):
`verified_hold_scope_is_sound`.
-/
namespace HarvestCircle
open Checked

/-! ## Births -/

section
variable [Sha256]

structure ReceiptIdentities where
  trace : HubRecordId
  group : HubRecordId
  source : HubRecordId
  deriving DecidableEq, Repr

def ReceiptIdentities.fromOperationBytes (operation : HubRecordId) :
    Except StockError ReceiptIdentities := do
  let derive := fun purpose => mapErr StockError.reference (HubRecordId.derived
    (utf8 "harvestcircle.hub.receipt.identity.v1\x00" ++ utf8 purpose ++ operation.asBytes))
  let trace ← derive "trace\x00"
  let group ← derive "group\x00"
  let source ← derive "source\x00"
  return { trace, group, source }

/-- The source wraps the error in one of its own, which its callers drop. -/
def OpeningIdentities.fromOperationBytes (operation : HubRecordId) :
    Except HubReferenceError OpeningIdentities := do
  let derive := fun purpose => HubRecordId.derived
    (utf8 "harvestcircle.hub.counted-opening.identity.v1\x00" ++ utf8 purpose ++ operation.asBytes)
  let population ← derive "population\x00"
  let group ← derive "group\x00"
  let source ← derive "source\x00"
  return { population, group, source }

structure CountSurplusIdentities where
  population : HubRecordId
  group : HubRecordId
  deriving DecidableEq, Repr

def CountSurplusIdentities.fromOperation (operation : HubRecordId) :
    Except CountError CountSurplusIdentities := do
  let population ← countDerivedId "harvestcircle.hub.count.surplus.population.identity.v1\x00"
      operation
  let group ← countDerivedId "harvestcircle.hub.count.surplus.group.identity.v1\x00" operation
  return { population, group }

def treatmentRecordId (operation : HubRecordId) : Except TreatmentError HubRecordId :=
  mapErr (fun _ => .invalidSelection) (HubRecordId.derived
    (utf8 "harvestcircle.hub.treatment.record.v1\x00" ++ operation.asBytes))

structure HandlingIdentities where
  group : HubRecordId
  requirement : HubRecordId
  discrepancy : HubRecordId
  treatment : HubRecordId
  deriving DecidableEq, Repr

def HandlingIdentities.fromOperationBytes (operation : HubRecordId) :
    Except MovementError HandlingIdentities := do
  let derive := fun purpose => mapErr MovementError.reference (HubRecordId.derived
    (utf8 "harvestcircle.hub.handling.identity.v1\x00" ++ utf8 purpose ++ operation.asBytes))
  let group ← derive "group\x00"
  let requirement ← derive "work\x00"
  let discrepancy ← derive "discrepancy\x00"
  let treatment ← mapErr (fun _ => MovementError.invalidGroup) (treatmentRecordId operation)
  return { group, requirement, discrepancy, treatment }

end

/-- How a group came to be. -/
inductive ActualPhysicalBirthKind where
  | receipt
  | countedOpening
  | returned
  | countedSurplus
  | observedPortion
  | foundRemainder (allocation : UInt8)
  deriving DecidableEq, Repr

namespace ActualPhysicalBirthKind

/-- Born from a group that was there before. -/
def separates : ActualPhysicalBirthKind → Bool
  | observedPortion => true
  | foundRemainder _ => true
  | _ => false

def recovers : ActualPhysicalBirthKind → Bool
  | foundRemainder _ => true
  | _ => false

/-- Two allocations of one finding; nothing else shares its operation. -/
def Shares : ActualPhysicalBirthKind → ActualPhysicalBirthKind → Prop
  | foundRemainder a, foundRemainder b => a ≠ b
  | _, _ => False

instance : DecidableRel Shares
  | foundRemainder a, foundRemainder b => inferInstanceAs (Decidable (a ≠ b))
  | foundRemainder _, receipt | foundRemainder _, countedOpening | foundRemainder _, returned
  | foundRemainder _, countedSurplus | foundRemainder _, observedPortion => isFalse id
  | receipt, _ | countedOpening, _ | returned, _ | countedSurplus, _ | observedPortion, _ =>
    isFalse id

end ActualPhysicalBirthKind

/-- How a group came to be, as the operation that made it recorded it. -/
structure ActualPhysicalBirth where
  kind : ActualPhysicalBirthKind
  operation : HubRecordId
  hub : HubId
  trace : HubRecordId
  variant : HubRecordId
  group : HubRecordId
  parent : Option HubRecordId
  stockRevision : HubRevision
  packs : WholePacks
  actor : PublicKey
  occurred : Occurrence
  recordedAt : UnixTimestamp
  deriving DecidableEq, Repr

namespace ActualPhysicalBirth

/-- The group the operation makes, and the population where it makes one. -/
def identities [Sha256] (birth : ActualPhysicalBirth) :
    Except ActualReportError (HubRecordId × Option HubRecordId) :=
  match birth.kind with
  | .receipt => do
    let ids ← mapErr (fun _ => ActualReportError.invalidNativeContext)
      (ReceiptIdentities.fromOperationBytes birth.operation)
    return (ids.group, some ids.trace)
  | .countedOpening => do
    let ids ← mapErr (fun _ => ActualReportError.invalidNativeContext)
      (OpeningIdentities.fromOperationBytes birth.operation)
    return (ids.group, some ids.population)
  | .returned => do
    let ids ← mapErr (fun _ => ActualReportError.invalidNativeContext)
      (ReturnIdentities.fromOperationBytes birth.operation)
    return (ids.group, some ids.population)
  | .countedSurplus => do
    let ids ← mapErr (fun _ => ActualReportError.invalidNativeContext)
      (CountSurplusIdentities.fromOperation birth.operation)
    return (ids.group, some ids.population)
  | .observedPortion => do
    let ids ← mapErr (fun _ => ActualReportError.invalidNativeContext)
      (HandlingIdentities.fromOperationBytes birth.operation)
    return (ids.group, none)
  | .foundRemainder allocation => do
    let group ← mapErr (fun _ => ActualReportError.invalidNativeContext)
      (foundStockGroupId birth.operation allocation)
    return (group, none)

def validate [Sha256] (birth : ActualPhysicalBirth) (graph : PhysicalLineage)
    (now : UnixTimestamp) :
    Except ActualReportError Unit := do
  let (group, population) ← birth.identities
  let node ← okOr (graph.node birth.group) .invalidNativeContext
  refuse (birth.group ≠ group ∨ birth.hub ≠ graph.hub ∨ birth.trace ≠ graph.trace ∨
    birth.variant ≠ graph.variant ∨ (∃ trace ∈ population, trace ≠ birth.trace) ∨
    birth.parent ≠ node.parent ∨ birth.kind.separates ≠ birth.parent.isSome ∨
    birth.kind.recovers ≠ node.recovery.isSome ∨
    (node.recovery.isSome = true ∧ birth.occurred ≠ .known birth.recordedAt) ∨
    (∃ origin ∈ node.recovery, origin.debitOperation = birth.operation) ∨
    birth.stockRevision ≠ node.createdRevision ∨ birth.stockRevision = .initial ∨
    birth.packs.value = 0 ∨ birth.recordedAt > now) .invalidNativeContext
  mapErr (fun _ => .invalidNativeContext) (birth.occurred.validate birth.recordedAt)

/-- What two groups one operation made have in common. -/
def SharesOperation (prior birth : ActualPhysicalBirth) : Prop :=
  prior.kind.Shares birth.kind ∧ prior.hub = birth.hub ∧ prior.trace = birth.trace ∧
    prior.variant = birth.variant ∧ prior.stockRevision = birth.stockRevision ∧
    prior.actor = birth.actor ∧ prior.occurred = birth.occurred ∧
    prior.recordedAt = birth.recordedAt

instance (prior birth : ActualPhysicalBirth) : Decidable (prior.SharesOperation birth) :=
  inferInstanceAs (Decidable (_ ∧ _))

end ActualPhysicalBirth

/-! ## The verification -/

/-- Why it is open whether a hold applied. -/
inductive HistoricalHoldScopeUncertainty where
  | scopeNotEstablished
  | missingBirth
  | unknownBirthTime
  | groupNotPresentAtDeparture
  | anchorNotPresentAtEffectiveTime
  | uncertainPhysicalAncestry
  | expandedPhysicalScope
  | anchorCohortUnverified
  deriving DecidableEq, Repr

/-- A hold that did apply, with its evidence. -/
structure VerifiedHistoricalHoldScope where
  original : Hold
  group : HubRecordId
  occurred : Occurrence
  lineageRevision : HubRevision
  timing : HistoricalHoldTiming
  births : List ActualPhysicalBirth
  deriving DecidableEq

/-- Whether a hold applied to the stock. -/
inductive HistoricalHoldScopeAssessment where
  | unresolved (original : Hold) (conditionalTiming : HistoricalHoldTiming)
      (reason : HistoricalHoldScopeUncertainty)
  | verified (scope : VerifiedHistoricalHoldScope)
  deriving DecidableEq

/-- What a hold is assessed against. -/
structure HistoricalHoldScopeContext where
  lineage : PhysicalLineage
  group : HubRecordId
  occurred : Occurrence
  births : List ActualPhysicalBirth
  now : UnixTimestamp
  deriving DecidableEq

/-- The births by the group they are of. -/
abbrev BirthsByGroup := Std.TreeMap HubRecordId ActualPhysicalBirth

namespace PhysicalLineage

/-- The groups from the anchor down to a group of its cohort. -/
def parentPath (graph : PhysicalLineage) (anchor group : HubRecordId) : Option (List HubRecordId) :=
  lineageFamily.route graph.node anchor (graph.nodes.length + 1) group

/-- What a birth left never grows beyond what was born. -/
def birthSubtree (graph : PhysicalLineage) (birth : ActualPhysicalBirth) :
    Except HistoricalHoldScopeUncertainty Unit := do
  let node ← okOr (graph.node birth.group) .missingBirth
  let original ← mapErr (fun _ => .uncertainPhysicalAncestry)
    (graph.restoreScope birth.stockRevision [⟨birth.group, node.createdRevision, birth.packs⟩])
  let resolved ← mapErr (fun _ => .uncertainPhysicalAncestry) (graph.resolve original)
  refuse (resolved.packs.value > birth.packs.value) .expandedPhysicalScope

/-- The parent was born before the group can have been. -/
def parentBorn (births : BirthsByGroup) (born : UnixTimestamp) :
    Option HubRecordId → Except HistoricalHoldScopeUncertainty Unit
  | none => .ok ()
  | some parent => do
    let parent ← okOr births[parent]? .missingBirth
    let before ← okOr parent.occurred.bounds .unknownBirthTime
    refuse (born < before.2) .uncertainPhysicalAncestry

/-- The birth of a group separated from the anchor: after the hold was placed, and after its
parent's. -/
def detachment (graph : PhysicalLineage) (effective : Occurrence) (births : BirthsByGroup)
    (node : PhysicalLineageNode) : Except HistoricalHoldScopeUncertainty ActualPhysicalBirth := do
  let birth ← okOr births[node.id]? .missingBirth
  let born ← okOr birth.occurred.bounds .unknownBirthTime
  refuse (¬ ∃ placed ∈ effective.bounds, placed.2 ≤ born.1) .anchorCohortUnverified
  parentBorn births born.1 node.parent
  graph.birthSubtree birth
  return birth

/-- The rest of the anchor's cohort. -/
def cohort (graph : PhysicalLineage) (anchor : HubRecordId) (captured : HubRevision) :
    List PhysicalLineageNode :=
  graph.nodes.filter fun n => n.id ≠ anchor ∧ graph.capturedMember anchor captured n.id = true

def cohortDetachments (graph : PhysicalLineage) (anchor : HubRecordId) (captured : HubRevision)
    (effective : Occurrence) (births : BirthsByGroup) :
    Except HistoricalHoldScopeUncertainty (List ActualPhysicalBirth) :=
  (graph.cohort anchor captured).mapM (graph.detachment effective births)

end PhysicalLineage

/-- By revision and group, each group once. -/
def sortBirths (births : List ActualPhysicalBirth) : List ActualPhysicalBirth :=
  (births.insertionSort fun a b =>
    toLex (a.stockRevision.value, a.group) ≤ toLex (b.stockRevision.value, b.group)).destutter
    fun a b => a.group ≠ b.group

namespace HistoricalHoldScopeContext

/-- One birth of the context: no group is born twice, no operation makes two unrelated groups. -/
def collect [Sha256] (context : HistoricalHoldScopeContext)
    (seen : BirthsByGroup × BirthsByGroup) (birth : ActualPhysicalBirth) :
    Except ActualReportError (BirthsByGroup × BirthsByGroup) := do
  birth.validate context.lineage context.now
  refuse (seen.1[birth.group]?.isSome = true) .invalidNativeContext
  refuse (∃ prior ∈ seen.2[birth.operation]?, ¬ prior.SharesOperation birth) .invalidNativeContext
  return (seen.1.insert birth.group birth, seen.2.insert birth.operation birth)

/-- One group of the path from the anchor: the births so far and the end of the last one. -/
def prove (graph : PhysicalLineage) (hold : Hold) (births : BirthsByGroup)
    (departMin : UnixTimestamp) (anchor : PhysicalScopeAnchor)
    (so : Option UnixTimestamp × List ActualPhysicalBirth) (group : HubRecordId) :
    Except HistoricalHoldScopeUncertainty (Option UnixTimestamp × List ActualPhysicalBirth) := do
  let birth ← okOr births[group]? .missingBirth
  let born ← okOr birth.occurred.bounds .unknownBirthTime
  refuse (group = anchor.group ∧ anchor.capturedPacks.value > birth.packs.value)
    .expandedPhysicalScope
  -- what remains of a cohort is not the whole of what was born
  refuse (group = anchor.group ∧ (anchor.capturedPacks ≠ birth.packs ∨ ∃ n ∈ graph.nodes,
    n.parent = some group ∧ n.createdRevision.value ≤ hold.scope.capturedRevision.value))
    .anchorCohortUnverified
  refuse (born.2 > departMin) .groupNotPresentAtDeparture
  refuse (group = anchor.group ∧ ∃ placed ∈ hold.stamp.occurred.bounds, born.2 > placed.1)
    .anchorNotPresentAtEffectiveTime
  refuse (∃ before ∈ so.1, born.1 < before) .uncertainPhysicalAncestry
  -- a split recorded late may have been made before the hold was placed
  refuse (group ≠ anchor.group ∧ ¬ ∃ placed ∈ hold.stamp.occurred.bounds, placed.2 ≤ born.1)
    .uncertainPhysicalAncestry
  graph.birthSubtree birth
  return (some born.2, so.2 ++ [birth])

/-- The births that show the path and the rest of the anchor's cohort. -/
def proofs (graph : PhysicalLineage) (hold : Hold) (births : BirthsByGroup)
    (departMin : UnixTimestamp) (anchor : PhysicalScopeAnchor) (path : List HubRecordId) :
    Except HistoricalHoldScopeUncertainty (List ActualPhysicalBirth) := do
  let (_, proofs) ← path.foldlM (prove graph hold births departMin anchor) (none, [])
  let detachments ← graph.cohortDetachments anchor.group hold.scope.capturedRevision
    hold.stamp.occurred births
  return sortBirths (proofs ++ detachments)

/-- One anchor: not about the group at all, uncertain, or shown. -/
def assessAnchor (context : HistoricalHoldScopeContext) (hold : Hold) (births : BirthsByGroup)
    (departMin : UnixTimestamp) (anchor : PhysicalScopeAnchor) :
    Except ActualReportError
      (Option (Except HistoricalHoldScopeUncertainty (List ActualPhysicalBirth))) := do
  let graph := context.lineage
  let single ← mapErr (fun _ => .invalidNativeContext)
    (graph.restoreScope hold.scope.capturedRevision [anchor])
  if graph.capturedMember anchor.group single.capturedRevision context.group = false then
    return none
  else do
    let resolved ← mapErr (fun _ => .invalidNativeContext) (graph.resolve single)
    if resolved.packs.value > anchor.capturedPacks.value then
      return some (.error .expandedPhysicalScope)
    else do
      let path ← okOr (graph.parentPath anchor.group context.group) .invalidNativeContext
      return some (proofs graph hold births departMin anchor path)

/-- The first anchor that is shown, or the last reason why one was not. -/
def assessAnchors (context : HistoricalHoldScopeContext) (hold : Hold) (births : BirthsByGroup)
    (departMin : UnixTimestamp) : HistoricalHoldScopeUncertainty → List PhysicalScopeAnchor →
    Except ActualReportError (Except HistoricalHoldScopeUncertainty (List ActualPhysicalBirth))
  | reason, [] => return .error reason
  | reason, anchor :: anchors => do
    match ← context.assessAnchor hold births departMin anchor with
    | none => context.assessAnchors hold births departMin reason anchors
    | some (.error reason) => context.assessAnchors hold births departMin reason anchors
    | some (.ok births) => return .ok births

def verify [Sha256] (context : HistoricalHoldScopeContext) (hold : Hold) :
    Except ActualReportError HistoricalHoldScopeAssessment := do
  mapErr (fun _ => .invalidInput) (context.occurred.validate context.now)
  let _ ← okOr (context.lineage.node context.group) .invalidNativeContext
  mapErr (fun _ => .invalidNativeContext)
    (TreatmentState.validate ⟨[], [hold], []⟩ context.lineage)
  refuse (hold.stamp.recordedAt > context.now ∨
    ∃ release ∈ hold.release, release.recordedAt > context.now) .invalidNativeContext
  let timing := classifyHoldTiming context.occurred hold.stamp.occurred
    (hold.release.map TreatmentStamp.occurred)
  refuse (context.births.length > hubLineageGroups) .capacity
  let (births, _) ← context.births.foldlM context.collect (∅, ∅)
  match context.occurred.bounds with
  | none => return .unresolved hold timing .groupNotPresentAtDeparture
  | some (departMin, _) =>
    match ← context.assessAnchors hold births departMin .scopeNotEstablished hold.scope.anchors with
    | .error reason => return .unresolved hold timing reason
    | .ok births => return .verified {
        original := hold, group := context.group, occurred := context.occurred
        lineageRevision := context.lineage.revision, timing, births }

/-! ## What a verified scope rests on -/

/-- The births that were collected are those of the context, by their groups. -/
def Collected (births : List ActualPhysicalBirth) (byGroup : BirthsByGroup) : Prop :=
  ∀ group birth, byGroup[group]? = some birth → birth ∈ births ∧ birth.group = group

theorem collected [Sha256] {context : HistoricalHoldScopeContext}
    {seen : BirthsByGroup × BirthsByGroup}
    (h : context.births.foldlM context.collect (∅, ∅) = .ok seen) :
    Collected context.births seen.1 := by
  refine foldlM_invariant (fun done seen => Collected done seen.1) (by simp [Collected]) ?_ h
  rintro done birth rest seen seen' - hdone hcollect group b hb
  simp only [collect, accepted] at hcollect
  obtain ⟨-, -, -, rfl⟩ := hcollect
  rw [Std.TreeMap.getElem?_insert] at hb
  split at hb
  · rename_i hgroup
    obtain rfl := Option.some.inj hb
    exact ⟨by simp, compare_eq_iff_eq.mp hgroup⟩
  · obtain ⟨hmem, hgroup⟩ := hdone group b hb
    exact ⟨List.mem_append_left _ hmem, hgroup⟩

section
variable {graph : PhysicalLineage} {hold : Hold} {births : BirthsByGroup}
  {departMin : UnixTimestamp} {anchor : PhysicalScopeAnchor}

variable (births) in
/-- The group has a birth with these bounds. -/
def Dated (group : HubRecordId) (born : UnixTimestamp × UnixTimestamp) : Prop :=
  ∃ birth, births[group]? = some birth ∧ birth.occurred.bounds = some born

variable (births) in
/-- One group was born before the other can have been. -/
def Older (parent child : HubRecordId) : Prop :=
  ∃ before born, Dated births parent before ∧ Dated births child born ∧ before.2 ≤ born.1

variable (graph hold births anchor) in
/-- The anchor was whole when it was captured, and there when the hold was placed. -/
structure AnchorWhole : Prop where
  packs : ∃ birth, births[anchor.group]? = some birth ∧ birth.packs = anchor.capturedPacks
  childless : ∀ n ∈ graph.nodes, n.parent = some anchor.group →
    hold.scope.capturedRevision.value < n.createdRevision.value
  placed : ∃ born, Dated births anchor.group born ∧
    ∀ placed ∈ hold.stamp.occurred.bounds, born.2 ≤ placed.1

variable (graph hold births departMin anchor) in
/-- What the walk down the path has shown. -/
structure Proved (done : List HubRecordId)
    (so : Option UnixTimestamp × List ActualPhysicalBirth) : Prop where
  groups : so.2.map ActualPhysicalBirth.group = done
  known : ∀ birth ∈ so.2, births[birth.group]? = some birth
  present : ∀ group ∈ done, ∃ born, Dated births group born ∧ born.2 ≤ departMin
  whole : anchor.group ∈ done → AnchorWhole graph hold births anchor
  ordered : done.IsChain (Older births)
  last : ∀ group ∈ done.getLast?, ∃ born, Dated births group born ∧ so.1 = some born.2

variable {context : List ActualPhysicalBirth} {group : HubRecordId} {birth : ActualPhysicalBirth}

theorem Proved.prove {done : List HubRecordId}
    {so so' : Option UnixTimestamp × List ActualPhysicalBirth}
    (hcollected : Collected context births) (h : Proved graph hold births departMin anchor done so)
    (hprove : prove graph hold births departMin anchor so group = .ok so') :
    Proved graph hold births departMin anchor (done ++ [group]) so' := by
  simp only [HistoricalHoldScopeContext.prove, accepted, not_and, passed, not_exists] at hprove
  obtain ⟨birth, hbirth, born, hborn, -, hwhole, hpresent, hplaced, hbefore, -, -, rfl⟩ := hprove
  obtain ⟨-, rfl⟩ := hcollected group birth hbirth
  have hdated : Dated births birth.group born := ⟨birth, hbirth, hborn⟩
  refine ⟨?_, ?_, ?_, ?_, ?_, ?_⟩
  · rw [List.map_append, h.groups, List.map_singleton]
  · intro b hb
    rcases List.mem_append.mp hb with hb | hb
    · exact h.known b hb
    · exact List.mem_singleton.mp hb ▸ hbirth
  · intro g hg
    rcases List.mem_append.mp hg with hg | hg
    · exact h.present g hg
    · exact List.mem_singleton.mp hg ▸ ⟨born, hdated, hpresent⟩
  · intro hmem
    by_cases hanchor : birth.group = anchor.group
    · obtain ⟨hpacks, hchildless⟩ := hwhole hanchor
      refine ⟨⟨birth, hanchor ▸ hbirth, hpacks.symm⟩, fun n hn hparent => ?_, born,
        hanchor ▸ hdated, fun placed hp => hplaced hanchor placed hp⟩
      exact hchildless n hn (hanchor ▸ hparent)
    · exact h.whole (by simpa [Ne.symm hanchor] using hmem)
  · refine h.ordered.append (.singleton _) fun last hlast next hnext => ?_
    obtain rfl := Option.mem_some_iff.mp hnext
    obtain ⟨before, hlastdated, hso⟩ := h.last last hlast
    exact ⟨before, born, hlastdated, hdated, hbefore _ hso⟩
  · intro g hg
    rw [List.getLast?_concat, Option.mem_some_iff] at hg
    exact hg ▸ ⟨born, hdated, rfl⟩

/-- Each of the rest of the cohort was born after the hold was placed and after its parent. -/
theorem detachment_eq_ok {node : PhysicalLineageNode} {effective : Occurrence}
    (h : graph.detachment effective births node = .ok birth) :
    births[node.id]? = some birth ∧
    (∃ born, Dated births node.id born ∧ ∃ placed ∈ effective.bounds, placed.2 ≤ born.1) ∧
    ∀ parent ∈ node.parent, Older births parent node.id := by
  simp only [PhysicalLineage.detachment, accepted, Decidable.not_not] at h
  obtain ⟨birth, hbirth, born, hborn, hplaced, hparent, -, rfl⟩ := h
  have hdated : Dated births node.id born := ⟨birth, hbirth, hborn⟩
  refine ⟨hbirth, ⟨born, hdated, hplaced⟩, fun parent hp => ?_⟩
  rw [Option.mem_def] at hp
  simp only [hp, PhysicalLineage.parentBorn, accepted, not_lt] at hparent
  obtain ⟨parentBirth, hparentBirth, before, hbefore, hle⟩ := hparent
  exact ⟨before, born, ⟨parentBirth, hparentBirth, hbefore⟩, hdated, hle⟩

variable (graph hold births departMin anchor) in
/-- What the births of a verified scope show. -/
structure Shown (path : List HubRecordId) (shown : List ActualPhysicalBirth) : Prop where
  whole : AnchorWhole graph hold births anchor
  present : ∀ group ∈ path, ∃ born, Dated births group born ∧ born.2 ≤ departMin
  ordered : path.IsChain (Older births)
  detached : ∀ n ∈ graph.cohort anchor.group hold.scope.capturedRevision,
    (∃ born, Dated births n.id born ∧ ∃ placed ∈ hold.stamp.occurred.bounds, placed.2 ≤ born.1) ∧
    ∀ parent ∈ n.parent, Older births parent n.id
  known : ∀ birth ∈ shown, births[birth.group]? = some birth
  distinct : (shown.map ActualPhysicalBirth.group).Nodup
  groups : ∀ group, group ∈ shown.map ActualPhysicalBirth.group ↔
    group ∈ path ∨ ∃ n ∈ graph.cohort anchor.group hold.scope.capturedRevision, n.id = group

variable {l : List ActualPhysicalBirth}

theorem sortBirths_groups :
    group ∈ (sortBirths l).map ActualPhysicalBirth.group ↔
      group ∈ l.map ActualPhysicalBirth.group := by
  simp only [List.mem_map]
  constructor
  · rintro ⟨birth, hbirth, rfl⟩
    exact ⟨birth, (List.mem_insertionSort _).mp ((List.destutter_sublist _ _).mem hbirth), rfl⟩
  · rintro ⟨birth, hbirth, rfl⟩
    exact exists_mem_destutter ((List.mem_insertionSort _).mpr hbirth)

theorem mem_of_mem_sortBirths (h : birth ∈ sortBirths l) : birth ∈ l :=
  (List.mem_insertionSort _).mp ((List.destutter_sublist _ _).mem h)

/-- Each group has one birth, so neighbours of one group are the only repetitions. -/
theorem sortBirths_distinct (h : ∀ birth ∈ l, births[birth.group]? = some birth) :
    ((sortBirths l).map ActualPhysicalBirth.group).Nodup := by
  let key (b : ActualPhysicalBirth) := toLex (b.stockRevision.value, b.group)
  have hsorted : (sortBirths l).Pairwise fun a b => key a ≤ key b :=
    (List.pairwise_insertionSort (fun a b => key a ≤ key b) l).sublist (List.destutter_sublist _ _)
  have hne : (sortBirths l).IsChain fun a b => key a ≠ key b :=
    (List.isChain_destutter _ _).imp fun a b hgroup hkey =>
      hgroup (congrArg (fun k => (ofLex k).2) hkey)
  rw [List.Nodup, List.pairwise_map]
  refine (pairwise_lt_of_isChain_ne key hsorted hne).imp_of_mem fun {a b} ha hb hlt hgroup => ?_
  have hsame := h b (mem_of_mem_sortBirths hb)
  rw [← hgroup, h a (mem_of_mem_sortBirths ha)] at hsame
  exact absurd (congrArg key (Option.some.inj hsame)) hlt.ne

theorem proofs_eq_ok {path : List HubRecordId} {shown : List ActualPhysicalBirth}
    (hcollected : Collected context births) (hhead : path.head? = some anchor.group)
    (h : proofs graph hold births departMin anchor path = .ok shown) :
    Shown graph hold births departMin anchor path shown := by
  simp only [proofs, accepted] at h
  obtain ⟨so, hpath, detachments, hdetached, rfl⟩ := h
  have hproved : Proved graph hold births departMin anchor path so := by
    refine foldlM_invariant (Proved graph hold births departMin anchor) ?_ ?_ hpath
    · exact ⟨rfl, by simp, by simp, by simp, .nil, by simp⟩
    · rintro done group rest so so' - hdone hprove
      exact hdone.prove hcollected hprove
  have hrest : ∀ birth ∈ detachments, births[birth.group]? = some birth := by
    intro birth hbirth
    obtain ⟨n, -, hn⟩ := (mem_of_mapM hdetached birth).mp hbirth
    obtain ⟨hget, -⟩ := detachment_eq_ok hn
    obtain ⟨-, hgroup⟩ := hcollected _ _ hget
    exact hgroup ▸ hget
  have hknown : ∀ birth ∈ so.2 ++ detachments, births[birth.group]? = some birth := by
    intro birth hbirth
    rcases List.mem_append.mp hbirth with hmem | hmem
    · exact hproved.known birth hmem
    · exact hrest birth hmem
  refine ⟨hproved.whole (List.mem_of_mem_head? hhead), hproved.present, hproved.ordered, ?_,
    fun birth hb => hknown birth (mem_of_mem_sortBirths hb), sortBirths_distinct hknown, ?_⟩
  · intro n hn
    obtain ⟨birth, -, hbirth⟩ := exists_of_mapM hdetached hn
    exact (detachment_eq_ok hbirth).2
  · intro group
    rw [sortBirths_groups, List.map_append, List.mem_append, hproved.groups]
    refine or_congr_right ⟨?_, ?_⟩
    · intro hgroup
      obtain ⟨birth, hbirth, rfl⟩ := List.mem_map.mp hgroup
      obtain ⟨n, hmem, hn⟩ := (mem_of_mapM hdetached birth).mp hbirth
      exact ⟨n, hmem, (hcollected _ _ (detachment_eq_ok hn).1).2.symm⟩
    · rintro ⟨n, hmem, rfl⟩
      obtain ⟨birth, hbirth, hn⟩ := exists_of_mapM hdetached hmem
      exact List.mem_map.mpr ⟨birth, hbirth, (hcollected _ _ (detachment_eq_ok hn).1).2⟩

end

section
variable {context : HistoricalHoldScopeContext} {hold : Hold} {births : BirthsByGroup}
  {departMin : UnixTimestamp} {anchor : PhysicalScopeAnchor} {shown : List ActualPhysicalBirth}

variable (context hold births departMin anchor shown) in
/-- The anchor has the group in its cohort, and births show how. -/
def AnchorShows : Prop :=
  context.lineage.capturedMember anchor.group hold.scope.capturedRevision context.group = true ∧
  ∃ path, path.head? = some anchor.group ∧ path.getLast? = some context.group ∧
    path.IsChain (lineageFamily.IsParent context.lineage.node) ∧
    Shown context.lineage hold births departMin anchor path shown

theorem assessAnchor_shows (hcollected : Collected context.births births)
    (h : context.assessAnchor hold births departMin anchor = .ok (some (.ok shown))) :
    AnchorShows context hold births departMin anchor shown := by
  simp only [assessAnchor, accepted] at h
  obtain ⟨single, hsingle, h⟩ := h
  rw [(PhysicalLineage.restoreScope_eq_ok.mp hsingle).2.1] at h
  split at h
  · cases h
  · rename_i hmember
    rw [Bool.not_eq_false] at hmember
    simp only [accepted] at h
    obtain ⟨resolved, -, h⟩ := h
    split at h
    · cases h
    · simp only [accepted, Option.some.injEq] at h
      obtain ⟨path, hpath, hproofs⟩ := h
      obtain ⟨hhead, hlast, hchain⟩ := Descent.Family.route_eq_some hpath
      exact ⟨hmember, path, hhead, hlast, hchain, proofs_eq_ok hcollected hhead hproofs⟩

/-- Some anchor shows it, whichever reasons the ones before gave. -/
theorem assessAnchors_shows (hcollected : Collected context.births births)
    {reason : HistoricalHoldScopeUncertainty} {anchors : List PhysicalScopeAnchor}
    (h : context.assessAnchors hold births departMin reason anchors = .ok (.ok shown)) :
    ∃ anchor ∈ anchors, AnchorShows context hold births departMin anchor shown := by
  induction anchors generalizing reason with
  | nil => cases h
  | cons anchor anchors ih =>
    simp only [assessAnchors, bind_eq_ok] at h
    obtain ⟨outcome, houtcome, h⟩ := h
    have hlater : ∀ {reason}, context.assessAnchors hold births departMin reason anchors =
        .ok (.ok shown) →
        ∃ a ∈ anchor :: anchors, AnchorShows context hold births departMin a shown := fun h => by
      obtain ⟨a, ha, hshows⟩ := ih h
      exact ⟨a, List.mem_cons_of_mem _ ha, hshows⟩
    split at h
    · exact hlater h
    · exact hlater h
    · obtain rfl := Except.ok.inj (Except.ok.inj h)
      exact ⟨anchor, List.mem_cons_self, assessAnchor_shows hcollected houtcome⟩

theorem verify_eq_verified [Sha256] {scope : VerifiedHistoricalHoldScope}
    (h : context.verify hold = .ok (.verified scope)) :
    scope.original = hold ∧ scope.group = context.group ∧
    scope.timing = classifyHoldTiming context.occurred hold.stamp.occurred
      (hold.release.map TreatmentStamp.occurred) ∧
    ∃ births departure, Collected context.births births ∧
      context.occurred.bounds = some departure ∧
      ∃ anchor ∈ hold.scope.anchors,
        AnchorShows context hold births departure.1 anchor scope.births := by
  simp only [verify, accepted] at h
  obtain ⟨-, node, -, -, -, -, seen, hseen, h⟩ := h
  cases hbounds : context.occurred.bounds with
  | none => simp [hbounds] at h
  | some departure =>
    simp only [hbounds, bind_eq_ok] at h
    obtain ⟨outcome, houtcome, h⟩ := h
    cases outcome with
    | error reason => cases h
    | ok shown =>
      obtain rfl := HistoricalHoldScopeAssessment.verified.inj (Except.ok.inj h)
      exact ⟨rfl, rfl, rfl, seen.1, departure, collected hseen, rfl,
        assessAnchors_shows (collected hseen) houtcome⟩

end

end HistoricalHoldScopeContext

/-! ## Every possible timing -/

/-- One instant for the birth of each group, for the placement of the hold and for the departure. -/
structure HoldScopeTiming (context : HistoricalHoldScopeContext) (hold : Hold) where
  born : HubRecordId → Int
  placement : Int
  departure : Int
  born_allowed : ∀ birth ∈ context.births, birth.occurred.Allows (born birth.group)
  placement_allowed : hold.stamp.occurred.Allows placement
  departure_allowed : context.occurred.Allows departure

namespace HoldScopeTiming
open HistoricalHoldScopeContext
variable {context : HistoricalHoldScopeContext} {hold : Hold}
  (timing : HoldScopeTiming context hold)
  {births : BirthsByGroup} (hcollected : Collected context.births births)
include hcollected

variable {group : HubRecordId}

theorem born_between {born : UnixTimestamp × UnixTimestamp} (h : Dated births group born) :
    born.1.seconds ≤ timing.born group ∧ timing.born group ≤ born.2.seconds := by
  obtain ⟨birth, hbirth, hbounds⟩ := h
  obtain ⟨hmem, rfl⟩ := hcollected group birth hbirth
  exact Occurrence.allows_iff.mp (timing.born_allowed birth hmem) born hbounds

theorem born_le {parent child : HubRecordId} (h : Older births parent child) :
    timing.born parent ≤ timing.born child := by
  obtain ⟨before, born, hparent, hchild, hle⟩ := h
  have hbefore := timing.born_between hcollected hparent
  have hborn := timing.born_between hcollected hchild
  rw [UnixTimestamp.le_iff] at hle
  omega

theorem born_le_departure {departure : UnixTimestamp × UnixTimestamp}
    (hdeparture : context.occurred.bounds = some departure)
    (h : ∃ born, Dated births group born ∧ born.2 ≤ departure.1) :
    timing.born group ≤ timing.departure := by
  obtain ⟨born, hdated, hle⟩ := h
  have hborn := timing.born_between hcollected hdated
  have hleft := Occurrence.allows_iff.mp timing.departure_allowed departure hdeparture
  rw [UnixTimestamp.le_iff] at hle
  omega

/-- An anchor that was whole was there when the hold was placed, if that is known. -/
theorem anchor_le_placement {anchor : PhysicalScopeAnchor}
    (h : AnchorWhole context.lineage hold births anchor) (hknown : hold.stamp.occurred ≠ .unknown) :
    timing.born anchor.group ≤ timing.placement := by
  obtain ⟨born, hdated, hplaced⟩ := h.placed
  have hborn := timing.born_between hcollected hdated
  cases hbounds : hold.stamp.occurred.bounds with
  | none =>
    cases hoccurred : hold.stamp.occurred with
    | unknown => exact absurd hoccurred hknown
    | known time => simp [hoccurred, Occurrence.bounds] at hbounds
    | interval earliest latest => simp [hoccurred, Occurrence.bounds] at hbounds
  | some placed =>
    have hle := hplaced placed hbounds
    have hplacement := Occurrence.allows_iff.mp timing.placement_allowed placed hbounds
    rw [UnixTimestamp.le_iff] at hle
    omega

theorem placement_le (h : ∃ born, Dated births group born ∧ ∃ placed ∈ hold.stamp.occurred.bounds,
      placed.2 ≤ born.1) : timing.placement ≤ timing.born group := by
  obtain ⟨born, hdated, placed, hbounds, hle⟩ := h
  have hborn := timing.born_between hcollected hdated
  have hplacement := Occurrence.allows_iff.mp timing.placement_allowed placed hbounds
  rw [UnixTimestamp.le_iff] at hle
  omega

omit hcollected in
/-- An established breach is one at every instant, with any release the occurrences allow. -/
theorem breach (h : classifyHoldTiming context.occurred hold.stamp.occurred
      (hold.release.map TreatmentStamp.occurred) = .establishedBreach) :
    timing.placement ≤ timing.departure ∧
      ∀ release ∈ hold.release, ∀ t, release.occurred.Allows t → timing.departure < t := by
  obtain ⟨leaving, hleaving, ⟨placed, hplaced, hle⟩, hreleased⟩ := bounds_of_breach h
  have hdeparture := Occurrence.allows_iff.mp timing.departure_allowed leaving hleaving
  have hplacement := Occurrence.allows_iff.mp timing.placement_allowed placed hplaced
  rw [UnixTimestamp.le_iff] at hle
  refine ⟨by omega, fun release hrelease t ht => ?_⟩
  obtain ⟨bound, hbound, hlt⟩ := hreleased release.occurred (Option.mem_map_of_mem _ hrelease)
  have hreleases := Occurrence.allows_iff.mp ht bound hbound
  rw [UnixTimestamp.lt_iff] at hlt
  omega

end HoldScopeTiming

/-- **A verified scope is sound for every possible timing.**  One anchor of the hold has the group
in its cohort; along the path down to the group each was born after the one before it and before
stock left; the anchor was whole and there when the hold was placed, and the rest of its cohort,
depleted groups too, was born later and after its parents; the scope keeps one birth of each; and
an established breach is one at every instant. -/
theorem verified_hold_scope_is_sound [Sha256] (context : HistoricalHoldScopeContext) (hold : Hold)
    (scope : VerifiedHistoricalHoldScope) (h : context.verify hold = .ok (.verified scope)) :
    scope.original = hold ∧ scope.group = context.group ∧
    (∃ anchor ∈ hold.scope.anchors,
      context.lineage.capturedMember anchor.group hold.scope.capturedRevision context.group = true ∧
      (∃ path : List HubRecordId, path.head? = some anchor.group ∧
        path.getLast? = some context.group ∧
        path.IsChain (lineageFamily.IsParent context.lineage.node) ∧
        (∀ timing : HoldScopeTiming context hold,
          (∀ group ∈ path, timing.born group ≤ timing.departure) ∧
          path.IsChain (fun parent child => timing.born parent ≤ timing.born child)) ∧
        (scope.births.map ActualPhysicalBirth.group).Nodup ∧
        (∀ birth ∈ scope.births, birth ∈ context.births) ∧
        ∀ group, group ∈ scope.births.map ActualPhysicalBirth.group ↔
          group = anchor.group ∨ group ∈ path ∨ ∃ n ∈ context.lineage.nodes, n.id = group ∧
            context.lineage.capturedMember anchor.group hold.scope.capturedRevision group = true) ∧
      (∀ timing : HoldScopeTiming context hold,
        (hold.stamp.occurred ≠ .unknown → timing.born anchor.group ≤ timing.placement) ∧
        ∀ n ∈ context.lineage.nodes, n.id ≠ anchor.group →
          context.lineage.capturedMember anchor.group hold.scope.capturedRevision n.id = true →
          timing.placement ≤ timing.born n.id ∧
            ∀ parent ∈ n.parent, timing.born parent ≤ timing.born n.id) ∧
      (∃ birth ∈ scope.births, birth.group = anchor.group ∧ birth.packs = anchor.capturedPacks) ∧
      ∀ n ∈ context.lineage.nodes, n.parent = some anchor.group →
        hold.scope.capturedRevision.value < n.createdRevision.value) ∧
    (scope.timing = .establishedBreach → ∀ timing : HoldScopeTiming context hold,
      timing.placement ≤ timing.departure ∧
        ∀ release ∈ hold.release, ∀ t, release.occurred.Allows t → timing.departure < t) := by
  obtain ⟨horiginal, hgroup, htiming, births, departure, hcollected, hdeparture, anchor, hanchor,
    hmember, path, hhead, hlast, hchain, hshown⟩ :=
    HistoricalHoldScopeContext.verify_eq_verified h
  have hcohort : ∀ n, n ∈ context.lineage.cohort anchor.group hold.scope.capturedRevision ↔
      n ∈ context.lineage.nodes ∧ n.id ≠ anchor.group ∧
      context.lineage.capturedMember anchor.group hold.scope.capturedRevision n.id = true := by
    intro n
    simp [PhysicalLineage.cohort]
  have hstart : anchor.group ∈ path := List.mem_of_mem_head? hhead
  refine ⟨horiginal, hgroup, ⟨anchor, hanchor, hmember, ⟨path, hhead, hlast, hchain, ?_,
    hshown.distinct, fun birth hbirth => (hcollected _ _ (hshown.known birth hbirth)).1, ?_⟩, ?_,
      ?_,
    hshown.whole.childless⟩, fun hbreach timing => timing.breach (htiming ▸ hbreach)⟩
  · refine fun timing => ⟨fun group hg => ?_, hshown.ordered.imp fun a b => ?_⟩
    · exact timing.born_le_departure hcollected hdeparture (hshown.present group hg)
    · exact timing.born_le hcollected
  · intro group
    rw [hshown.groups]
    constructor
    · rintro (hp | ⟨n, hn, rfl⟩)
      · exact .inr (.inl hp)
      · obtain ⟨hmem, -, hcaptured⟩ := (hcohort n).mp hn
        exact .inr (.inr ⟨n, hmem, rfl, hcaptured⟩)
    · rintro (rfl | hp | ⟨n, hn, rfl, hcaptured⟩)
      · exact .inl hstart
      · exact .inl hp
      · by_cases hid : n.id = anchor.group
        · exact .inl (hid ▸ hstart)
        · exact .inr ⟨n, (hcohort n).mpr ⟨hn, hid, hcaptured⟩, rfl⟩
  · refine fun timing => ⟨timing.anchor_le_placement hcollected hshown.whole, ?_⟩
    intro n hn hid hcaptured
    obtain ⟨hplaced, hparents⟩ := hshown.detached n ((hcohort n).mpr ⟨hn, hid, hcaptured⟩)
    exact ⟨timing.placement_le hcollected hplaced,
      fun parent hp => timing.born_le hcollected (hparents parent hp)⟩
  · obtain ⟨birth, hbirth, hpacks⟩ := hshown.whole.packs
    have hmem := (hshown.groups anchor.group).mpr (.inl hstart)
    obtain ⟨own, hown, hgroup⟩ := List.mem_map.mp hmem
    have hsame := hshown.known own hown
    rw [hgroup, hbirth] at hsame
    exact ⟨own, hown, hgroup, Option.some.inj hsame ▸ hpacks⟩

/-! ### A crate that was held, and a part of it that left -/

/-- SHA-256 on the strings that are hashed for the receipt of the crate and for its split. -/
@[reducible] def splitDigest : Sha256 where
  digest bytes :=
    if bytes = utf8 "harvestcircle.hub.receipt.identity.v1\x00trace\x00" ++ bigEndian 16 61 then
      0x6fb1ab8afcf0aadbe10d81d1fb9fe3abb8e7baa10df121ee62a759acaec6aaee
    else if bytes = utf8 "harvestcircle.hub.receipt.identity.v1\x00group\x00" ++
      bigEndian 16 61 then
      0xc3c88407ae9de1344fdaa76984cf68ad7afa77ea9643fa72311512be85910772
    else if bytes = utf8 "harvestcircle.hub.receipt.identity.v1\x00source\x00" ++
      bigEndian 16 61 then
      0x0d5aee67461157f39d960c95a046028c00b4f392932d1856ff4939afc8b94590
    else if bytes = utf8 "harvestcircle.hub.handling.identity.v1\x00group\x00" ++
      bigEndian 16 62 then
      0xfb1261c523a0bf53a3ac5606a920e757ba40fb17ba9335160601bd4c7d1740e8
    else if bytes = utf8 "harvestcircle.hub.handling.identity.v1\x00work\x00" ++
      bigEndian 16 62 then
      0xc7bf6cfa218970c8dd5585c3f033d972be2c4a4e45ea21c35767416ae1daabf8
    else if bytes = utf8 "harvestcircle.hub.handling.identity.v1\x00discrepancy\x00" ++
      bigEndian 16 62 then
      0xc817e41cfe5c2b715fcfc9417680254b0d45dc3adb0f302d49f42036788f1a01
    else if bytes = utf8 "harvestcircle.hub.treatment.record.v1\x00" ++ bigEndian 16 62 then
      0x31455be2dfbc61fe6da98fe37875b90868ef80484d357842bca1d546feeee9d5
    else 0

def heldTrace : HubRecordId := .of 0x6fb1ab8afcf0aadbe10d81d1fb9fe3ab
def heldCrate : HubRecordId := .of 0xc3c88407ae9de1344fdaa76984cf68ad
def heldPart : HubRecordId := .of 0xfb1261c523a0bf53a3ac5606a920e757

def heldBirth (kind : ActualPhysicalBirthKind) (operation group : HubRecordId)
    (parent : Option HubRecordId) (revision : HubRevision) (packs : WholePacks)
    (occurred : Occurrence) : ActualPhysicalBirth :=
  ⟨kind, operation, .of 1, heldTrace, .of 3, group, parent, revision, packs,
    crateActor, occurred, .of 1600⟩

/-- Ten packs came in, were held, and four of them were then set apart. -/
def heldContext : HistoricalHoldScopeContext where
  lineage := {
    hub := .of 1, trace := heldTrace, variant := .of 3, revision := .of 5
    nodes := sortNodes [
      ⟨heldCrate, none, heldTrace, .of 3, .of 2, .of 6, none⟩,
      ⟨heldPart, some heldCrate, heldTrace, .of 3, .of 5, .of 4, none⟩]
    wellFormed := (checkNodes_eq_ok (pairwise_sortNodes _)).mp (by decide +kernel) }
  group := heldPart
  occurred := .interval (.of 1200) (.of 1300)
  births := [
    heldBirth .receipt (.of 61) heldCrate none (.of 2) (.of 10) (.known crateTime),
    heldBirth .observedPortion (.of 62) heldPart (some heldCrate) (.of 5) (.of 4)
      (.interval (.of 1100) (.of 1150))]
  now := .of 1700

def crateHold : Hold where
  stamp := ⟨.of 33, .of 4, crateActor, .wholePackV1, .of 1600,
    .known (.of 1050), crateNote⟩
  scope := {
    hub := .of 1, trace := heldTrace, variant := .of 3
    capturedRevision := .of 3
    anchors := [⟨heldCrate, .of 2, .of 10⟩]
    wellFormed := ⟨by simp, by decide, by simp, by simp, by simp⟩ }
  release := none

/-- The part was under the hold when it left, at whatever instants the occurrences allow. -/
theorem verified_hold_scope_is_sound_crate : ∃ scope,
    @HistoricalHoldScopeContext.verify splitDigest heldContext crateHold = .ok (.verified scope) ∧
    scope.births = heldContext.births ∧
    ∀ timing : HoldScopeTiming heldContext crateHold, timing.placement ≤ timing.departure := by
  have hverify : @HistoricalHoldScopeContext.verify splitDigest heldContext crateHold =
      .ok (.verified ⟨crateHold, heldPart, heldContext.occurred, .of 5,
        .establishedBreach, heldContext.births⟩) := by decide +kernel
  obtain ⟨-, -, -, hbreach⟩ :=
    @verified_hold_scope_is_sound splitDigest heldContext crateHold _ hverify
  exact ⟨_, hverify, rfl, fun timing => (hbreach rfl timing).1⟩

end HarvestCircle
