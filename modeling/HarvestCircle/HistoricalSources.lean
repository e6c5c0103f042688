import HarvestCircle.ActualReports
import HarvestCircle.Counts
import HarvestCircle.LineageHistory

/-! # Where reported stock came from

A reported departure is taken out of a group that exists today.  The review names an
original witness of the stock, from before it left, and all physical activity since.
`ActualSourceContext.resolve` accepts only if, whatever the times behind the recorded
occurrences, the group it balances was at the place of the witness when the stock left.

The recorded times are uncertain, so soundness is said over every choice of instants
(`SourceTiming`): `resolved_source_held_the_packs`.
-/
namespace HarvestCircle
open Checked

/-- A position as an original operation recorded it. -/
structure HistoricalActualPosition where
  id : HubRecordId
  trace : HubRecordId
  variant : HubRecordId
  parent : Option HubRecordId
  location : HubRecordId
  packs : WholePacks
  revision : HubRevision
  deriving DecidableEq, Repr

/-- A position the stock is known to have held. -/
structure HistoricalActualSource where
  operation : HubRecordId
  actor : PublicKey
  hub : HubId
  stockRevision : HubRevision
  catalogRevision : HubRevision
  group : HistoricalActualPosition
  location : ReferenceRecord
  occurred : Occurrence
  recordedAt : UnixTimestamp
  deriving DecidableEq, Repr

inductive ActualPhysicalActivityKind where
  | groupBorn
  | locationChanged
  | countReconciled
  | otherPhysicalEffect
  deriving DecidableEq, Repr

/-- One physical event of the population. -/
structure ActualPhysicalActivity where
  sequence : Nat
  operation : HubRecordId
  actor : PublicKey
  stockRevision : HubRevision
  hub : HubId
  trace : HubRecordId
  group : HubRecordId
  location : Option HubRecordId
  kind : ActualPhysicalActivityKind
  occurred : Occurrence
  recordedAt : UnixTimestamp
  deriving DecidableEq, Repr

/-- A position and all activity since. -/
structure ActualSourceContext where
  source : HistoricalActualSource
  lineage : PhysicalLineage
  balancingGroup : PhysicalStockGroup
  /-- All activity of the population after the witness, in stock order. -/
  subsequentActivity : List ActualPhysicalActivity
  deriving DecidableEq

/-- The position, and the group it is balanced by. -/
structure ResolvedActualSource where
  historical : HistoricalActualSource
  balancingGroup : HubRecordId
  deriving DecidableEq, Repr

/-- The bounds of an occurrence whose interval is in order. -/
def Occurrence.orderedBounds : Occurrence → Option (UnixTimestamp × UnixTimestamp)
  | .known time => some (time, time)
  | .interval earliest latest => if earliest ≤ latest then some (earliest, latest) else none
  | .unknown => none

theorem Occurrence.bounds_of_orderedBounds {occurred : Occurrence}
    {b : UnixTimestamp × UnixTimestamp} (h : occurred.orderedBounds = some b) :
    occurred.bounds = some b := by
  cases occurred with
  | known time => exact h
  | unknown => cases h
  | interval earliest latest =>
    rw [orderedBounds] at h
    split at h
    · exact h
    · cases h

def HistoricalActualSource.validate (source : HistoricalActualSource) :
    Except ActualReportError Unit := do
  mapErr (fun _ => .invalidHistory) (source.occurred.validate source.recordedAt)
  refuse (source.location.id ≠ source.group.location ∨ source.group.packs.value = 0 ∨
    source.group.parent = some source.group.id ∨ source.location.value.kind ≠ .location ∨
    source.location.revision.value > source.catalogRevision.value ∨
    source.group.revision.value > source.stockRevision.value) .invalidHistory

namespace ActualSourceContext

/-- The scope of the witness: its group, with the packs it had. -/
def witnessAnchor (source : HistoricalActualSource) (native : PhysicalLineageNode) :
    PhysicalScopeAnchor where
  group := source.group.id
  createdRevision := native.createdRevision
  capturedPacks := source.group.packs

/-- The claim allows the witness as its source. -/
def Matches (source : HistoricalActualSource) (claim : ReportedActualSource) : Prop :=
  claim.trace = source.group.trace ∧ (∀ group ∈ claim.group, group = source.group.id) ∧
    ∀ location ∈ claim.location, location = source.location.id

instance (source : HistoricalActualSource) : DecidablePred (Matches source) :=
  fun _ => inferInstanceAs (Decidable (_ ∧ _))

/-- What the loop over the activity keeps. -/
structure Scan where
  previous : Nat
  previousSequence : Nat
  operations : Std.TreeMap HubRecordId (HubRevision × UnixTimestamp × PublicKey)
  balancingBirthKnown : Bool

/-- The group belongs to the stock of the witness. -/
def InCohort (context : ActualSourceContext) (group : HubRecordId) : Prop :=
  context.lineage.capturedMember context.source.group.id context.source.stockRevision group = true

instance (context : ActualSourceContext) : DecidablePred context.InCohort :=
  fun _ => inferInstanceAs (Decidable (_ = true))

/-- The birth of the balancing group where the witness was, at the latest when stock left. -/
def PlacesBalancingGroup (context : ActualSourceContext) (departMin : UnixTimestamp)
    (event : ActualPhysicalActivity) : Prop :=
  event.kind = .groupBorn ∧ event.group = context.balancingGroup.id ∧
    event.location = some context.source.location.id ∧
    ∃ b ∈ event.occurred.orderedBounds, b.2 ≤ departMin

instance (context : ActualSourceContext) (departMin : UnixTimestamp) :
    DecidablePred (context.PlacesBalancingGroup departMin) :=
  fun _ => inferInstanceAs (Decidable (_ ∧ _))

/-- One event of the activity. -/
def observe (context : ActualSourceContext) (departure : UnixTimestamp × UnixTimestamp)
    (now : UnixTimestamp) (scan : Scan) (event : ActualPhysicalActivity) :
    Except ActualReportError Scan := do
  let source := context.source
  let recorded := (event.stockRevision, event.recordedAt, event.actor)
  refuse (event.hub ≠ source.hub ∨ event.trace ≠ source.group.trace ∨
    event.stockRevision.value < scan.previous ∨
    event.stockRevision.value ≤ source.stockRevision.value ∨
    event.stockRevision.value > context.lineage.revision.value ∨
    event.recordedAt < source.recordedAt ∨ event.recordedAt > now ∨
    event.operation = source.operation ∨ event.sequence ≤ scan.previousSequence ∨
    event.sequence > hubStockEventCapacity) .invalidNativeContext
  refuse (∃ old ∈ scan.operations[event.operation]?, old ≠ recorded) .invalidNativeContext
  mapErr (fun _ => .invalidNativeContext) (event.occurred.validate event.recordedAt)
  let node ← okOr (context.lineage.node event.group) .invalidNativeContext
  refuse (event.kind = .groupBorn ∧
    (event.stockRevision ≠ node.createdRevision ∨ event.location = none)) .invalidNativeContext
  -- a later count may already account for the missing packs
  refuse (context.InCohort event.group ∧ event.kind = .countReconciled)
    .historicalSourceUnresolved
  refuse (context.InCohort event.group ∧ event.kind = .locationChanged ∧
    ¬ ∃ b ∈ event.occurred.orderedBounds, departure.2 < b.1) .historicalSourceUnresolved
  return {
    previous := event.stockRevision.value
    previousSequence := event.sequence
    operations := scan.operations.insert event.operation recorded
    balancingBirthKnown :=
      scan.balancingBirthKnown || context.PlacesBalancingGroup departure.1 event }

section
variable [Sha256]

/-- With a counted shortage as boundary the report may be newer than the lineage. -/
def resolveAtBoundary (context : ActualSourceContext) (original : ActualReportRecord)
    (occurred : Occurrence) (now : UnixTimestamp) (countedShortage : Option CountPostPlan) :
    Except ActualReportError ResolvedActualSource := do
  original.validate
  let source := context.source
  source.validate
  let current := context.balancingGroup
  mapErr (fun _ => .invalidNativeContext) current.validate
  let graph := context.lineage
  refuse (source.hub ≠ original.hub ∨ source.hub ≠ graph.hub ∨
    source.group.trace ≠ graph.trace ∨ source.group.variant ≠ graph.variant ∨
    current.trace ≠ graph.trace ∨ current.variant ≠ graph.variant ∨
    source.stockRevision.value > graph.revision.value ∨
    (countedShortage.isNone = true ∧ original.stockRevision.value > graph.revision.value) ∨
    source.recordedAt > now ∨ original.recordedAt > now ∨
    current.revision.value > graph.revision.value) .invalidNativeContext
  mapErr (fun _ => .invalidInput) (occurred.validate original.recordedAt)
  refuse ((∃ variant ∈ original.report.variant, variant ≠ source.group.variant) ∨
    original.report.occurred.refines occurred = false) .conflictingEvidence
  let native ← okOr (graph.node source.group.id) .invalidNativeContext
  let currentNode ← okOr (graph.node current.id) .invalidNativeContext
  refuse (native.parent ≠ source.group.parent ∨ currentNode.parent ≠ current.parent ∨
    currentNode.packs ≠ current.packs) .invalidNativeContext
  let captured ← mapErr (fun _ => .invalidNativeContext)
    (graph.restoreScope source.stockRevision [witnessAnchor source native])
  let resolved ← mapErr (fun _ => .invalidNativeContext) (graph.resolve captured)
  refuse (resolved.packs.value > source.group.packs.value) .historicalSourceUnresolved
  refuse (¬ ∃ group ∈ resolved.groups, group.id = current.id) .historicalSourceUnresolved
  refuse (original.report.sources ≠ .unknown ∧
    ¬ ∃ claim ∈ original.report.sources.candidates, Matches source claim)
    .historicalSourceUnresolved
  let departure ← okOr occurred.orderedBounds .historicalSourceUnresolved
  refuse (¬ ∃ b ∈ source.occurred.orderedBounds, b.2 ≤ departure.1) .historicalSourceUnresolved
  refuse (context.subsequentActivity.length > hubStockEventCapacity) .capacity
  let scan ← context.subsequentActivity.foldlM (context.observe departure now) {
    previous := source.stockRevision.value, previousSequence := 0, operations := ∅
    balancingBirthKnown := current.id = source.group.id }
  refuse (scan.balancingBirthKnown = false) .historicalSourceUnresolved
  return { historical := source, balancingGroup := current.id }

def resolve (context : ActualSourceContext) (original : ActualReportRecord)
    (occurred : Occurrence) (now : UnixTimestamp) :
    Except ActualReportError ResolvedActualSource :=
  context.resolveAtBoundary original occurred now none

end

end ActualSourceContext

/-! ## What is known of a resolved source -/

namespace ActualSourceContext
variable {context : ActualSourceContext} {departure : UnixTimestamp × UnixTimestamp}
  {now : UnixTimestamp} {occurred : Occurrence} {original : ActualReportRecord}
  {resolved : ResolvedActualSource} {event : ActualPhysicalActivity}

/-- The witness is of the same stock as the balancing group. -/
theorem trace_of_resolve [Sha256] (h : context.resolve original occurred now = .ok resolved) :
    resolved.historical.group.trace = context.balancingGroup.trace := by
  simp only [resolve, resolveAtBoundary, accepted, passed] at h
  obtain ⟨-, -, -, ⟨-, -, hsource, -, hcurrent, -⟩, -, -, _, -, _, -, -, _, -, _, -, -, -, -, _, -,
    -, -, _, -, -, rfl⟩ := h
  exact hsource.trans hcurrent.symm

/-- One accepted event. -/
theorem observe_eq_ok {scan scan' : Scan}
    (h : context.observe departure now scan event = .ok scan') :
    (context.InCohort event.group → event.kind ≠ .countReconciled) ∧
    (context.InCohort event.group → event.kind = .locationChanged →
      ∃ b ∈ event.occurred.orderedBounds, departure.2 < b.1) ∧
    (scan'.balancingBirthKnown = true →
      scan.balancingBirthKnown = true ∨ context.PlacesBalancingGroup departure.1 event) := by
  simp only [observe, accepted, not_and, Decidable.not_not] at h
  obtain ⟨-, -, -, node, -, -, hcount, hmoved, rfl⟩ := h
  exact ⟨hcount, hmoved, by simp⟩

/-- What the loop over the activity has established. -/
structure Scanned (context : ActualSourceContext) (departure : UnixTimestamp × UnixTimestamp)
    (done : List ActualPhysicalActivity) (scan : Scan) : Prop where
  not_counted : ∀ event ∈ done, context.InCohort event.group → event.kind ≠ .countReconciled
  moved_later : ∀ event ∈ done, context.InCohort event.group → event.kind = .locationChanged →
    ∃ b ∈ event.occurred.orderedBounds, departure.2 < b.1
  placed : scan.balancingBirthKnown = true →
    context.balancingGroup.id = context.source.group.id ∨
      ∃ event ∈ done, context.PlacesBalancingGroup departure.1 event

theorem Scanned.observe {done : List ActualPhysicalActivity} {scan scan' : Scan}
    (h : Scanned context departure done scan)
    (hobserve : context.observe departure now scan event = .ok scan') :
    Scanned context departure (done ++ [event]) scan' := by
  obtain ⟨hcount, hmoved, hplaced⟩ := observe_eq_ok hobserve
  constructor
  · intro other hother
    rcases List.mem_append.mp hother with hdone | hlast
    · exact h.not_counted other hdone
    · exact List.mem_singleton.mp hlast ▸ hcount
  · intro other hother
    rcases List.mem_append.mp hother with hdone | hlast
    · exact h.moved_later other hdone
    · exact List.mem_singleton.mp hlast ▸ hmoved
  · intro hknown
    rcases hplaced hknown with hbefore | hevent
    · rcases h.placed hbefore with hsame | ⟨other, hother, hborn⟩
      · exact .inl hsame
      · exact .inr ⟨other, List.mem_append_left _ hother, hborn⟩
    · exact .inr ⟨event, by simp, hevent⟩

/-- What a resolved source rests on, in bounds. -/
structure Resolved (context : ActualSourceContext) (occurred : Occurrence)
    (departure : UnixTimestamp × UnixTimestamp) : Prop where
  departed : occurred.orderedBounds = some departure
  location_eq : context.source.location.id = context.source.group.location
  witnessed : ∃ b ∈ context.source.occurred.orderedBounds, b.2 ≤ departure.1
  in_cohort : context.InCohort context.balancingGroup.id
  packs_le : ((context.lineage.nodes.filter fun n => context.InCohort n.id).map
    fun n => n.packs.value).sum ≤ context.source.group.packs.value
  scanned : ∃ scan, scan.balancingBirthKnown = true ∧
    Scanned context departure context.subsequentActivity scan

theorem resolveAtBoundary_eq_ok [Sha256] {boundary : Option CountPostPlan}
    (h : context.resolveAtBoundary original occurred now boundary = .ok resolved) :
    resolved = ⟨context.source, context.balancingGroup.id⟩ ∧
      ∃ departure, context.Resolved occurred departure := by
  simp only [resolveAtBoundary, HistoricalActualSource.validate, accepted, passed, not_and,
    Bool.not_eq_false] at h
  obtain ⟨-, ⟨-, hlocation, -⟩, -, -, -, -, native, hnative, current, hcurrent, -, captured,
    hcaptured, cohort, hcohort, hpacks, ⟨group, hgroup, hid⟩, -, departure, hdeparture, hwitness, -,
    scan, hscan,
    hknown, rfl⟩ := h
  obtain ⟨hadmits, hrevision, hanchors, -⟩ := PhysicalLineage.restoreScope_eq_ok.mp hcaptured
  -- the cohort is the scope restored from the witness
  have hscope : ∀ id, context.lineage.InScope captured id ↔ context.InCohort id := by
    intro id
    have hsingle : captured.anchors = [witnessAnchor context.source native] := hanchors
    simp only [PhysicalLineage.InScope, InCohort, hsingle, hrevision, List.mem_singleton,
      exists_eq_left]
    rfl
  refine ⟨rfl, departure, hdeparture, hlocation, hwitness, ?_, ?_, scan, hknown, ?_⟩
  · rw [← hscope, PhysicalLineage.inScope_iff hadmits, ← hid]
    exact ((PhysicalLineage.mem_resolve_groups hcohort).mp hgroup).2.2
  · have hheld := PhysicalLineage.resolve_packs hadmits hcohort
    simp only [StockHistory.held, nodePacks, hscope] at hheld
    rw [← hheld]
    exact hpacks
  · refine foldlM_invariant (Scanned context departure) ⟨by simp, by simp, fun hsame => ?_⟩ ?_ hscan
    · exact .inl (by simpa using hsame)
    · rintro done event rest scan scan' - hscanned hobserve
      exact hscanned.observe hobserve

end ActualSourceContext

/-! ## Every possible timing -/

/-- One instant for the witness, for each event of the activity and for the departure. -/
structure SourceTiming (context : ActualSourceContext) (occurred : Occurrence) where
  witness : Int
  events : List (ActualPhysicalActivity × Int)
  departure : Int
  witness_allowed : context.source.occurred.Allows witness
  events_eq : events.map Prod.fst = context.subsequentActivity
  events_allowed : ∀ e ∈ events, e.1.occurred.Allows e.2
  departure_allowed : occurred.Allows departure

/-- Where a group is at an instant, after the recorded changes of its place up to then. -/
def placeAt (group : HubRecordId) (t : Int) (start : Option HubRecordId)
    (events : List (ActualPhysicalActivity × Int)) : Option HubRecordId :=
  events.foldl (fun place e =>
    if e.1.kind = .locationChanged ∧ e.1.group = group ∧ e.2 ≤ t then e.1.location else place) start

theorem placeAt_eq {group : HubRecordId} {t : Int} {start : Option HubRecordId}
    {events : List (ActualPhysicalActivity × Int)}
    (h : ∀ e ∈ events, e.1.kind = .locationChanged → e.1.group = group → t < e.2) :
    placeAt group t start events = start := by
  induction events with
  | nil => rfl
  | cons e events ih =>
    have hlater : ¬ (e.1.kind = .locationChanged ∧ e.1.group = group ∧ e.2 ≤ t) := by
      rintro ⟨hkind, hgroup, hle⟩
      exact absurd (h e List.mem_cons_self hkind hgroup) (not_lt.mpr hle)
    rw [placeAt, List.foldl_cons, if_neg hlater]
    exact ih fun e he => h e (List.mem_cons_of_mem _ he)

namespace SourceTiming
variable {context : ActualSourceContext} {occurred : Occurrence}
  (timing : SourceTiming context occurred)

/-- Where the balancing group first was: with the witness, or where it was born. -/
def Placed (start : Option HubRecordId) : Prop :=
  (context.balancingGroup.id = context.source.group.id ∧
    start = some context.source.group.location ∧ timing.witness ≤ timing.departure) ∨
  ∃ e ∈ timing.events, e.1.kind = .groupBorn ∧ e.1.group = context.balancingGroup.id ∧
    e.1.location = start ∧ e.2 ≤ timing.departure

variable {departure : UnixTimestamp × UnixTimestamp}

theorem departure_bounds (h : context.Resolved occurred departure) :
    departure.1.seconds ≤ timing.departure ∧ timing.departure ≤ departure.2.seconds :=
  Occurrence.allows_iff.mp timing.departure_allowed _
    (Occurrence.bounds_of_orderedBounds h.departed)

theorem witness_le (h : context.Resolved occurred departure) :
    timing.witness ≤ timing.departure := by
  obtain ⟨b, hb, hle⟩ := h.witnessed
  have hwitness := Occurrence.allows_iff.mp timing.witness_allowed b
    (Occurrence.bounds_of_orderedBounds hb)
  have hdeparture := timing.departure_bounds h
  rw [UnixTimestamp.le_iff] at hle
  omega

variable {e : ActualPhysicalActivity × Int}

theorem event_mem (he : e ∈ timing.events) :
    e.1 ∈ context.subsequentActivity := timing.events_eq ▸ List.mem_map_of_mem he

/-- What moves stock of the cohort happens after the departure. -/
theorem moved_later (h : context.Resolved occurred departure) (he : e ∈ timing.events)
    (hcohort : context.InCohort e.1.group) (hkind : e.1.kind = .locationChanged) :
    timing.departure < e.2 := by
  obtain ⟨scan, -, hscanned⟩ := h.scanned
  obtain ⟨b, hb, hlt⟩ := hscanned.moved_later e.1 (timing.event_mem he) hcohort hkind
  have hevent := Occurrence.allows_iff.mp (timing.events_allowed e he) b
    (Occurrence.bounds_of_orderedBounds hb)
  have hdeparture := timing.departure_bounds h
  rw [UnixTimestamp.lt_iff] at hlt
  omega

theorem placed (h : context.Resolved occurred departure) :
    timing.Placed (some context.source.location.id) := by
  obtain ⟨scan, hknown, hscanned⟩ := h.scanned
  rcases hscanned.placed hknown with hsame | ⟨event, hevent, hkind, hgroup, hlocation, b, hb, hle⟩
  · exact .inl ⟨hsame, by rw [h.location_eq], timing.witness_le h⟩
  · rw [← timing.events_eq] at hevent
    obtain ⟨e, he, rfl⟩ := List.mem_map.mp hevent
    refine .inr ⟨e, he, hkind, hgroup, hlocation, ?_⟩
    have hborn := Occurrence.allows_iff.mp (timing.events_allowed e he) b
      (Occurrence.bounds_of_orderedBounds hb)
    have hdeparture := timing.departure_bounds h
    rw [UnixTimestamp.le_iff] at hle
    omega

end SourceTiming

/-- **A resolved source held the packs**, whatever the instants behind the recorded occurrences:
the witness came first, the balancing group was placed with it or born there in time, nothing of
the cohort was moved before the departure or counted since the witness, and the cohort still
has no more packs than the witness saw. -/
theorem resolved_source_held_the_packs [Sha256] (context : ActualSourceContext)
    (original : ActualReportRecord) (occurred : Occurrence) (now : UnixTimestamp)
    (resolved : ResolvedActualSource)
    (h : context.resolve original occurred now = .ok resolved)
    (timing : SourceTiming context occurred) :
    resolved.historical = context.source ∧
    resolved.balancingGroup = context.balancingGroup.id ∧
    timing.witness ≤ timing.departure ∧
    timing.Placed (some context.source.location.id) ∧
    (∀ e ∈ timing.events, e.1.kind = .locationChanged → context.InCohort e.1.group →
      timing.departure < e.2) ∧
    placeAt resolved.balancingGroup timing.departure (some context.source.location.id)
      timing.events = some context.source.location.id ∧
    (∀ e ∈ timing.events, context.InCohort e.1.group → e.1.kind ≠ .countReconciled) ∧
    context.InCohort resolved.balancingGroup ∧
    ((context.lineage.nodes.filter fun n => context.InCohort n.id).map
      fun n => n.packs.value).sum ≤ context.source.group.packs.value := by
  obtain ⟨rfl, departure, hresolved⟩ := ActualSourceContext.resolveAtBoundary_eq_ok h
  have hmoved : ∀ e ∈ timing.events, e.1.kind = .locationChanged → context.InCohort e.1.group →
      timing.departure < e.2 :=
        fun e he hkind hcohort => timing.moved_later hresolved he hcohort hkind
  refine ⟨rfl, rfl, timing.witness_le hresolved, timing.placed hresolved, hmoved, ?_, ?_,
    hresolved.in_cohort, hresolved.packs_le⟩
  · refine placeAt_eq fun e he hkind hgroup => hmoved e he hkind ?_
    rw [hgroup]
    exact hresolved.in_cohort
  · obtain ⟨scan, -, hscanned⟩ := hresolved.scanned
    exact fun e he => hscanned.not_counted e.1 (timing.event_mem he)

/-! ### Four packs that were set apart from the crate

They were set apart at the dock, some of them left before they were put on the shelf. -/

/-- SHA-256 on the string that is hashed for the report. -/
@[reducible] def reportDigest : Sha256 where
  digest bytes :=
    if bytes = utf8 "harvestcircle.hub.actual.report.identity.v1\x00" ++ bigEndian 16 51 then
      0xd2e087f5a8aca88b515e94d3a0054002d896fcea315774f1241488496706ca97
    else 0

/-- An event of the part that was set apart. -/
def crateActivity (sequence : Nat) (operation : HubRecordId) (revision : HubRevision)
    (location : ReferenceRecord) (kind : ActualPhysicalActivityKind) (occurred : Occurrence) :
    ActualPhysicalActivity :=
  ⟨sequence, operation, crateActor, revision, .of 1, .of 2, .of 11,
    some location.id, kind, occurred, .of 1600⟩

def cratePart : PhysicalStockGroup :=
  { crate with
    id := .of 11, parent := some (.of 10), identification := some ⟨⟨"B", Eq.refl true⟩, crateNote⟩
    location := .of 7, packs := .of 4, work := [] }

def crateSource : ActualSourceContext where
  source :=
    ⟨.of 41, crateActor, .of 1, .of 3, .initial,
      ⟨.of 10, .of 2, .of 3, none, .of 6, .of 10, .initial⟩,
      crateDock, .known crateTime, crateTime⟩
  lineage := {
    hub := .of 1, trace := .of 2, variant := .of 3
    revision := .of 5
    nodes := [
      ⟨.of 10, none, .of 2, .of 3, .of 2, .of 6, none⟩,
      ⟨.of 11, some (.of 10), .of 2, .of 3, .of 4,
        .of 4, none⟩]
    wellFormed := (checkNodes_eq_ok (by decide)).mp (by decide) }
  balancingGroup := cratePart
  subsequentActivity := [
    crateActivity 1 (.of 42) (.of 4) crateDock .groupBorn
      (.interval (.of 1100) (.of 1150)),
    crateActivity 2 (.of 43) (.of 5) crateShelf .locationChanged
      (.known (.of 1500))]

def crateReport : ActualReportRecord where
  id := .of 0xd2e087f5a8aca88b515e94d3a0054002
  operation := .of 51
  hub := .of 1
  stockRevision := .of 5
  catalogRevision := .initial
  actor := crateActor
  recordedAt := .of 1600
  report := ⟨none, none, none, .unknown, .unknown, crateNote⟩

def crateTiming : SourceTiming crateSource (.interval (.of 1200) (.of 1300)) where
  witness := 1000
  events := crateSource.subsequentActivity.zip [1120, 1500]
  departure := 1250
  witness_allowed := by rfl
  events_eq := rfl
  events_allowed := by
    intro e he
    rcases (by simpa [crateSource] using he : e = _ ∨ e = _) with rfl | rfl
    · exact ⟨by decide, by decide⟩
    · rfl
  departure_allowed := ⟨by decide, by decide⟩

/-- The packs were at the dock when they left, although the group is on the shelf now. -/
theorem resolved_source_held_the_packs_crate :
    @ActualSourceContext.resolve reportDigest crateSource crateReport
      (.interval (.of 1200) (.of 1300)) (.of 1700) =
        .ok ⟨crateSource.source, .of 11⟩ ∧
    placeAt (.of 11) 1250 (some crateDock.id) crateTiming.events = some crateDock.id := by
  have hresolve : @ActualSourceContext.resolve reportDigest crateSource crateReport
      (.interval (.of 1200) (.of 1300)) (.of 1700) =
        .ok ⟨crateSource.source, .of 11⟩ := by decide +kernel
  obtain ⟨-, -, -, -, -, hplace, -⟩ := @resolved_source_held_the_packs reportDigest crateSource
    crateReport _ _ _ hresolve crateTiming
  exact ⟨hresolve, hplace⟩

end HarvestCircle
