import HarvestCircle.LineageScope
import HarvestCircle.Stock

/-! # Treatment of a population

Decisions accept or reject the stock of a captured scope, holds restrict it until
they are released, and initial reviews mark stock that was found again.  Every
record bears a stamp; no two stamps of a state share an identity or a revision.

`project` works out where each group with packs stands: the covering decision or
review with the greatest revision decides acceptance (`latest_eq_some`), and every
covering hold without release restricts.  A normal departure asks for acceptance
and no hold.
-/
namespace HarvestCircle
open Checked

def hubTreatmentSelectionGroups : Nat := 64
def hubTreatmentRecordsPerTrace : Nat := 256

inductive AcceptanceStatus where
  | reviewRequired
  | accepted
  | rejected
  deriving DecidableEq, Repr

/-- What a treatment may block. -/
inductive PhysicalAction where
  | internalRelocation
  | observedSeparation
  | normalDeparture
  | disposition
  deriving DecidableEq, Repr

inductive TreatmentError where
  | capacity
  | invalidSelection
  | invalidHistory
  | invalidOccurrence
  | staleRevision
  | revisionExhausted
  | holdClosed
  | actionBlocked
  | scope (error : PhysicalScopeError)
  deriving DecidableEq, Repr

/-- Who treated the stock, when and why. -/
structure TreatmentStamp where
  id : HubRecordId
  stockRevision : HubRevision
  actor : PublicKey
  basis : SampleHandlingBasis
  recordedAt : UnixTimestamp
  occurred : Occurrence
  observation : SourceProvenance
  deriving DecidableEq, Repr

/-- A status given to captured stock. -/
structure AcceptanceDecision where
  stamp : TreatmentStamp
  scope : CapturedPhysicalScope
  status : AcceptanceStatus
  deriving DecidableEq

/-- A negative constraint on stock from the moment it was found. -/
structure InitialGroupReview where
  stamp : TreatmentStamp
  scope : CapturedPhysicalScope
  deriving DecidableEq

/-- Captured stock that may not leave until released. -/
structure Hold where
  stamp : TreatmentStamp
  scope : CapturedPhysicalScope
  release : Option TreatmentStamp
  deriving DecidableEq

/-- All decisions, holds and reviews so far. -/
structure TreatmentState where
  decisions : List AcceptanceDecision
  holds : List Hold
  initialReviews : List InitialGroupReview
  deriving DecidableEq

/-! ## Selections -/

/-- Whole groups, each named once. -/
structure TreatmentSelection where
  groups : List HubRecordId
  nonempty : groups ≠ []
  length_le : groups.length ≤ hubTreatmentSelectionGroups
  sorted : groups.Pairwise (· < ·)
  deriving DecidableEq

namespace TreatmentSelection

def new (groups : List HubRecordId) : Except TreatmentError TreatmentSelection :=
  if hne : groups = [] then .error .invalidSelection
  else if hlen : groups.length > hubTreatmentSelectionGroups then .error .capacity
  else if hchain : ¬ (groups.insertionSort (· ≤ ·)).IsChain (· ≠ ·) then .error .invalidSelection
  else .ok {
    groups := groups.insertionSort (· ≤ ·)
    nonempty := fun h => hne ((h ▸ List.perm_insertionSort _ groups).symm.eq_nil)
    length_le := by
      rw [(List.perm_insertionSort _ groups).length_eq]
      omega
    sorted := by
      have hsorted := List.pairwise_insertionSort (· ≤ ·) groups
      exact pairwise_lt_of_isChain_ne (fun id => id) hsorted (not_not.mp hchain) }

theorem mem_of_new {groups : List HubRecordId} {selection : TreatmentSelection}
    (h : new groups = .ok selection) {id : HubRecordId} : id ∈ selection.groups ↔ id ∈ groups := by
  unfold new at h
  split at h
  · cases h
  split at h
  · cases h
  split at h
  · cases h
  cases h
  exact (List.perm_insertionSort _ groups).mem_iff

end TreatmentSelection

/-! ## Validation -/

namespace TreatmentState

/-- Decisions, initial reviews and holds. -/
def recordCount (state : TreatmentState) : Nat :=
  state.decisions.length + state.holds.length + state.initialReviews.length

/-- Check a stamp and add it to those seen; no identity and no revision comes twice. -/
def recordStamp (graph : PhysicalLineage) (seen : List TreatmentStamp) (stamp : TreatmentStamp) :
    Except TreatmentError (List TreatmentStamp) := do
  refuse (stamp.stockRevision.value < 2 ∨ stamp.stockRevision.value > graph.revision.value ∨
    (∃ other ∈ seen, other.id = stamp.id) ∨
    ∃ other ∈ seen, other.stockRevision.value = stamp.stockRevision.value) .invalidHistory
  mapErr (fun _ => .invalidOccurrence) (stamp.occurred.validate stamp.recordedAt)
  return seen ++ [stamp]

/-- Decisions and holds are captured just before they are recorded. -/
def validateScope (graph : PhysicalLineage) (scope : CapturedPhysicalScope)
    (stamp : TreatmentStamp) : Except TreatmentError Unit := do
  refuse (scope.anchors.length > hubTreatmentSelectionGroups ∨
    scope.capturedRevision.value + 1 ≠ stamp.stockRevision.value) .invalidHistory
  let _ ← mapErr .scope (graph.resolve scope)

def occurrenceBounds : Occurrence → Option (UnixTimestamp × UnixTimestamp)
  | .known time => some (time, time)
  | .interval earliest latest => some (earliest, latest)
  | .unknown => none

def checkDecision (graph : PhysicalLineage) (seen : List TreatmentStamp)
    (decision : AcceptanceDecision) : Except TreatmentError (List TreatmentStamp) := do
  let seen ← recordStamp graph seen decision.stamp
  validateScope graph decision.scope decision.stamp
  return seen

def checkHold (graph : PhysicalLineage) (seen : List TreatmentStamp) (hold : Hold) :
    Except TreatmentError (List TreatmentStamp) := do
  let seen ← recordStamp graph seen hold.stamp
  validateScope graph hold.scope hold.stamp
  match hold.release with
  | none => return seen
  | some release => do
    let seen ← recordStamp graph seen release
    refuse (release.stockRevision.value ≤ hold.stamp.stockRevision.value) .invalidHistory
    refuse (∃ placed ∈ occurrenceBounds hold.stamp.occurred,
      ∃ released ∈ occurrenceBounds release.occurred, released.2 < placed.1) .invalidOccurrence
    return seen

def checkReviewAnchor (graph : PhysicalLineage) (review : InitialGroupReview)
    (anchor : PhysicalScopeAnchor) : Except TreatmentError Unit := do
  let node ← okOr (graph.node anchor.group) .invalidHistory
  refuse (anchor.createdRevision ≠ review.stamp.stockRevision ∨
    node.createdRevision ≠ review.stamp.stockRevision ∨ node.parent.isNone = true ∨
    anchor.capturedPacks.value = 0) .invalidHistory
  let single ← mapErr .scope (graph.restoreScope review.scope.capturedRevision [anchor])
  let resolved ← mapErr .scope (graph.resolve single)
  refuse (resolved.packs.value > anchor.capturedPacks.value) .invalidHistory

def checkReview (graph : PhysicalLineage) (seen : List TreatmentStamp)
    (review : InitialGroupReview) : Except TreatmentError (List TreatmentStamp) := do
  let seen ← recordStamp graph seen review.stamp
  refuse (review.scope.capturedRevision ≠ review.stamp.stockRevision ∨
    review.scope.anchors.length > hubTreatmentSelectionGroups ∨
    review.stamp.occurred ≠ .known review.stamp.recordedAt) .invalidHistory
  let captured ← review.scope.anchors.foldlM (fun captured anchor => do
    checkReviewAnchor graph review anchor
    mapErr (fun _ => TreatmentError.invalidHistory) (captured.checkedAdd anchor.capturedPacks))
    WholePacks.zero
  let resolved ← mapErr .scope (graph.resolve review.scope)
  refuse (resolved.packs.value > captured.value) .invalidHistory
  return seen

def validate (state : TreatmentState) (graph : PhysicalLineage) : Except TreatmentError Unit := do
  refuse (state.decisions.length > hubTreatmentRecordsPerTrace ∨
    state.holds.length > hubTreatmentRecordsPerTrace ∨
    state.initialReviews.length > hubTreatmentRecordsPerTrace ∨
    state.recordCount > hubTreatmentRecordsPerTrace) .capacity
  let seen ← state.decisions.foldlM (checkDecision graph) []
  let seen ← state.holds.foldlM (checkHold graph) seen
  let _ ← state.initialReviews.foldlM (checkReview graph) seen
  return ()

/-- No identity and no revision twice. -/
def Distinct (stamps : List TreatmentStamp) : Prop :=
  stamps.Pairwise fun a b => a.id ≠ b.id ∧ a.stockRevision.value ≠ b.stockRevision.value

/-- The stamp fits the lineage's revisions and its own recording time. -/
structure StampFits (graph : PhysicalLineage) (stamp : TreatmentStamp) : Prop where
  revision_ge : 2 ≤ stamp.stockRevision.value
  revision_le : stamp.stockRevision.value ≤ graph.revision.value
  occurred : stamp.occurred.ValidAt stamp.recordedAt

variable {graph : PhysicalLineage} {seen seen' : List TreatmentStamp} {stamp : TreatmentStamp}

theorem recordStamp_eq_ok (hseen : Distinct seen) :
    recordStamp graph seen stamp = .ok seen' ↔
      StampFits graph stamp ∧ seen' = seen ++ [stamp] ∧ Distinct seen' := by
  have hdistinct : Distinct (seen ++ [stamp]) ↔ (∀ other ∈ seen, other.id ≠ stamp.id) ∧
      ∀ other ∈ seen, other.stockRevision.value ≠ stamp.stockRevision.value := by
    simp only [Distinct, List.pairwise_append, List.pairwise_singleton, List.mem_singleton,
      forall_eq, true_and, forall_and]
    exact and_iff_right hseen
  simp only [recordStamp, Occurrence.validate, accepted, passed, not_exists, not_and]
  constructor
  · rintro ⟨⟨hge, hle, hid, hrevision⟩, hoccurred, rfl⟩
    exact ⟨⟨hge, hle, hoccurred⟩, rfl, hdistinct.mpr ⟨hid, hrevision⟩⟩
  · rintro ⟨hfits, rfl, h⟩
    obtain ⟨hid, hrevision⟩ := hdistinct.mp h
    exact ⟨⟨hfits.revision_ge, hfits.revision_le, hid, hrevision⟩, hfits.occurred, rfl⟩

/-- A scope captured just before its record, which the lineage still resolves. -/
structure ScopeFits (graph : PhysicalLineage) (scope : CapturedPhysicalScope)
    (stamp : TreatmentStamp) : Prop where
  admits : graph.Admits scope
  length_le : scope.anchors.length ≤ hubTreatmentSelectionGroups
  captured_eq : scope.capturedRevision.value + 1 = stamp.stockRevision.value

theorem validateScope_eq_ok {scope : CapturedPhysicalScope} {u : Unit} :
    validateScope graph scope stamp = .ok u ↔ ScopeFits graph scope stamp := by
  simp only [validateScope, bind_eq_ok, refuse_eq_ok, exists_unit_and, mapErr_eq_ok, passed]
  constructor
  · rintro ⟨⟨hlen, hcaptured⟩, r, hr, -⟩
    exact ⟨(PhysicalLineage.resolve_eq_ok.mp hr).1, hlen, hcaptured⟩
  · intro h
    obtain ⟨r, hr⟩ := PhysicalLineage.resolve_succeeds h.admits
    exact ⟨⟨h.length_le, h.captured_eq⟩, r, hr, rfl⟩

/-- A hold and its release, in that order. -/
structure HoldFits (graph : PhysicalLineage) (hold : Hold) : Prop where
  stamp : StampFits graph hold.stamp
  scope : ScopeFits graph hold.scope hold.stamp
  release_stamp : ∀ release ∈ hold.release, StampFits graph release
  release_later : ∀ release ∈ hold.release,
    hold.stamp.stockRevision.value < release.stockRevision.value
  release_not_before : ∀ release ∈ hold.release,
    ∀ placed ∈ occurrenceBounds hold.stamp.occurred,
      ∀ released ∈ occurrenceBounds release.occurred, placed.1 ≤ released.2

/-- A review of groups created with it, which never resolve to more than was found. -/
structure ReviewFits (graph : PhysicalLineage) (review : InitialGroupReview) : Prop where
  stamp : StampFits graph review.stamp
  captured_eq : review.scope.capturedRevision = review.stamp.stockRevision
  length_le : review.scope.anchors.length ≤ hubTreatmentSelectionGroups
  occurred_eq : review.stamp.occurred = .known review.stamp.recordedAt
  anchors : ∀ anchor ∈ review.scope.anchors, checkReviewAnchor graph review anchor = .ok ()
  captured_le : (review.scope.anchors.map fun a => a.capturedPacks.value).sum ≤ hubMaxWholePacks
  admits : graph.Admits review.scope
  packs_le : nodePacks (graph.unionGroups [review.scope]) ≤
    (review.scope.anchors.map fun a => a.capturedPacks.value).sum

def Hold.stamps (hold : Hold) : List TreatmentStamp := hold.stamp :: hold.release.toList

theorem Distinct.of_append {stamps : List TreatmentStamp} (h : Distinct (seen ++ stamps)) :
    Distinct seen := (List.pairwise_append.mp h).1

theorem checkDecision_eq_ok {decision : AcceptanceDecision} (hseen : Distinct seen) :
    checkDecision graph seen decision = .ok seen' ↔
      (StampFits graph decision.stamp ∧ ScopeFits graph decision.scope decision.stamp) ∧
      seen' = seen ++ [decision.stamp] ∧ Distinct seen' := by
  simp only [checkDecision, accepted, recordStamp_eq_ok hseen, validateScope_eq_ok]
  constructor
  · rintro ⟨_, ⟨hstamp, hlog, hdistinct⟩, hscope, rfl⟩
    exact ⟨⟨hstamp, hscope⟩, hlog, hdistinct⟩
  · rintro ⟨⟨hstamp, hscope⟩, hlog, hdistinct⟩
    exact ⟨_, ⟨hstamp, hlog, hdistinct⟩, hscope, rfl⟩

theorem checkHold_eq_ok {hold : Hold} (hseen : Distinct seen) :
    checkHold graph seen hold = .ok seen' ↔
      HoldFits graph hold ∧ seen' = seen ++ Hold.stamps hold ∧ Distinct seen' := by
  simp only [checkHold, accepted, recordStamp_eq_ok hseen, validateScope_eq_ok, Hold.stamps]
  cases hrelease : hold.release with
  | none =>
    simp only [pure_eq_ok, Option.toList_none]
    constructor
    · rintro ⟨_, ⟨hstamp, hlog, hdistinct⟩, hscope, rfl⟩
      exact ⟨⟨hstamp, hscope, by simp [hrelease], by simp [hrelease], by simp [hrelease]⟩, hlog,
        hdistinct⟩
    · rintro ⟨h, hlog, hdistinct⟩
      exact ⟨_, ⟨h.stamp, hlog, hdistinct⟩, h.scope, rfl⟩
  | some release =>
    simp only [accepted, passed, not_exists, not_and, Option.toList_some]
    constructor
    · rintro ⟨_, ⟨hstamp, rfl, hdistinct⟩, hscope, _, hrecord, hlater, hnot, rfl⟩
      obtain ⟨hfits, hlog, hdistinct'⟩ := (recordStamp_eq_ok hdistinct).mp hrecord
      refine ⟨⟨hstamp, hscope, ?_, ?_, ?_⟩, by simpa using hlog, hdistinct'⟩
      · simpa [hrelease] using hfits
      · simpa [hrelease] using hlater
      · rw [hrelease]
        rintro _ ⟨⟩ placed hplaced released hreleased
        exact hnot placed hplaced released hreleased
    · rintro ⟨h, hlog, hdistinct⟩
      have hlog' : seen' = (seen ++ [hold.stamp]) ++ [release] := by simpa using hlog
      have hfirst : Distinct (seen ++ [hold.stamp]) := (hlog' ▸ hdistinct).of_append
      exact ⟨_, ⟨h.stamp, rfl, hfirst⟩, h.scope, seen',
        (recordStamp_eq_ok hfirst).mpr ⟨h.release_stamp release hrelease, hlog', hdistinct⟩,
        h.release_later release hrelease, h.release_not_before release hrelease, rfl⟩

theorem checkReview_eq_ok {review : InitialGroupReview} (hseen : Distinct seen) :
    checkReview graph seen review = .ok seen' ↔
      ReviewFits graph review ∧ seen' = seen ++ [review.stamp] ∧ Distinct seen' := by
  simp only [checkReview, accepted, recordStamp_eq_ok hseen, passed, WholePacks.foldlM_total,
    WholePacks.zero_value, Nat.zero_add, PhysicalLineage.resolve_eq_ok]
  constructor
  · rintro ⟨_, ⟨hstamp, hlog, hdistinct⟩, ⟨hcaptured, hlen, hoccurred⟩, captured,
      ⟨hanchors, hsum⟩, r, ⟨hadmits, _, _, hpacks⟩, hle, rfl⟩
    refine ⟨⟨hstamp, hcaptured, hlen, hoccurred, hanchors, hsum ▸ captured.bound, hadmits, ?_⟩,
      hlog, hdistinct⟩
    rw [← hpacks, ← hsum]
    exact hle
  · rintro ⟨h, hlog, hdistinct⟩
    exact ⟨_, ⟨h.stamp, hlog, hdistinct⟩, ⟨h.captured_eq, h.length_le, h.occurred_eq⟩,
      ⟨_, h.captured_le⟩, ⟨h.anchors, rfl⟩,
      ⟨graph.revision, graph.unionGroups [review.scope], ⟨_, graph.unionGroups_packs_le _⟩⟩,
      ⟨h.admits, rfl, rfl, rfl⟩, h.packs_le, rfl⟩

/-- A loop that logs the stamps of its elements, each checked on its own. -/
theorem foldlM_log {α : Type}
    (check : List TreatmentStamp → α → Except TreatmentError (List TreatmentStamp))
    (stamps : α → List TreatmentStamp) (fits : α → Prop)
    (hcheck : ∀ a seen seen', Distinct seen → (check seen a = .ok seen' ↔
      fits a ∧ seen' = seen ++ stamps a ∧ Distinct seen'))
    (l : List α) (seen seen' : List TreatmentStamp) (hseen : Distinct seen) :
    l.foldlM check seen = .ok seen' ↔
      (∀ a ∈ l, fits a) ∧ seen' = seen ++ l.flatMap stamps ∧ Distinct seen' := by
  induction l generalizing seen with
  | nil =>
    simp only [List.foldlM_nil, pure_eq_ok, List.not_mem_nil, false_implies, implies_true, true_and,
      List.flatMap_nil, List.append_nil]
    constructor
    · rintro rfl; exact ⟨rfl, hseen⟩
    · rintro ⟨rfl, _⟩; rfl
  | cons a l ih =>
    simp only [List.foldlM_cons, bind_eq_ok, hcheck a seen _ hseen, List.mem_cons, forall_eq_or_imp,
      List.flatMap_cons]
    constructor
    · rintro ⟨_, ⟨ha, rfl, hdistinct⟩, hrest⟩
      obtain ⟨hl, hlog, hdistinct'⟩ := (ih _ hdistinct).mp hrest
      exact ⟨⟨ha, hl⟩, by simpa using hlog, hdistinct'⟩
    · rintro ⟨⟨ha, hl⟩, hlog, hdistinct⟩
      have hlog' : seen' = (seen ++ stamps a) ++ l.flatMap stamps := by simpa using hlog
      have hfirst : Distinct (seen ++ stamps a) := (hlog' ▸ hdistinct).of_append
      exact ⟨_, ⟨ha, rfl, hfirst⟩, (ih _ hfirst).mpr ⟨hl, hlog', hdistinct⟩⟩

/-- The stamps of a state, in the order they are checked. -/
def stamps (state : TreatmentState) : List TreatmentStamp :=
  state.decisions.flatMap (fun d => [d.stamp]) ++ state.holds.flatMap Hold.stamps ++
    state.initialReviews.flatMap (fun r => [r.stamp])

/-- What a state satisfies on a lineage. -/
structure Fits (state : TreatmentState) (graph : PhysicalLineage) : Prop where
  count_le : state.recordCount ≤ hubTreatmentRecordsPerTrace
  decision : ∀ d ∈ state.decisions, StampFits graph d.stamp ∧ ScopeFits graph d.scope d.stamp
  hold : ∀ h ∈ state.holds, HoldFits graph h
  review : ∀ r ∈ state.initialReviews, ReviewFits graph r
  distinct : Distinct state.stamps

/-- **Validation accepts exactly the states that fit.** -/
theorem validate_eq_ok {state : TreatmentState} {u : Unit} :
    state.validate graph = .ok u ↔ state.Fits graph := by
  have decisions := foldlM_log (checkDecision graph) (fun d => [d.stamp])
    (fun d => StampFits graph d.stamp ∧ ScopeFits graph d.scope d.stamp)
    (fun d seen seen' h => checkDecision_eq_ok h) state.decisions
  have holds := foldlM_log (checkHold graph) Hold.stamps (HoldFits graph)
    (fun h seen seen' hseen => checkHold_eq_ok hseen) state.holds
  have reviews := foldlM_log (checkReview graph) (fun r => [r.stamp]) (ReviewFits graph)
    (fun r seen seen' h => checkReview_eq_ok h) state.initialReviews
  simp only [validate, accepted, passed, decisions [] _ .nil, List.nil_append, and_true]
  constructor
  · rintro ⟨⟨-, -, -, hcount⟩, log, ⟨hdecision, rfl, hdistinct⟩, log', hheld, log'', hreviewed⟩
    obtain ⟨hhold, rfl, hdistinct⟩ := (holds _ _ hdistinct).mp hheld
    obtain ⟨hreview, rfl, hdistinct⟩ := (reviews _ _ hdistinct).mp hreviewed
    exact ⟨hcount, hdecision, hhold, hreview, hdistinct⟩
  · intro h
    have hcount := h.count_le
    have hdistinct := h.distinct
    unfold recordCount at hcount
    have hheld := Distinct.of_append hdistinct
    refine ⟨⟨by omega, by omega, by omega, h.count_le⟩, _,
      ⟨h.decision, rfl, hheld.of_append⟩, _, (holds _ _ hheld.of_append).mpr ⟨h.hold, rfl, hheld⟩,
      _, (reviews _ _ hheld).mpr ⟨h.review, rfl, hdistinct⟩⟩

end TreatmentState

/-! ## Projection -/

/-- How one group stands. -/
structure GroupTreatment where
  group : HubRecordId
  packs : WholePacks
  acceptance : AcceptanceStatus
  acceptanceDecision : Option HubRecordId
  activeHolds : List HubRecordId
  deriving DecidableEq, Repr

/-- The group treatment rule. -/
def GroupTreatment.allows (group : GroupTreatment) (basis : SampleHandlingBasis)
    (action : PhysicalAction) : Bool :=
  match basis, action with
  | .wholePackV1, .normalDeparture => group.acceptance = .accepted && group.activeHolds.isEmpty
  | .wholePackV1, .internalRelocation => true
  | .wholePackV1, .observedSeparation => true
  | .wholePackV1, .disposition => true

/-- The packs on hand by how they stand. -/
structure TreatmentSummary where
  onHand : WholePacks
  accepted : WholePacks
  reviewRequired : WholePacks
  rejected : WholePacks
  restricted : WholePacks
  departureEligible : WholePacks
  deriving DecidableEq, Repr

namespace TreatmentSummary

def zero : TreatmentSummary := ⟨.zero, .zero, .zero, .zero, .zero, .zero⟩

def validate (summary : TreatmentSummary) : Except TreatmentError Unit := do
  let total ← mapErr (fun _ => .invalidHistory) (do
    let total ← summary.accepted.checkedAdd summary.reviewRequired
    total.checkedAdd summary.rejected)
  refuse (total ≠ summary.onHand ∨ summary.restricted.value > summary.onHand.value ∨
    summary.departureEligible.value > summary.accepted.value ∨
    summary.departureEligible.value < summary.accepted.value - summary.restricted.value ∨
    summary.departureEligible.value > summary.onHand.value - summary.restricted.value)
    .invalidHistory

/-- Count one group into the summary. -/
def count (basis : SampleHandlingBasis) (summary : TreatmentSummary) (group : GroupTreatment) :
    Except TreatmentError TreatmentSummary := do
  let add := fun total : WholePacks =>
    mapErr (fun _ => TreatmentError.invalidHistory) (total.checkedAdd group.packs)
  let addIf := fun (condition : Bool) (total : WholePacks) =>
    if condition then add total else pure total
  let onHand ← add summary.onHand
  let accepted ← addIf (group.acceptance = .accepted) summary.accepted
  let reviewRequired ← addIf (group.acceptance = .reviewRequired) summary.reviewRequired
  let rejected ← addIf (group.acceptance = .rejected) summary.rejected
  let restricted ← addIf (!group.activeHolds.isEmpty) summary.restricted
  let departureEligible ← addIf (group.allows basis .normalDeparture) summary.departureEligible
  return { onHand, accepted, reviewRequired, rejected, restricted, departureEligible }

end TreatmentSummary

/-- How every group stands. -/
structure TreatmentProjection where
  revision : HubRevision
  basis : SampleHandlingBasis
  historyCapacityReached : Bool
  summary : TreatmentSummary
  groups : List GroupTreatment
  deriving DecidableEq, Repr

/-- Every selected group allows the action. -/
def TreatmentProjection.require (projection : TreatmentProjection)
    (selection : TreatmentSelection) (action : PhysicalAction) : Except TreatmentError Unit := do
  refuse (action = .normalDeparture ∧ projection.historyCapacityReached = true) .capacity
  selection.groups.forM fun id => do
    let group ← okOr (projection.groups.find? fun group => group.group = id) .invalidSelection
    refuse (group.allows projection.basis action = false) .actionBlocked

namespace TreatmentState

/-- A later verdict replaces an earlier one. -/
def offer (stamp : TreatmentStamp) (status : AcceptanceStatus)
    (acceptance : Std.TreeMap HubRecordId (TreatmentStamp × AcceptanceStatus))
    (node : PhysicalLineageNode) : Std.TreeMap HubRecordId (TreatmentStamp × AcceptanceStatus) :=
  match acceptance[node.id]? with
  | some entry =>
    if entry.1.stockRevision.value < stamp.stockRevision.value then
      acceptance.insert node.id (stamp, status)
    else acceptance
  | none => acceptance.insert node.id (stamp, status)

def offerScope (graph : PhysicalLineage)
    (acceptance : Std.TreeMap HubRecordId (TreatmentStamp × AcceptanceStatus))
    (stamp : TreatmentStamp) (scope : CapturedPhysicalScope) (status : AcceptanceStatus) :
    Except TreatmentError (Std.TreeMap HubRecordId (TreatmentStamp × AcceptanceStatus)) := do
  let resolved ← mapErr .scope (graph.resolve scope)
  return resolved.groups.foldl (offer stamp status) acceptance

def restrictScope (graph : PhysicalLineage)
    (restrictions : Std.TreeMap HubRecordId (List HubRecordId)) (hold : Hold) :
    Except TreatmentError (Std.TreeMap HubRecordId (List HubRecordId)) := do
  let resolved ← mapErr .scope (graph.resolve hold.scope)
  return resolved.groups.foldl (fun restrictions node =>
    restrictions.insert node.id (restrictions[node.id]?.getD [] ++ [hold.stamp.id])) restrictions

/-- How the groups of the lineage stand. -/
def project (state : TreatmentState) (graph : PhysicalLineage) (basis : SampleHandlingBasis) :
    Except TreatmentError TreatmentProjection := do
  state.validate graph
  let acceptance ← state.decisions.foldlM (fun acceptance decision =>
    offerScope graph acceptance decision.stamp decision.scope decision.status) ∅
  let acceptance ← state.initialReviews.foldlM (fun acceptance review =>
    offerScope graph acceptance review.stamp review.scope .reviewRequired) acceptance
  let restrictions ← (state.holds.filter fun hold => hold.release.isNone).foldlM
    (restrictScope graph) ∅
  -- every identity is looked up once, so removing the entry as the source does changes nothing
  let groups := (graph.nodes.filter fun node => node.packs.value > 0).map fun node =>
    { group := node.id
      packs := node.packs
      acceptance := (acceptance[node.id]?.map (·.2)).getD .reviewRequired
      acceptanceDecision := acceptance[node.id]?.map (·.1.id)
      activeHolds := (restrictions[node.id]?.getD []).insertionSort (· ≤ ·) }
  let summary ← groups.foldlM (TreatmentSummary.count basis) TreatmentSummary.zero
  summary.validate
  return {
    revision := graph.revision, basis
    historyCapacityReached := state.recordCount = hubTreatmentRecordsPerTrace
    summary, groups }

/-! ### Where a group stands -/

/-- What a decision or an initial review says of its scope. -/
structure Verdict where
  stamp : TreatmentStamp
  scope : CapturedPhysicalScope
  status : AcceptanceStatus

/-- Decisions, then reviews, which never accept. -/
def verdicts (state : TreatmentState) : List Verdict :=
  state.decisions.map (fun d => ⟨d.stamp, d.scope, d.status⟩) ++
    state.initialReviews.map fun r => ⟨r.stamp, r.scope, .reviewRequired⟩

/-- The scope resolves to a set of groups that includes this one. -/
def Covers (graph : PhysicalLineage) (scope : CapturedPhysicalScope) (id : HubRecordId) : Prop :=
  ∃ n ∈ graph.unionGroups [scope], n.id = id

instance (graph : PhysicalLineage) (scope : CapturedPhysicalScope) (id : HubRecordId) :
    Decidable (Covers graph scope id) :=
  inferInstanceAs (Decidable (∃ n ∈ graph.unionGroups [scope], n.id = id))

/-- Keep the verdict with the greater revision. -/
def better (best : Option (TreatmentStamp × AcceptanceStatus))
    (verdict : TreatmentStamp × AcceptanceStatus) : Option (TreatmentStamp × AcceptanceStatus) :=
  match best with
  | some entry =>
    if entry.1.stockRevision.value < verdict.1.stockRevision.value then some verdict else best
  | none => some verdict

/-- The verdict that decides a group. -/
def latest (state : TreatmentState) (graph : PhysicalLineage) (id : HubRecordId) :
    Option (TreatmentStamp × AcceptanceStatus) :=
  ((state.verdicts.filter fun v => Covers graph v.scope id).map
    fun v => (v.stamp, v.status)).foldl better none

/-- The holds in force on a group. -/
def activeHolds (state : TreatmentState) (graph : PhysicalLineage) (id : HubRecordId) :
    List HubRecordId :=
  ((state.holds.filter fun hold => hold.release.isNone).filter
    fun hold => Covers graph hold.scope id).map fun hold => hold.stamp.id

/-- Where a node stands. -/
def treatmentOf (state : TreatmentState) (graph : PhysicalLineage) (node : PhysicalLineageNode) :
    GroupTreatment where
  group := node.id
  packs := node.packs
  acceptance := ((state.latest graph node.id).map (·.2)).getD .reviewRequired
  acceptanceDecision := (state.latest graph node.id).map (·.1.id)
  activeHolds := (state.activeHolds graph node.id).insertionSort (· ≤ ·)

theorem offer_getElem? (stamp : TreatmentStamp) (status : AcceptanceStatus)
    (acceptance : Std.TreeMap HubRecordId (TreatmentStamp × AcceptanceStatus))
    (node : PhysicalLineageNode) (id : HubRecordId) :
    (offer stamp status acceptance node)[id]? =
      if node.id = id then better acceptance[id]? (stamp, status) else acceptance[id]? := by
  unfold offer
  by_cases hid : node.id = id
  · subst hid
    rw [if_pos rfl]
    cases h : acceptance[node.id]? with
    | none => simp [better]
    | some entry =>
      dsimp only [better]
      split
      · simp
      · exact h
  · rw [if_neg hid]
    have hne : ¬ compare node.id id = .eq := by simpa using hid
    split
    · split
      · rw [Std.TreeMap.getElem?_insert, if_neg hne]
      · rfl
    · rw [Std.TreeMap.getElem?_insert, if_neg hne]

variable {stamp : TreatmentStamp} {status : AcceptanceStatus} {graph : PhysicalLineage}
  {basis : SampleHandlingBasis} {state : TreatmentState} {groups : List GroupTreatment}

/-- One scope offers its verdict to each of its groups once. -/
theorem foldl_offer_getElem? {groups : List PhysicalLineageNode}
    (hgroups : groups.Pairwise fun a b => a.id < b.id)
    (acceptance : Std.TreeMap HubRecordId (TreatmentStamp × AcceptanceStatus)) (id : HubRecordId) :
    (groups.foldl (offer stamp status) acceptance)[id]? =
      if ∃ n ∈ groups, n.id = id then better acceptance[id]? (stamp, status)
      else acceptance[id]? := by
  induction groups generalizing acceptance with
  | nil => simp
  | cons n groups ih =>
    obtain ⟨hfirst, hrest⟩ := List.pairwise_cons.mp hgroups
    rw [List.foldl_cons, ih hrest, offer_getElem?]
    by_cases hid : n.id = id
    · have hnone : ¬ ∃ m ∈ groups, m.id = id := by
        rintro ⟨m, hm, hmid⟩
        exact (hfirst m hm).ne (hid.trans hmid.symm)
      simp [hid, hnone]
    · simp [hid]

theorem unionGroups_sorted (graph : PhysicalLineage) (scopes : List CapturedPhysicalScope) :
    (graph.unionGroups scopes).Pairwise fun a b => a.id < b.id :=
  graph.wellFormed.sorted.filter _

/-- One scope offers its verdict to the groups it covers. -/
theorem offerScope_eq_ok {scope : CapturedPhysicalScope}
    {acceptance acceptance' : Std.TreeMap HubRecordId (TreatmentStamp × AcceptanceStatus)}
    (h : offerScope graph acceptance stamp scope status = .ok acceptance') (id : HubRecordId) :
    acceptance'[id]? = if Covers graph scope id then better acceptance[id]? (stamp, status)
      else acceptance[id]? := by
  simp only [offerScope, accepted] at h
  obtain ⟨r, hr, rfl⟩ := h
  have hgroups := (PhysicalLineage.resolve_eq_ok.mp hr).2.2.1
  rw [foldl_offer_getElem? (hgroups ▸ unionGroups_sorted graph _), hgroups]
  rfl

/-- One hold joins the list of every group it covers. -/
theorem restrictScope_eq_ok {hold : Hold}
    {restrictions restrictions' : Std.TreeMap HubRecordId (List HubRecordId)}
    (h : restrictScope graph restrictions hold = .ok restrictions') (id : HubRecordId) :
    restrictions'[id]?.getD [] =
      if Covers graph hold.scope id then restrictions[id]?.getD [] ++ [hold.stamp.id]
      else restrictions[id]?.getD [] := by
  simp only [restrictScope, accepted] at h
  obtain ⟨r, hr, rfl⟩ := h
  have hgroups := (PhysicalLineage.resolve_eq_ok.mp hr).2.2.1
  have hsorted : r.groups.Pairwise fun a b => a.id < b.id :=
    hgroups ▸ unionGroups_sorted graph _
  have general : ∀ (groups : List PhysicalLineageNode)
      (restrictions : Std.TreeMap HubRecordId (List HubRecordId)),
      groups.Pairwise (fun a b => a.id < b.id) →
      (groups.foldl (fun restrictions node => restrictions.insert node.id
        (restrictions[node.id]?.getD [] ++ [hold.stamp.id])) restrictions)[id]?.getD [] =
      if ∃ n ∈ groups, n.id = id then restrictions[id]?.getD [] ++ [hold.stamp.id]
      else restrictions[id]?.getD [] := by
    intro groups
    induction groups with
    | nil => simp
    | cons n groups ih =>
      intro restrictions hgroups
      obtain ⟨hfirst, hrest⟩ := List.pairwise_cons.mp hgroups
      rw [List.foldl_cons, ih _ hrest, Std.TreeMap.getElem?_insert]
      by_cases hid : n.id = id
      · have hnone : ¬ ∃ m ∈ groups, m.id = id := by
          rintro ⟨m, hm, hmid⟩
          exact (hfirst m hm).ne (hid.trans hmid.symm)
        simp [hid, hnone]
      · simp [hid]
  rw [general _ _ hsorted, hgroups]
  rfl

/-- A loop over verdicts keeps, for each group, the greatest of those that cover it. -/
theorem foldlM_offerScope {α : Type} (stamp : α → TreatmentStamp)
    (scope : α → CapturedPhysicalScope) (status : α → AcceptanceStatus) (l : List α)
    (acceptance acceptance' : Std.TreeMap HubRecordId (TreatmentStamp × AcceptanceStatus))
    (h : l.foldlM (fun m a => offerScope graph m (stamp a) (scope a) (status a)) acceptance =
      .ok acceptance') (id : HubRecordId) :
    acceptance'[id]? = ((l.filter fun a => Covers graph (scope a) id).map
      fun a => (stamp a, status a)).foldl better acceptance[id]? := by
  rw [List.foldl_map]
  exact foldlM_observe (fun m : Std.TreeMap HubRecordId (TreatmentStamp × AcceptanceStatus) =>
    m[id]?) (fun a => Covers graph (scope a) id) (fun best a => better best (stamp a, status a))
    (fun _ _ _ ht => offerScope_eq_ok ht id) h

/-- A loop over holds lists, for each group, those that cover it. -/
theorem foldlM_restrictScope (holds : List Hold)
    (restrictions restrictions' : Std.TreeMap HubRecordId (List HubRecordId))
    (h : holds.foldlM (restrictScope graph) restrictions = .ok restrictions') (id : HubRecordId) :
    restrictions'[id]?.getD [] = restrictions[id]?.getD [] ++
      (holds.filter fun hold => Covers graph hold.scope id).map fun hold => hold.stamp.id := by
  have hobserve := foldlM_observe
    (fun m : Std.TreeMap HubRecordId (List HubRecordId) => m[id]?.getD [])
    (fun hold : Hold => Covers graph hold.scope id) (fun held hold => held ++ [hold.stamp.id])
    (fun _ _ _ ht => restrictScope_eq_ok ht id) h
  rw [hobserve, List.foldl_append_eq_append, ← List.flatMap_def, ← List.map_eq_flatMap]

/-- **The projection of a state.**  It fits the lineage, and every node with packs stands
where its latest covering verdict and its covering holds put it. -/
theorem project_eq_ok {projection : TreatmentProjection}
    (h : state.project graph basis = .ok projection) :
    state.Fits graph ∧ projection.revision = graph.revision ∧ projection.basis = basis ∧
    projection.historyCapacityReached =
      decide (state.recordCount = hubTreatmentRecordsPerTrace) ∧
    projection.groups = (graph.nodes.filter fun node => node.packs.value > 0).map
      (state.treatmentOf graph) := by
  simp only [project, accepted, validate_eq_ok] at h
  obtain ⟨hfits, decided, hdecided, acceptance, hacceptance, restrictions, hrestrictions, summary,
    -, -, rfl⟩ := h
  refine ⟨hfits, rfl, rfl, rfl, List.map_congr_left fun node _ => ?_⟩
  have hlatest : acceptance[node.id]? = state.latest graph node.id := by
    rw [foldlM_offerScope _ _ _ _ _ _ hacceptance, foldlM_offerScope _ _ _ _ _ _ hdecided, latest,
      verdicts, List.filter_append, List.map_append, List.foldl_append, List.filter_map,
      List.filter_map, List.map_map, List.map_map]
    simp only [Function.comp_def, Std.TreeMap.getElem?_emptyc]
  have hholds : restrictions[node.id]?.getD [] = state.activeHolds graph node.id := by
    rw [foldlM_restrictScope _ _ _ hrestrictions, activeHolds]
    simp
  simp only [treatmentOf, hlatest, hholds]

/-- The better of several verdicts is one of them, and none has a greater revision. -/
theorem foldl_better_eq_some {vs : List (TreatmentStamp × AcceptanceStatus)}
    {best : Option (TreatmentStamp × AcceptanceStatus)} {v : TreatmentStamp × AcceptanceStatus}
    (h : vs.foldl better best = some v) :
    (some v = best ∨ v ∈ vs) ∧
      ∀ w, (some w = best ∨ w ∈ vs) → w.1.stockRevision.value ≤ v.1.stockRevision.value := by
  induction vs generalizing best with
  | nil =>
    refine ⟨.inl h.symm, ?_⟩
    rintro w (hw | hw)
    · rw [List.foldl_nil, ← hw] at h
      obtain rfl := Option.some.inj h
      exact Nat.le_refl _
    · cases hw
  | cons u vs ih =>
    rw [List.foldl_cons] at h
    obtain ⟨hv, hmax⟩ := ih h
    -- `better best u` is `u` or `best`, and not below either
    have hbetter : (better best u = some u ∨ better best u = best) ∧
        ∀ w, (some w = best ∨ w = u) → ∃ b, better best u = some b ∧
          w.1.stockRevision.value ≤ b.1.stockRevision.value := by
      cases best with
      | none =>
        refine ⟨.inl rfl, ?_⟩
        rintro w (hw | rfl)
        · cases hw
        · exact ⟨w, rfl, Nat.le_refl _⟩
      | some b =>
        dsimp only [better]
        split
        · rename_i hlt
          refine ⟨.inl rfl, ?_⟩
          rintro w (hw | rfl)
          · obtain rfl := Option.some.inj hw
            exact ⟨u, rfl, hlt.le⟩
          · exact ⟨w, rfl, Nat.le_refl _⟩
        · rename_i hge
          refine ⟨.inr rfl, ?_⟩
          rintro w (hw | rfl)
          · exact ⟨w, hw.symm, Nat.le_refl _⟩
          · exact ⟨b, rfl, not_lt.mp hge⟩
    constructor
    · rcases hv with hv | hv
      · rcases hbetter.1 with hu | hb
        · rw [hu] at hv
          exact .inr (List.mem_cons.mpr (.inl (Option.some.inj hv)))
        · exact .inl (hv.trans hb)
      · exact .inr (List.mem_cons_of_mem _ hv)
    · intro w hw
      have hcases : (some w = best ∨ w = u) ∨ w ∈ vs := by
        rcases hw with hw | hw
        · exact .inl (.inl hw)
        · rcases List.mem_cons.mp hw with rfl | hw
          · exact .inl (.inr rfl)
          · exact .inr hw
      rcases hcases with hw | hw
      · obtain ⟨b, hb, hle⟩ := hbetter.2 w hw
        exact hle.trans (hmax b (.inl hb.symm))
      · exact hmax w (.inr hw)

variable {id : HubRecordId} {d : AcceptanceDecision} {summary : TreatmentSummary}

/-- **The latest verdict decides.** -/
theorem latest_eq_some (h : state.latest graph id = some (stamp, status)) :
    ∃ v ∈ state.verdicts, v.stamp = stamp ∧ v.status = status ∧ Covers graph v.scope id ∧
      ∀ w ∈ state.verdicts, Covers graph w.scope id →
        w.stamp.stockRevision.value ≤ stamp.stockRevision.value := by
  obtain ⟨hv, hmax⟩ := foldl_better_eq_some h
  simp only [reduceCtorEq, List.mem_map, List.mem_filter, decide_eq_true_eq, false_or,
    Prod.mk.injEq] at hv hmax
  obtain ⟨v, ⟨hv, hcovers⟩, hstamp, hstatus⟩ := hv
  exact ⟨v, hv, hstamp, hstatus, hcovers, fun w hw hc =>
    hmax (w.stamp, w.status) ⟨w, ⟨hw, hc⟩, rfl⟩⟩

theorem latest_eq_none :
    state.latest graph id = none ↔ ∀ v ∈ state.verdicts, ¬ Covers graph v.scope id := by
  have hsome : ∀ (vs : List (TreatmentStamp × AcceptanceStatus)) best,
      vs.foldl better best = none ↔ best = none ∧ vs = [] := by
    intro vs
    induction vs with
    | nil => simp
    | cons u vs ih =>
      intro best
      rw [List.foldl_cons, ih]
      have : better best u ≠ none := by
        cases best with
        | none => simp [better]
        | some b => dsimp only [better]; split <;> simp
      simp [this]
  simp [latest, hsome]

/-- The decisive verdict is a decision, and every other covering verdict is older. -/
structure AcceptedBy (state : TreatmentState) (graph : PhysicalLineage) (id : HubRecordId)
    (decision : AcceptanceDecision) : Prop where
  mem : decision ∈ state.decisions
  accepted : decision.status = .accepted
  covers : Covers graph decision.scope id
  decision_older : ∀ d ∈ state.decisions, Covers graph d.scope id →
    d = decision ∨ d.stamp.stockRevision.value < decision.stamp.stockRevision.value
  review_older : ∀ r ∈ state.initialReviews, Covers graph r.scope id →
    r.stamp.stockRevision.value < decision.stamp.stockRevision.value

/-- Two decisions of one state at the same revision are the same. -/
theorem Fits.decision_ext (h : state.Fits graph) {d' : AcceptanceDecision}
    (hd : d ∈ state.decisions) (hd' : d' ∈ state.decisions)
    (heq : d.stamp.stockRevision.value = d'.stamp.stockRevision.value) : d = d' := by
  have hdistinct : Distinct (state.decisions.map (·.stamp)) := by
    rw [List.map_eq_flatMap]
    exact h.distinct.of_append.of_append
  have hnodup : (state.decisions.map fun d => d.stamp.stockRevision.value).Nodup := by
    rw [List.Nodup, List.pairwise_map]
    exact (List.pairwise_map.mp hdistinct).imp fun hne => hne.2
  exact List.inj_on_of_nodup_map hnodup hd hd' heq

/-- A decision and a review of one state never share a revision. -/
theorem Fits.decision_ne_review (h : state.Fits graph) (hd : d ∈ state.decisions)
    {r : InitialGroupReview} (hr : r ∈ state.initialReviews) :
    d.stamp.stockRevision.value ≠ r.stamp.stockRevision.value :=
  ((List.pairwise_append.mp h.distinct).2.2 d.stamp
    (List.mem_append_left _ (List.mem_flatMap.mpr ⟨d, hd, by simp⟩)) r.stamp
    (List.mem_flatMap.mpr ⟨r, hr, by simp⟩)).2

/-- **A group that allows normal departure** was accepted by the latest verdict on it, and no hold
in force covers it. -/
theorem allows_normalDeparture (hfits : state.Fits graph) {node : PhysicalLineageNode}
    (h : (state.treatmentOf graph node).allows basis .normalDeparture = true) :
    (∃ decision, AcceptedBy state graph node.id decision) ∧
      ∀ hold ∈ state.holds, hold.release = none → ¬ Covers graph hold.scope node.id := by
  simp only [GroupTreatment.allows, Bool.and_eq_true, decide_eq_true_eq] at h
  obtain ⟨haccepted, hholds⟩ := h
  constructor
  · cases hlatest : state.latest graph node.id with
    | none => simp [treatmentOf, hlatest] at haccepted
    | some verdict =>
      obtain ⟨stamp, status⟩ := verdict
      obtain ⟨v, hv, hstamp, hstatus, hcovers, hmax⟩ := latest_eq_some hlatest
      have hv_accepted : v.status = .accepted := by
        simpa [treatmentOf, hlatest, hstatus] using haccepted
      -- a review never accepts, so the verdict is a decision
      rcases List.mem_append.mp hv with hv | hv
      · obtain ⟨d, hd, rfl⟩ := List.mem_map.mp hv
        dsimp only at hstamp hv_accepted hcovers
        subst hstamp
        refine ⟨d, hd, hv_accepted, hcovers, fun d' hd' hc => ?_, fun r hr hc => ?_⟩
        · have hle := hmax ⟨d'.stamp, d'.scope, d'.status⟩
            (List.mem_append_left _ (List.mem_map.mpr ⟨d', hd', rfl⟩)) hc
          by_cases heq : d'.stamp.stockRevision.value = d.stamp.stockRevision.value
          · exact .inl (hfits.decision_ext hd' hd heq)
          · exact .inr (lt_of_le_of_ne hle heq)
        · have hle := hmax ⟨r.stamp, r.scope, .reviewRequired⟩
            (List.mem_append_right _ (List.mem_map.mpr ⟨r, hr, rfl⟩)) hc
          exact lt_of_le_of_ne hle (hfits.decision_ne_review hd hr).symm
      · obtain ⟨r, -, rfl⟩ := List.mem_map.mp hv
        cases hv_accepted
  · intro hold hhold hrelease hcovers
    have hmem : hold.stamp.id ∈ (state.treatmentOf graph node).activeHolds := by
      rw [treatmentOf, (List.perm_insertionSort _ _).mem_iff, activeHolds]
      refine List.mem_map.mpr ⟨hold, List.mem_filter.mpr ⟨List.mem_filter.mpr ⟨hhold, ?_⟩, ?_⟩, rfl⟩
      · simp [hrelease]
      · simpa using hcovers
    rw [List.isEmpty_iff.mp hholds] at hmem
    cases hmem

/-! ### Projections exist -/

/-- The packs of the groups that satisfy a condition. -/
def packsWhere (condition : GroupTreatment → Bool) (groups : List GroupTreatment) : Nat :=
  ((groups.filter condition).map fun g => g.packs.value).sum

/-- The summary counts these groups. -/
structure Tally (basis : SampleHandlingBasis) (groups : List GroupTreatment)
    (summary : TreatmentSummary) : Prop where
  onHand : summary.onHand.value = packsWhere (fun _ => true) groups
  accepted : summary.accepted.value = packsWhere (fun g => g.acceptance = .accepted) groups
  reviewRequired :
    summary.reviewRequired.value = packsWhere (fun g => g.acceptance = .reviewRequired) groups
  rejected : summary.rejected.value = packsWhere (fun g => g.acceptance = .rejected) groups
  restricted : summary.restricted.value = packsWhere (fun g => !g.activeHolds.isEmpty) groups
  departureEligible :
    summary.departureEligible.value = packsWhere (fun g => g.allows basis .normalDeparture) groups

theorem packsWhere_concat (condition : GroupTreatment → Bool) (groups : List GroupTreatment)
    (g : GroupTreatment) : packsWhere condition (groups ++ [g]) =
      packsWhere condition groups + if condition g then g.packs.value else 0 := by
  by_cases h : condition g <;> simp [packsWhere, h]

theorem packsWhere_le (condition : GroupTreatment → Bool) (groups : List GroupTreatment) :
    packsWhere condition groups ≤ packsWhere (fun _ => true) groups := by
  refine List.Sublist.sum_le_sum (List.Sublist.map _ ?_) (by simp)
  exact List.monotone_filter_right _ fun _ _ => rfl

/-- Groups split by acceptance, and eligibility is acceptance without restriction. -/
theorem packsWhere_split (basis : SampleHandlingBasis) (groups : List GroupTreatment) :
    packsWhere (fun g => g.acceptance = .accepted) groups +
      packsWhere (fun g => g.acceptance = .reviewRequired) groups +
      packsWhere (fun g => g.acceptance = .rejected) groups =
        packsWhere (fun _ => true) groups ∧
    packsWhere (fun g => g.allows basis .normalDeparture) groups ≤
      packsWhere (fun g => g.acceptance = .accepted) groups ∧
    packsWhere (fun g => g.acceptance = .accepted) groups ≤
      packsWhere (fun g => g.allows basis .normalDeparture) groups +
        packsWhere (fun g => !g.activeHolds.isEmpty) groups ∧
    packsWhere (fun g => g.allows basis .normalDeparture) groups +
      packsWhere (fun g => !g.activeHolds.isEmpty) groups ≤
        packsWhere (fun _ => true) groups := by
  simp only [GroupTreatment.allows]
  induction groups using List.reverseRecOn with
  | nil => simp [packsWhere]
  | append_singleton groups g ih =>
    simp only [packsWhere_concat]
    obtain ⟨h1, h2, h3, h4⟩ := ih
    cases g.acceptance <;> cases g.activeHolds.isEmpty <;> simp <;> omega

/-- Counting one more group keeps the tally, as long as everything on hand fits. -/
theorem Tally.count (h : Tally basis groups summary) {g : GroupTreatment}
    (hbound : packsWhere (fun _ => true) (groups ++ [g]) ≤ hubMaxWholePacks) :
    ∃ summary', TreatmentSummary.count basis summary g = .ok summary' ∧
      Tally basis (groups ++ [g]) summary' := by
  -- each condition counts at most what is on hand, which fits
  have hadd : ∀ (condition : GroupTreatment → Bool) (total : WholePacks),
      total.value = packsWhere condition groups →
      ∃ total' : WholePacks, (if condition g then
          mapErr (fun _ => TreatmentError.invalidHistory) (total.checkedAdd g.packs)
        else pure total) = .ok total' ∧ total'.value = packsWhere condition (groups ++ [g]) := by
    intro condition total htotal
    have hle := (packsWhere_le condition (groups ++ [g])).trans hbound
    rw [packsWhere_concat] at hle ⊢
    by_cases hc : condition g
    · simp only [hc, if_true] at hle ⊢
      exact ⟨⟨_, hle⟩, by simp [htotal], rfl⟩
    · simp only [hc] at hle ⊢
      exact ⟨total, rfl, by simpa using htotal⟩
  obtain ⟨onHand, hon, honHand⟩ := hadd (fun _ => true) _ h.onHand
  obtain ⟨accepted, hacc, haccepted⟩ := hadd _ _ h.accepted
  obtain ⟨reviewRequired, hrev, hreviewRequired⟩ := hadd _ _ h.reviewRequired
  obtain ⟨rejected, hrej, hrejected⟩ := hadd _ _ h.rejected
  obtain ⟨restricted, hres, hrestricted⟩ := hadd _ _ h.restricted
  obtain ⟨eligible, hel, heligible⟩ := hadd _ _ h.departureEligible
  refine ⟨⟨onHand, accepted, reviewRequired, rejected, restricted, eligible⟩, ?_,
    ⟨honHand, haccepted, hreviewRequired, hrejected, hrestricted, heligible⟩⟩
  simp only [if_true] at hon
  simp only [TreatmentSummary.count, hon, hacc, hrev, hrej, hres, hel, ok_bind]
  rfl

/-- A tally passes the summary's own checks. -/
theorem Tally.validate (h : Tally basis groups summary) : summary.validate = .ok () := by
  obtain ⟨hsplit, heligible, haccepted, hon⟩ := packsWhere_split basis groups
  rw [← h.accepted, ← h.reviewRequired, ← h.rejected, ← h.onHand] at hsplit
  rw [← h.departureEligible, ← h.accepted] at heligible
  rw [← h.departureEligible, ← h.accepted, ← h.restricted] at haccepted
  rw [← h.departureEligible, ← h.restricted, ← h.onHand] at hon
  have hbound := summary.onHand.bound
  simp only [TreatmentSummary.validate, bind_eq_ok, mapErr_eq_ok, WholePacks.checkedAdd_eq_ok,
    refuse_eq_ok, passed]
  refine ⟨summary.onHand, ⟨⟨summary.accepted.value + summary.reviewRequired.value, ?_⟩, rfl, ?_⟩,
    rfl, ?_, ?_, ?_, ?_⟩ <;> (try dsimp only) <;> omega

/-- Groups that fit together can be counted. -/
theorem count_succeeds (basis : SampleHandlingBasis)
    (hbound : packsWhere (fun _ => true) groups ≤ hubMaxWholePacks) :
    ∃ summary, groups.foldlM (TreatmentSummary.count basis) TreatmentSummary.zero = .ok summary ∧
      Tally basis groups summary := by
  refine foldlM_succeeds (Tally basis) ⟨rfl, rfl, rfl, rfl, rfl, rfl⟩ ?_
  intro done g rest summary hgroups htally
  refine htally.count (le_trans ?_ hbound)
  rw [hgroups]
  simp [packsWhere]

/-- **Every state that fits its lineage has a projection.** -/
theorem project_succeeds (h : state.Fits graph) (basis : SampleHandlingBasis) :
    ∃ projection, state.project graph basis = .ok projection := by
  have offers : ∀ (scope : CapturedPhysicalScope), graph.Admits scope → ∀ stamp status acceptance,
      ∃ acceptance', offerScope graph acceptance stamp scope status = .ok acceptance' := by
    intro scope hadmits stamp status acceptance
    obtain ⟨r, hr⟩ := PhysicalLineage.resolve_succeeds hadmits
    exact ⟨_, by rw [offerScope, hr]; rfl⟩
  obtain ⟨decided, hdecided⟩ := foldlM_total (l := state.decisions)
    (fun d hd m => offers d.scope (h.decision d hd).2.admits d.stamp d.status m) ∅
  obtain ⟨reviewed, hreviewed⟩ := foldlM_total (l := state.initialReviews)
    (fun r hr m => offers r.scope (h.review r hr).admits r.stamp .reviewRequired m) decided
  obtain ⟨restricted, hrestricted⟩ := foldlM_total (f := restrictScope graph)
    (l := state.holds.filter fun hold => hold.release.isNone) (fun hold hhold m => by
      have hadmits := (h.hold hold (List.mem_of_mem_filter hhold)).scope.admits
      obtain ⟨r, hr⟩ := PhysicalLineage.resolve_succeeds hadmits
      exact ⟨_, by rw [restrictScope, hr]; rfl⟩) ∅
  have hvalid : state.validate graph = .ok () := validate_eq_ok.mpr h
  -- whatever their verdicts, the groups have the packs of their nodes
  have hcount : ∀ stand : PhysicalLineageNode → GroupTreatment, (∀ n, (stand n).packs = n.packs) →
      ∃ summary, ((graph.nodes.filter fun n => n.packs.value > 0).map stand).foldlM
        (TreatmentSummary.count basis) TreatmentSummary.zero = .ok summary ∧
        summary.validate = .ok () := by
    intro stand hstand
    have hbound : packsWhere (fun _ => true)
        ((graph.nodes.filter fun n => n.packs.value > 0).map stand) ≤ hubMaxWholePacks := by
      refine le_trans ?_ graph.wellFormed.packs_le
      simp only [packsWhere, List.filter_true, List.map_map, Function.comp_def, hstand]
      exact List.Sublist.sum_le_sum (List.filter_sublist.map _) (by simp)
    obtain ⟨summary, hsummary, htally⟩ := count_succeeds basis hbound
    exact ⟨summary, hsummary, htally.validate⟩
  obtain ⟨summary, hsummary, hchecked⟩ := hcount (fun node =>
    { group := node.id
      packs := node.packs
      acceptance := (reviewed[node.id]?.map (·.2)).getD .reviewRequired
      acceptanceDecision := reviewed[node.id]?.map (·.1.id)
      activeHolds := (restricted[node.id]?.getD []).insertionSort (· ≤ ·) }) fun _ => rfl
  simp only [project, hvalid, hdecided, hreviewed, hrestricted, hsummary, hchecked, ok_bind]
  exact ⟨_, rfl⟩

end TreatmentState

/-- What a passed requirement of normal departure says of a selected group. -/
theorem TreatmentProjection.require_eq_ok {projection : TreatmentProjection}
    {selection : TreatmentSelection} {action : PhysicalAction} {u : Unit}
    (h : projection.require selection action = .ok u) {id : HubRecordId}
    (hid : id ∈ selection.groups) :
    ∃ group ∈ projection.groups, group.group = id ∧
      group.allows projection.basis action = true := by
  simp only [require, accepted, forM_eq_ok, Bool.not_eq_false] at h
  obtain ⟨-, hall⟩ := h
  obtain ⟨group, hfind, hallows⟩ := hall id hid
  exact ⟨group, List.mem_of_find?_eq_some hfind, by simpa using List.find?_some hfind, hallows⟩

end HarvestCircle
