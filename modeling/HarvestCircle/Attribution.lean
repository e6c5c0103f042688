import Mathlib.Data.Finset.Sort
import Mathlib.Data.Finset.Union
import Mathlib.Data.Prod.Lex
import HarvestCircle.Dispatch

/-! # Corrections of what was said about stock

Where stock came from, or who received it, may turn out to be other than was recorded.
The original stays; a correction is appended with the new interpretation and with its
impact: the populations, sources, departures, papers and recipients that somebody now
has to look at again.

A history of corrections is replayed from the original.  Each correction starts from
the interpretation before it, at a later revision, and its impact has to cover what the
replay has found to be affected so far.
-/
namespace HarvestCircle
open Checked

def hubCorrectionRows : Nat := 4096
def hubCorrectionImpacts : Nat := 4096
def hubReferenceHistoryCapacity : Nat := 16384

inductive AttributionError where
  | capacity
  | invalidHistory
  | invalidReference
  | sourceIdentityConflict
  | staleRevision
  | revisionExhausted
  | uncertainSubmission
  | noChange
  | invalidScope
  deriving DecidableEq, Repr

/-! ## Impacts -/

/-- A record that a correction may bear on. -/
inductive CorrectionImpact where
  | population (id : HubRecordId)
  | source (id : HubRecordId)
  | departure (id : HubRecordId)
  | issuedVersion (id : HubRecordId)
  | recipient (id : HubRecordId)
  | unresolvedSource (id : HubRecordId)
  | unresolvedRecipient (id : HubRecordId)
  deriving DecidableEq, Repr

namespace CorrectionImpact

/-- Where the source's derived order puts an impact: by kind, then by identity. -/
def place : CorrectionImpact → Nat ×ₗ HubRecordId
  | population id => toLex (0, id)
  | source id => toLex (1, id)
  | departure id => toLex (2, id)
  | issuedVersion id => toLex (3, id)
  | recipient id => toLex (4, id)
  | unresolvedSource id => toLex (5, id)
  | unresolvedRecipient id => toLex (6, id)

theorem place_injective : Function.Injective place := by
  intro a b h
  cases a <;> cases b <;> simp_all [place]

instance : LinearOrder CorrectionImpact := LinearOrder.lift' place place_injective

def IsIssuedVersion : CorrectionImpact → Prop
  | issuedVersion _ => True
  | _ => False

instance : DecidablePred IsIssuedVersion := fun target => by
  cases target <;> unfold IsIssuedVersion <;> infer_instance

/-- What lies downstream of a source: all but the sources themselves. -/
def IsDownstream : CorrectionImpact → Prop
  | source _ => False
  | unresolvedSource _ => False
  | _ => True

instance : DecidablePred IsDownstream := fun target => by
  cases target <;> unfold IsDownstream <;> infer_instance

end CorrectionImpact

/-- The impacts of one correction, in order and each once. -/
structure CorrectionImpactSet where
  rows : List CorrectionImpact
  sorted : rows.Pairwise (· < ·)
  nonempty : rows ≠ []
  bounded : rows.length ≤ hubCorrectionImpacts
  deriving DecidableEq, Repr

instance : Membership CorrectionImpact CorrectionImpactSet := ⟨fun set target => target ∈ set.rows⟩

instance (target : CorrectionImpact) (set : CorrectionImpactSet) : Decidable (target ∈ set) :=
  inferInstanceAs (Decidable (target ∈ set.rows))

@[ext] theorem CorrectionImpactSet.ext_mem {a b : CorrectionImpactSet}
    (h : ∀ target, target ∈ a ↔ target ∈ b) : a = b := by
  obtain ⟨rows, sorted, _, _⟩ := a
  obtain ⟨rows', sorted', _, _⟩ := b
  obtain rfl : rows = rows' := eq_of_pairwise_lt id sorted sorted' h
  rfl

/-- A set of impacts that is being collected. -/
@[ext] structure ImpactBuilder where
  targets : Finset CorrectionImpact
  bounded : targets.card ≤ hubCorrectionImpacts

namespace ImpactBuilder
variable {builder builder' : ImpactBuilder}

def new : ImpactBuilder := ⟨∅, by simp⟩

def add (builder : ImpactBuilder) (target : CorrectionImpact) :
    Except AttributionError ImpactBuilder :=
  if h : (insert target builder.targets).card ≤ hubCorrectionImpacts then .ok ⟨_, h⟩
  else .error .capacity

variable {target : CorrectionImpact}

theorem add_eq_ok :
    builder.add target = .ok builder' ↔ builder'.targets = insert target builder.targets := by
  unfold add
  split
  · rw [Except.ok.injEq, ImpactBuilder.ext_iff]
    exact eq_comm
  · rename_i hcard
    constructor
    · intro h
      cases h
    · intro h
      exact absurd (h ▸ builder'.bounded) hcard

/-- The impacts of an earlier set, to be added to. -/
def ofSet (set : CorrectionImpactSet) : ImpactBuilder :=
  ⟨set.rows.toFinset, (List.toFinset_card_le _).trans set.bounded⟩

/-- The targets in order, as an ordered set lists them. -/
def rows (builder : ImpactBuilder) : List CorrectionImpact :=
  Quot.liftOn builder.targets.val (List.insertionSort (· ≤ ·)) fun _ _ h =>
    ((List.perm_insertionSort _ _).trans
      (h.trans (List.perm_insertionSort _ _).symm)).eq_of_pairwise'
      (List.pairwise_insertionSort _ _) (List.pairwise_insertionSort _ _)

theorem rows_eq_sort (builder : ImpactBuilder) : builder.rows = builder.targets.sort (· ≤ ·) := by
  obtain ⟨⟨targets, _⟩, _⟩ := builder
  induction targets using Quot.inductionOn with
  | h l => exact (List.mergeSort_eq_insertionSort (· ≤ ·) l).symm

@[simp] theorem mem_rows : target ∈ builder.rows ↔ target ∈ builder.targets := by
  rw [rows_eq_sort, Finset.mem_sort]

def finish (builder : ImpactBuilder) : Except AttributionError CorrectionImpactSet :=
  if h : builder.rows ≠ [] then
    .ok {
      rows := builder.rows
      sorted := by
        rw [rows_eq_sort]
        exact builder.targets.sortedLT_sort.pairwise
      nonempty := h
      bounded := by simpa [rows_eq_sort] using builder.bounded }
  else .error .capacity

theorem finish_eq_ok {set : CorrectionImpactSet} :
    builder.finish = .ok set ↔ ∀ target, target ∈ set ↔ target ∈ builder.targets := by
  unfold finish
  split
  · rw [Except.ok.injEq]
    constructor
    · rintro rfl target
      exact mem_rows
    · intro h
      ext target
      rw [h]
      exact mem_rows
  · rename_i hempty
    constructor
    · intro h
      cases h
    · intro h
      obtain ⟨target, hmem⟩ := List.exists_mem_of_ne_nil _ set.nonempty
      exact absurd (List.ne_nil_of_mem (mem_rows.mpr ((h target).mp hmem))) hempty

/-- A step that may refuse and otherwise adds fixed entries, as long as they fit. -/
def Collects (step : ImpactBuilder → Except AttributionError ImpactBuilder) (check : Prop)
    (entries : Finset CorrectionImpact) : Prop :=
  ∀ builder builder', step builder = .ok builder' ↔
    check ∧ builder'.targets = builder.targets ∪ entries

section Collects
variable {step step' : ImpactBuilder → Except AttributionError ImpactBuilder} {check check' : Prop}
  {entries entries' : Finset CorrectionImpact}

theorem collects_add (target : CorrectionImpact) : Collects (add · target) True {target} := by
  intro builder builder'
  rw [add_eq_ok, Finset.insert_eq, Finset.union_comm, true_and]

theorem collects_pure : Collects pure True ∅ := by
  intro builder builder'
  rw [pure_eq_ok, Finset.union_empty, true_and, ImpactBuilder.ext_iff, eq_comm]

theorem Collects.bind (h : Collects step check entries) (h' : Collects step' check' entries') :
    Collects (fun builder => step builder >>= step') (check ∧ check') (entries ∪ entries') := by
  intro builder builder'
  rw [bind_eq_ok, ← Finset.union_assoc]
  constructor
  · rintro ⟨next, hnext, hlast⟩
    obtain ⟨hcheck, hentries⟩ := (h _ _).mp hnext
    obtain ⟨hcheck', hentries'⟩ := (h' _ _).mp hlast
    exact ⟨⟨hcheck, hcheck'⟩, hentries ▸ hentries'⟩
  · rintro ⟨⟨hcheck, hcheck'⟩, heq⟩
    -- what is collected on the way fits, because the result does
    have hcard : (builder.targets ∪ entries).card ≤ hubCorrectionImpacts := by
      refine (Finset.card_le_card ?_).trans builder'.bounded
      rw [heq]
      exact Finset.subset_union_left
    exact ⟨⟨_, hcard⟩, (h _ _).mpr ⟨hcheck, rfl⟩, (h' _ _).mpr ⟨hcheck', heq⟩⟩

theorem Collects.congr (h : Collects step check entries) (hcheck : check ↔ check')
    (hentries : entries = entries') : Collects step check' entries' := by
  subst hentries
  exact fun builder builder' => (h builder builder').trans (and_congr_left' hcheck)

/-- A check before the step. -/
theorem Collects.guard (guard : Except AttributionError Unit) (h : Collects step check entries) :
    Collects (fun builder => guard >>= fun _ => step builder) (guard = .ok () ∧ check) entries := by
  intro builder builder'
  rw [bind_eq_ok, exists_unit_and, h, and_assoc]

theorem Collects.foldlM {α : Type} [DecidableEq α]
    {step : ImpactBuilder → α → Except AttributionError ImpactBuilder} {check : α → Prop}
    {entries : α → Finset CorrectionImpact}
    (h : ∀ a, Collects (step · a) (check a) (entries a)) (l : List α) :
    Collects (l.foldlM step) (∀ a ∈ l, check a) (l.toFinset.biUnion entries) := by
  induction l with
  | nil => simpa using collects_pure
  | cons a l ih =>
    have := (h a).bind ih
    simpa only [List.foldlM_cons, List.mem_cons, forall_eq_or_imp, List.toFinset_cons,
      Finset.biUnion_insert] using this

theorem collects_addAll {α : Type} [DecidableEq α] (target : α → CorrectionImpact) (l : List α) :
    Collects (l.foldlM fun builder a => builder.add (target a)) True (l.map target).toFinset := by
  have h := Collects.foldlM (fun a => collects_add (target a)) l
  have hsame : l.toFinset.biUnion (fun a => {target a}) = (l.map target).toFinset := by
    ext t
    simp [eq_comm]
  rw [hsame] at h
  simpa using h

end Collects

end ImpactBuilder

/-! ## Interpretations -/

def partyRecord (record : ReferenceRecord) (catalog : HubRevision) :
    Except AttributionError Unit :=
  refuse (record.value.kind ≠ .party ∨ record.revision.value > catalog.value) .invalidReference

/-- A recipient as a correction leaves it. -/
inductive AmendedRecipient where
  | unknown
  | known (record : ReferenceRecord)
  deriving DecidableEq, Repr

namespace AmendedRecipient

def validate (recipient : AmendedRecipient) (catalog : HubRevision) :
    Except AttributionError Unit :=
  match recipient with
  | unknown => return ()
  | known record => partyRecord record catalog

/-- Both are known, as the same party. -/
def SameParty : AmendedRecipient → AmendedRecipient → Prop
  | known a, known b => a.id = b.id
  | _, _ => False

instance : DecidableRel SameParty := fun a b => by
  cases a <;> cases b <;> unfold SameParty <;> infer_instance

/-- What a recipient adds to the impact of a correction. -/
def entries (event : HubRecordId) : AmendedRecipient → Finset CorrectionImpact
  | unknown => {.unresolvedRecipient event}
  | known record => {.recipient record.id}

end AmendedRecipient

/-- A source as a correction leaves it. -/
structure AmendedSource where
  source : SourceAttribution
  issuer : Option ReferenceRecord
  deriving DecidableEq, Repr

def AmendedSource.validate (amended : AmendedSource) (catalog : HubRevision) :
    Except AttributionError Unit :=
  match amended.source, amended.issuer with
  | .unknown, none => return ()
  | .referenced source _, none => refuse (source.issuer ≠ none) .invalidReference
  | .referenced source _, some issuer => do
    refuse (source.issuer ≠ some issuer.id) .invalidReference
    partyRecord issuer catalog
  | .unknown, some _ => throw .invalidReference

namespace SourceAttribution

/-- Not known well enough to rule anything out. -/
def Unresolved : SourceAttribution → Prop
  | unknown => True
  | referenced source certainty => source.issuer = none ∨ certainty = .reportedPossible

/-- What a source adds to the impact of a correction. -/
def entries (trace : HubRecordId) : SourceAttribution → Finset CorrectionImpact
  | unknown => {.unresolvedSource trace}
  | referenced source certainty =>
    if source.issuer = none ∨ certainty = .reportedPossible then
      {.source source.id, .unresolvedSource trace}
    else {.source source.id}

/-- The same identity is used for another source. -/
def Conflicts (source : SourceReference) : SourceAttribution → Prop
  | unknown => False
  | referenced original _ => original.id = source.id ∧ original ≠ source

instance (source : SourceReference) : DecidablePred (Conflicts source) := fun previous => by
  cases previous <;> unfold Conflicts <;> infer_instance

end SourceAttribution

def validateSourceReuse (proposed : SourceAttribution) (existing : List SourceAttribution) :
    Except StockError Unit :=
  match proposed with
  | .unknown => return ()
  | .referenced source _ =>
    refuse (∃ previous ∈ existing, previous.Conflicts source) .sourceIdentityConflict

theorem validateSourceReuse_eq_ok {proposed : SourceAttribution}
    {existing : List SourceAttribution} {u : Unit} :
    validateSourceReuse proposed existing = .ok u ↔ ∀ source certainty,
      proposed = .referenced source certainty →
        ∀ previous ∈ existing, ¬ previous.Conflicts source := by
  cases proposed with
  | unknown => simp [validateSourceReuse]
  | referenced source certainty =>
    simp only [validateSourceReuse, refuse_eq_ok, not_exists, not_and]
    constructor
    · rintro h _ _ ⟨rfl, rfl⟩
      exact h
    · exact fun h => h source certainty rfl

namespace ImpactBuilder
variable {builder builder' : ImpactBuilder}

def source (builder : ImpactBuilder) (trace : HubRecordId) (source : SourceAttribution) :
    Except AttributionError ImpactBuilder :=
  match source with
  | .unknown => builder.add (.unresolvedSource trace)
  | .referenced source certainty => do
    let builder ← builder.add (.source source.id)
    if source.issuer = none ∨ certainty = .reportedPossible then
      builder.add (.unresolvedSource trace)
    else return builder

theorem collects_source (trace : HubRecordId) (source : SourceAttribution) :
    Collects (ImpactBuilder.source · trace source) True (source.entries trace) := by
  cases source with
  | unknown => exact collects_add _
  | referenced reference certainty =>
    by_cases hunresolved : reference.issuer = none ∨ certainty = .reportedPossible
    · simpa [ImpactBuilder.source, SourceAttribution.entries, hunresolved] using
        (collects_add (.source reference.id)).bind (collects_add (.unresolvedSource trace))
    · simpa [ImpactBuilder.source, SourceAttribution.entries, hunresolved] using
        collects_add (.source reference.id)

def recipient (builder : ImpactBuilder) (event : HubRecordId) (recipient : AmendedRecipient) :
    Except AttributionError ImpactBuilder :=
  match recipient with
  | .unknown => builder.add (.unresolvedRecipient event)
  | .known record => builder.add (.recipient record.id)

theorem collects_recipient (event : HubRecordId) (recipient : AmendedRecipient) :
    Collects (ImpactBuilder.recipient · event recipient) True (recipient.entries event) := by
  cases recipient <;> exact collects_add _

end ImpactBuilder

/-! ## What is affected -/

/-- A departure, as a whole: every population in it, everyone it was ever said to have gone to
and every paper issued for it. -/
structure AttributionAffectedDeparture where
  operation : HubRecordId
  populations : List HubRecordId
  recipients : List AmendedRecipient
  issuedVersions : List HubRecordId
  deriving DecidableEq, Repr

/-- A paper, as it was issued. -/
structure AttributionAffectedIssuedVersion where
  version : HubRecordId
  stockRevision : HubRevision
  catalogRevision : HubRevision
  populations : List HubRecordId
  recipient : ReferenceRecord
  deriving DecidableEq, Repr

namespace AttributionAffectedIssuedVersion

def impact (issued : AttributionAffectedIssuedVersion) (targets : ImpactBuilder) :
    Except AttributionError ImpactBuilder := do
  refuse (issued.populations = [] ∨ issued.populations.length > hubDispatchLines) .capacity
  refuse (issued.stockRevision = .initial ∨ ¬ issued.populations.Nodup) .invalidHistory
  partyRecord issued.recipient issued.catalogRevision
  let targets ← targets.add (.issuedVersion issued.version)
  let targets ← targets.add (.recipient issued.recipient.id)
  issued.populations.foldlM (fun targets id => targets.add (.population id)) targets

def entries (issued : AttributionAffectedIssuedVersion) : Finset CorrectionImpact :=
  {.issuedVersion issued.version, .recipient issued.recipient.id} ∪
    (issued.populations.map .population).toFinset

/-- The scope of a paper is of an admissible size and names nothing twice. -/
structure Scoped (issued : AttributionAffectedIssuedVersion) : Prop where
  populations : issued.populations ≠ [] ∧ issued.populations.length ≤ hubDispatchLines
  later : issued.stockRevision ≠ .initial
  distinct : issued.populations.Nodup
  valid : partyRecord issued.recipient issued.catalogRevision = .ok ()

open ImpactBuilder in
theorem collects_impact (issued : AttributionAffectedIssuedVersion) :
    Collects issued.impact issued.Scoped issued.entries := by
  have hentries := (collects_add (.issuedVersion issued.version)).bind
    ((collects_add (.recipient issued.recipient.id)).bind
      (collects_addAll .population issued.populations))
  have hguarded := ((hentries.guard (partyRecord issued.recipient issued.catalogRevision)).guard
    (refuse (issued.stockRevision = .initial ∨ ¬ issued.populations.Nodup) .invalidHistory)).guard
    (refuse (issued.populations = [] ∨ issued.populations.length > hubDispatchLines) .capacity)
  refine hguarded.congr ?_ ?_
  · simp only [refuse_eq_ok, passed, and_true]
    constructor
    · rintro ⟨⟨hne, hlen⟩, ⟨hlater, hdistinct⟩, hvalid⟩
      exact ⟨⟨hne, by omega⟩, hlater, hdistinct, hvalid⟩
    · rintro ⟨⟨hne, hlen⟩, hlater, hdistinct, hvalid⟩
      exact ⟨⟨hne, by omega⟩, ⟨hlater, hdistinct⟩, hvalid⟩
  · rw [← Finset.union_assoc]
    rfl

end AttributionAffectedIssuedVersion

namespace AttributionAffectedDeparture

def impact (event : AttributionAffectedDeparture) (targets : ImpactBuilder)
    (catalog : HubRevision) : Except AttributionError ImpactBuilder := do
  refuse (event.populations = [] ∨ event.populations.length > hubDispatchLines ∨
    event.recipients = [] ∨ event.recipients.length > hubCorrectionRows + 1 ∨
    event.issuedVersions.length > hubIdentificationVersions) .capacity
  refuse (¬ event.populations.Nodup ∨ ¬ event.issuedVersions.Nodup) .invalidHistory
  let targets ← targets.add (.departure event.operation)
  let targets ← event.populations.foldlM (fun targets id => targets.add (.population id)) targets
  let targets ← event.recipients.foldlM (fun targets recipient => do
    recipient.validate catalog
    targets.recipient event.operation recipient) targets
  event.issuedVersions.foldlM (fun targets id => targets.add (.issuedVersion id)) targets

def entries (event : AttributionAffectedDeparture) : Finset CorrectionImpact :=
  {.departure event.operation} ∪ (event.populations.map .population).toFinset ∪
    event.recipients.toFinset.biUnion (·.entries event.operation) ∪
    (event.issuedVersions.map .issuedVersion).toFinset

/-- The scope of a departure is of an admissible size and names nothing twice. -/
structure Scoped (event : AttributionAffectedDeparture) (catalog : HubRevision) : Prop where
  populations : event.populations ≠ [] ∧ event.populations.length ≤ hubDispatchLines
  recipients : event.recipients ≠ [] ∧ event.recipients.length ≤ hubCorrectionRows + 1
  versions : event.issuedVersions.length ≤ hubIdentificationVersions
  distinct : event.populations.Nodup ∧ event.issuedVersions.Nodup
  valid : ∀ recipient ∈ event.recipients, recipient.validate catalog = .ok ()

open ImpactBuilder in
theorem collects_impact (event : AttributionAffectedDeparture) (catalog : HubRevision) :
    Collects (event.impact · catalog) (event.Scoped catalog) event.entries := by
  have hrecipients := Collects.foldlM (fun recipient =>
    (collects_recipient event.operation recipient).guard (recipient.validate catalog))
    event.recipients
  have hentries := (collects_add (.departure event.operation)).bind
    ((collects_addAll .population event.populations).bind
      (hrecipients.bind (collects_addAll .issuedVersion event.issuedVersions)))
  have hguarded := (hentries.guard
    (refuse (¬ event.populations.Nodup ∨ ¬ event.issuedVersions.Nodup) .invalidHistory)).guard
    (refuse (event.populations = [] ∨ event.populations.length > hubDispatchLines ∨
      event.recipients = [] ∨ event.recipients.length > hubCorrectionRows + 1 ∨
      event.issuedVersions.length > hubIdentificationVersions) .capacity)
  refine hguarded.congr ?_ ?_
  · simp only [refuse_eq_ok, passed, and_true, true_and]
    constructor
    · rintro ⟨⟨hp, hp', hr, hr', hversions⟩, ⟨hd, hd'⟩, hvalid⟩
      exact ⟨⟨hp, by omega⟩, ⟨hr, by omega⟩, by omega, ⟨hd, hd'⟩, hvalid⟩
    · rintro ⟨⟨hp, hp'⟩, ⟨hr, hr'⟩, hversions, ⟨hd, hd'⟩, hvalid⟩
      exact ⟨⟨hp, by omega, hr, by omega, by omega⟩, ⟨hd, hd'⟩, hvalid⟩
  · simp only [entries, Finset.union_assoc]

end AttributionAffectedDeparture

/-! ## Stamps -/

/-- What a plan is shown of the hub. -/
structure AttributionCut where
  hub : HubId
  stockRevision : HubRevision
  catalog : ReferenceCatalog
  latestRecordedAt : UnixTimestamp
  uncertainSubmissions : Bool
  deriving DecidableEq, Repr

def AttributionCut.check (cut : AttributionCut) (expected catalog : HubRevision)
    (now : UnixTimestamp) : Except AttributionError HubRevision := do
  refuse (cut.uncertainSubmissions = true) .uncertainSubmission
  refuse (expected ≠ cut.stockRevision ∨ catalog ≠ cut.catalog.revision) .staleRevision
  refuse (now < cut.latestRecordedAt) .invalidHistory
  mapErr (fun _ => .revisionExhausted) cut.stockRevision.next

theorem AttributionCut.check_eq_ok {cut : AttributionCut} {expected catalog next : HubRevision}
    {now : UnixTimestamp} (h : cut.check expected catalog now = .ok next) :
    next.value = cut.stockRevision.value + 1 := by
  simp only [check, accepted, HubRevision.next_eq_ok] at h
  exact h.2.2.2

/-- Who recorded a correction, when and at which revisions. -/
structure AttributionStamp where
  operation : HubRecordId
  hub : HubId
  stockRevision : HubRevision
  catalogRevision : HubRevision
  actor : PublicKey
  recordedAt : UnixTimestamp
  basis : SourceProvenance
  deriving DecidableEq, Repr

/-- A cut shows the hub as it was when the stamp was made, or later. -/
structure AttributionCut.AtOrAfter (cut : AttributionCut) (stamp : AttributionStamp) : Prop where
  hub_eq : cut.hub = stamp.hub
  stock_le : stamp.stockRevision.value ≤ cut.stockRevision.value
  catalog_le : stamp.catalogRevision.value ≤ cut.catalog.revision.value

def checkStamp (stamp : AttributionStamp) (hub : HubId) (previous catalog : HubRevision)
    (time : UnixTimestamp) : Except AttributionError Unit :=
  refuse (stamp.hub ≠ hub ∨ stamp.stockRevision.value ≤ previous.value ∨
    stamp.catalogRevision.value < catalog.value ∨ stamp.recordedAt < time) .invalidHistory

/-- How far the replay of a history has come: the last revisions and time, and the operations
already used. -/
structure StampTrail where
  revision : HubRevision
  catalog : HubRevision
  time : UnixTimestamp
  operations : Finset HubRecordId
  deriving DecidableEq

namespace StampTrail

def after (trail : StampTrail) (stamp : AttributionStamp) : StampTrail where
  revision := stamp.stockRevision
  catalog := stamp.catalogRevision
  time := stamp.recordedAt
  operations := insert stamp.operation trail.operations

/-- The replay goes on with a later stamp of a new operation. -/
def enter (trail : StampTrail) (hub : HubId) (stamp : AttributionStamp) :
    Except AttributionError StampTrail := do
  checkStamp stamp hub trail.revision trail.catalog trail.time
  refuse (stamp.operation ∈ trail.operations) .invalidHistory
  return trail.after stamp

/-- The stamp continues the trail. -/
structure Continues (trail : StampTrail) (hub : HubId) (stamp : AttributionStamp) : Prop where
  hub_eq : stamp.hub = hub
  revision_lt : trail.revision.value < stamp.stockRevision.value
  catalog_le : trail.catalog.value ≤ stamp.catalogRevision.value
  time_le : trail.time ≤ stamp.recordedAt
  fresh : stamp.operation ∉ trail.operations

variable {stamp : AttributionStamp}

theorem enter_eq_ok {trail trail' : StampTrail} {hub : HubId} :
    trail.enter hub stamp = .ok trail' ↔ trail.Continues hub stamp ∧
      trail' = trail.after stamp := by
  simp only [enter, checkStamp, accepted, passed, eq_comm (a := trail')]
  constructor
  · rintro ⟨⟨hhub, hrevision, hcatalog, htime⟩, hfresh, rfl⟩
    exact ⟨⟨hhub, hrevision, hcatalog, htime, hfresh⟩, rfl⟩
  · rintro ⟨⟨hhub, hrevision, hcatalog, htime, hfresh⟩, rfl⟩
    exact ⟨⟨hhub, hrevision, hcatalog, htime⟩, hfresh, rfl⟩

/-- The trail of a whole history. -/
def through (trail : StampTrail) (stamps : List AttributionStamp) : StampTrail :=
  stamps.foldl after trail

variable (trail : StampTrail) (stamps : List AttributionStamp)

@[simp] theorem through_concat (stamp : AttributionStamp) :
    trail.through (stamps ++ [stamp]) = (trail.through stamps).after stamp := by
  simp [through]

theorem through_revision : (trail.through stamps).revision =
    (stamps.getLast?.map (·.stockRevision)).getD trail.revision := by
  cases stamps using List.reverseRecOn <;> simp [through, after]

theorem through_catalog : (trail.through stamps).catalog =
    (stamps.getLast?.map (·.catalogRevision)).getD trail.catalog := by
  cases stamps using List.reverseRecOn <;> simp [through, after]

theorem through_time : (trail.through stamps).time =
    (stamps.getLast?.map (·.recordedAt)).getD trail.time := by
  cases stamps using List.reverseRecOn <;> simp [through, after]

theorem mem_through_operations {operation : HubRecordId} :
    operation ∈ (trail.through stamps).operations ↔
      operation ∈ trail.operations ∨ ∃ stamp ∈ stamps, stamp.operation = operation := by
  induction stamps using List.reverseRecOn with
  | nil => simp [through]
  | append_singleton stamps stamp ih =>
    simp only [through_concat, after, Finset.mem_insert, ih, List.mem_append, List.mem_singleton]
    constructor
    · rintro (rfl | h | ⟨earlier, hmem, rfl⟩)
      · exact .inr ⟨stamp, .inr rfl, rfl⟩
      · exact .inl h
      · exact .inr ⟨earlier, .inl hmem, rfl⟩
    · rintro (h | ⟨other, hmem | rfl, rfl⟩)
      · exact .inr (.inl h)
      · exact .inr (.inr ⟨other, hmem, rfl⟩)
      · exact .inl rfl

/-- The stamp of a plan comes after the history it was planned on. -/
theorem continues_of_plan {α : Type} {trail : StampTrail} {history : List α}
    {stampOf : α → AttributionStamp} {hub : HubId} {cut : AttributionCut}
    {expected catalog : HubRevision} (hhub : stamp.hub = hub)
    (hnext : cut.check expected catalog stamp.recordedAt = .ok stamp.stockRevision)
    (hrevision : ((history.getLast?.map fun a => (stampOf a).stockRevision).getD
      trail.revision).value ≤ cut.stockRevision.value)
    (hcatalog : ((history.getLast?.map fun a => (stampOf a).catalogRevision).getD
      trail.catalog).value ≤ stamp.catalogRevision.value)
    (htime : (history.getLast?.map fun a => (stampOf a).recordedAt).getD trail.time ≤
      stamp.recordedAt) (hfirst : stamp.operation ∉ trail.operations)
    (hfresh : ¬ ∃ a ∈ history, (stampOf a).operation = stamp.operation) :
    (trail.through (history.map stampOf)).Continues hub stamp where
  hub_eq := hhub
  revision_lt := by
    have := AttributionCut.check_eq_ok hnext
    rw [through_revision, List.getLast?_map, Option.map_map]
    exact Nat.lt_of_le_of_lt hrevision (by omega)
  catalog_le := by rwa [through_catalog, List.getLast?_map, Option.map_map]
  time_le := by rwa [through_time, List.getLast?_map, Option.map_map]
  fresh := by
    rw [mem_through_operations, not_or]
    refine ⟨hfirst, ?_⟩
    rintro ⟨earlier, hmem, heq⟩
    obtain ⟨a, ha, rfl⟩ := List.mem_map.mp hmem
    exact hfresh ⟨a, ha, heq⟩

end StampTrail

end HarvestCircle
