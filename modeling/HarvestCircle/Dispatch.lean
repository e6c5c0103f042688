import HarvestCircle.Identity
import HarvestCircle.Movement

/-! # Dispatch papers

A dispatch paper lists whole physical groups that are to leave for one recipient.
While it is a draft it can be rewritten; once issued, its lines only change by a
new version that supersedes the last one.  A line records the group as it stood,
with its revision and all its packs, so that any later change shows.

`DispatchMaterial.capture` reads the selected groups into such lines; capturing the
same selection again and comparing tells whether the paper still describes the stock.
-/
namespace HarvestCircle
open Checked

def hubDispatchLines : Nat := 64
def hubIdentificationVersions : Nat := 32

inductive DispatchError where
  | capacity
  | invalidSelection
  | invalidHistory
  | staleRevision
  | revisionExhausted
  | physicalSeparationRequired
  | invalidState
  | previewChanged
  | noMaterialChange
  deriving DecidableEq, Repr

/-- The records an operation on a paper may create. -/
structure DispatchIdentities where
  operation : HubRecordId
  preparation : HubRecordId
  identification : HubRecordId
  deriving DecidableEq, Repr

def DispatchIdentities.fromOperationBytes [Sha256] (operation : HubRecordId) :
    Except DispatchError DispatchIdentities := do
  let derive := fun purpose => mapErr (fun _ => DispatchError.invalidSelection)
    (HubRecordId.derived (utf8 "harvestcircle.hub.dispatch.identity.v1\x00" ++ utf8 purpose ++
      operation.asBytes))
  let preparation ← derive "preparation\x00"
  let identification ← derive "identification\x00"
  return { operation, preparation, identification }

/-! ## Selections -/

/-- Packs asked for from one group. -/
structure DispatchLineInput where
  group : HubRecordId
  expectedGroupRevision : HubRevision
  packs : WholePacks
  deriving DecidableEq, Repr

/-- Some packs of each of up to 64 groups, in the order of their identities. -/
structure DispatchSelection where
  lines : List DispatchLineInput
  nonempty : lines ≠ []
  positive : ∀ line ∈ lines, 0 < line.packs.value
  length_le : lines.length ≤ hubDispatchLines
  sorted : lines.Pairwise fun a b => a.group < b.group
  deriving DecidableEq

namespace DispatchSelection

def sortLines (lines : List DispatchLineInput) : List DispatchLineInput :=
  lines.insertionSort fun a b => a.group ≤ b.group

theorem sortLines_perm (lines : List DispatchLineInput) : (sortLines lines).Perm lines :=
  List.perm_insertionSort _ lines

def new (lines : List DispatchLineInput) : Except DispatchError DispatchSelection :=
  if hpos : lines = [] ∨ ∃ line ∈ lines, line.packs.value = 0 then .error .invalidSelection
  else if hlen : lines.length > hubDispatchLines then .error .capacity
  else if hchain : ¬ (sortLines lines).IsChain (fun a b => a.group ≠ b.group) then
    .error .invalidSelection
  else .ok {
    lines := sortLines lines
    nonempty := fun h => hpos (.inl ((h ▸ sortLines_perm lines).symm.eq_nil))
    positive := fun line hline => Nat.pos_of_ne_zero fun h =>
      hpos (.inr ⟨line, (sortLines_perm lines).mem_iff.mp hline, h⟩)
    length_le := by
      rw [(sortLines_perm lines).length_eq]
      omega
    sorted := by
      have hsorted := List.pairwise_insertionSort (fun a b : DispatchLineInput => a.group ≤ b.group)
        lines
      exact pairwise_lt_of_isChain_ne DispatchLineInput.group hsorted (not_not.mp hchain) }

end DispatchSelection

/-! ## Material -/

/-- A population and one of its present groups. -/
structure DispatchSource where
  group : PhysicalStockGroup
  trace : StockPopulation
  deriving DecidableEq, Repr

/-- A line with its references as they read. -/
structure DispatchLineSnapshot where
  group : HubRecordId
  groupRevision : HubRevision
  packs : WholePacks
  identification : Option PhysicalIdentification
  location : ReferenceRecord
  product : ReferenceRecord
  variant : ReferenceRecord
  trace : StockPopulation
  deriving DecidableEq, Repr

/-- What a paper says is to leave, and to whom. -/
structure DispatchMaterial where
  stockRevision : HubRevision
  catalogRevision : HubRevision
  basis : SampleHandlingBasis
  recipient : ReferenceRecord
  lines : List DispatchLineSnapshot
  observation : SourceProvenance
  deriving DecidableEq, Repr

/-- Who wrote on the paper, and when. -/
structure DispatchStamp where
  operation : HubRecordId
  stockRevision : HubRevision
  actor : PublicKey
  recordedAt : UnixTimestamp
  observation : SourceProvenance
  deriving DecidableEq, Repr

/-- Only the last version can be issued or unused. -/
inductive IdentificationStatus where
  | issued
  | superseded
  | unused
  deriving DecidableEq, Repr

/-- One issue of the paper. -/
structure IdentificationVersion where
  id : HubRecordId
  number : Nat
  previous : Option HubRecordId
  material : DispatchMaterial
  issued : DispatchStamp
  status : IdentificationStatus
  closed : Option DispatchStamp
  deriving DecidableEq, Repr

/-- A paper: its draft and all its versions. -/
structure DispatchRecord where
  id : HubRecordId
  hub : HubId
  revision : HubRevision
  created : DispatchStamp
  updated : DispatchStamp
  draft : Option DispatchMaterial
  versions : List IdentificationVersion
  deriving DecidableEq, Repr

/-- What the hub reads for a paper. -/
structure DispatchContext where
  hub : HubId
  stockRevision : HubRevision
  catalog : ReferenceCatalog
  sources : List DispatchSource
  current : Option DispatchRecord

namespace DispatchMaterial

def checkLine (material : DispatchMaterial) (earlier : List DispatchLineSnapshot)
    (line : DispatchLineSnapshot) : Except DispatchError Unit :=
  refuse (line.packs.value = 0 ∨ (∃ other ∈ earlier, other.group = line.group) ∨
    line.product.value.kind ≠ .product ∨ line.variant.value.kind ≠ .pack ∨
    line.location.value.kind ≠ .location ∨ line.variant.id ≠ line.trace.variant.id ∨
    line.product.id ≠ line.trace.product.id ∨
    (∃ revision ∈ [line.product.revision, line.variant.revision, line.location.revision],
      revision.value > material.catalogRevision.value) ∨
    packProduct line.variant.value ≠ some line.product.id) .invalidHistory

def validate (material : DispatchMaterial) : Except DispatchError Unit := do
  refuse (material.lines = [] ∨ material.lines.length > hubDispatchLines ∨
    ¬ material.lines.IsChain (fun a b => a.group < b.group) ∨
    material.recipient.value.kind ≠ .party ∨
    material.recipient.revision.value > material.catalogRevision.value) .invalidHistory
  forPrefix material.checkLine [] material.lines

/-- Validated lines are in the order of their groups. -/
theorem sorted_of_validate {material : DispatchMaterial} {u : Unit}
    (h : material.validate = .ok u) : material.lines.Pairwise fun a b => a.group < b.group := by
  simp only [validate, accepted, passed] at h
  let lt (a b : DispatchLineSnapshot) : Prop := a.group < b.group
  have : Trans lt lt lt := ⟨lt_trans⟩
  exact (List.isChain_iff_pairwise (R := lt)).mp h.1.2.2.1

/-- Read one selected group into a line. -/
def captureLine (context : DispatchContext) (input : DispatchLineInput) :
    Except DispatchError DispatchLineSnapshot := do
  let reference := fun id kind =>
    mapErr (fun _ => DispatchError.invalidSelection) (context.catalog.requireKind id kind)
  let source ← okOr (context.sources.find? fun source => source.group.id = input.group)
    .invalidSelection
  let group := source.group
  mapErr (fun _ => .invalidSelection) group.validate
  refuse (group.revision ≠ input.expectedGroupRevision) .staleRevision
  refuse (input.packs ≠ group.packs) .physicalSeparationRequired
  refuse (group.trace ≠ source.trace.id ∨ group.variant ≠ source.trace.variant.id)
    .invalidSelection
  let variant ← reference group.variant .pack
  let product ← okOr (packProduct variant.value) .invalidSelection
  let location ← reference group.location .location
  let product ← reference product .product
  return {
    group := group.id, groupRevision := group.revision, packs := group.packs
    identification := group.identification, location, product, variant, trace := source.trace }

def capture (context : DispatchContext) (recipient : HubRecordId) (selection : DispatchSelection)
    (observation : SourceProvenance) : Except DispatchError DispatchMaterial := do
  refuse (context.sources.length ≠ selection.lines.length) .invalidSelection
  refuse (¬ (context.sources.map fun source => source.group.id).Nodup) .invalidSelection
  let lines ← selection.lines.mapM (captureLine context)
  let recipient ← mapErr (fun _ => .invalidSelection) (context.catalog.requireKind recipient .party)
  let material := {
    stockRevision := context.stockRevision, catalogRevision := context.catalog.revision
    basis := context.catalog.handlingBasis, recipient, lines, observation }
  validate material
  return material

/-- The selection that would capture the same lines again. -/
def selection (material : DispatchMaterial) : Except DispatchError DispatchSelection :=
  DispatchSelection.new (material.lines.map fun line =>
    { group := line.group, expectedGroupRevision := line.groupRevision, packs := line.packs })

/-- Equal up to the captured revision counters. -/
def SameMaterial (material other : DispatchMaterial) : Prop :=
  material.recipient = other.recipient ∧ material.lines = other.lines ∧
    material.observation = other.observation ∧ material.basis = other.basis

instance (material other : DispatchMaterial) : Decidable (material.SameMaterial other) :=
  inferInstanceAs (Decidable (_ ∧ _))

end DispatchMaterial

/-! ## The paper's history -/

namespace DispatchRecord
variable [Sha256]

/-- One version, given those before it. -/
def checkVersion (record : DispatchRecord) (earlier : List IdentificationVersion)
    (version : IdentificationVersion) : Except DispatchError Unit := do
  version.material.validate
  refuse (version.id = record.id ∨ ∃ other ∈ earlier, other.id = version.id) .invalidHistory
  let ids ← DispatchIdentities.fromOperationBytes version.issued.operation
  refuse (ids.identification ≠ version.id ∨ version.number ≠ earlier.length + 1 ∨
    version.previous ≠ earlier.getLast?.map (·.id) ∨
    version.material.stockRevision.value ≥ version.issued.stockRevision.value ∨
    version.issued.stockRevision.value < record.created.stockRevision.value ∨
    version.issued.stockRevision.value > record.updated.stockRevision.value ∨
    ¬ (version.status = .issued ↔ version.closed = none) ∨
    (earlier.length + 1 < record.versions.length ∧ version.status ≠ .superseded)) .invalidHistory
  refuse (∃ closed ∈ version.closed,
    closed.stockRevision.value ≤ version.issued.stockRevision.value ∨
      closed.stockRevision.value > record.updated.stockRevision.value) .invalidHistory
  refuse (∃ previous ∈ earlier.getLast?, previous.closed ≠ some version.issued) .invalidHistory

/-- One more than the versions, and one more when the last was left unused. -/
def minimumRevision (record : DispatchRecord) : Nat :=
  record.versions.length + 1 +
    if ∃ last ∈ record.versions.getLast?, last.status = .unused then 1 else 0

/-- The draft is valid, and as new as the record. -/
def checkDraft (record : DispatchRecord) : Except DispatchError Unit :=
  match record.draft with
  | some draft => do
    draft.validate
    refuse (draft.stockRevision.value + 1 ≠ record.updated.stockRevision.value) .invalidHistory
  | none => pure ()

/-- The record was last changed by its last version. -/
def checkLast (record : DispatchRecord) : Except DispatchError Unit :=
  match record.versions.getLast? with
  | some last => do
    let expected ← match last.status with
      | .issued => pure last.issued
      | .unused => okOr last.closed .invalidHistory
      | .superseded => throw .invalidHistory
    refuse (record.updated ≠ expected) .invalidHistory
  | none => pure ()

def validate (record : DispatchRecord) : Except DispatchError Unit := do
  refuse (record.versions.length > hubIdentificationVersions ∨
    ¬ (record.draft.isSome = record.versions.isEmpty) ∨ record.created.stockRevision.value < 2)
    .invalidHistory
  let ids ← DispatchIdentities.fromOperationBytes record.created.operation
  refuse (ids.preparation ≠ record.id ∨
    record.created.stockRevision.value > record.updated.stockRevision.value ∨
    (record.revision = .initial ∧ record.created ≠ record.updated) ∨
    record.revision.value < record.minimumRevision ∨
    record.updated.stockRevision.value < record.created.stockRevision.value ∨
    record.updated.stockRevision.value - record.created.stockRevision.value <
      record.revision.value - 1) .invalidHistory
  record.checkDraft
  forPrefix record.checkVersion [] record.versions
  record.checkLast

/-- A version fits a record, after the versions before it. -/
structure Fits (record : DispatchRecord) (earlier : List IdentificationVersion)
    (version : IdentificationVersion) : Prop where
  material : version.material.validate = .ok ()
  id_ne : version.id ≠ record.id
  id_fresh : ∀ other ∈ earlier, other.id ≠ version.id
  id_eq : ∃ ids, DispatchIdentities.fromOperationBytes version.issued.operation = .ok ids ∧
    ids.identification = version.id
  number_eq : version.number = earlier.length + 1
  previous_eq : version.previous = earlier.getLast?.map (·.id)
  captured : version.material.stockRevision.value < version.issued.stockRevision.value
  created_le : record.created.stockRevision.value ≤ version.issued.stockRevision.value
  le_updated : version.issued.stockRevision.value ≤ record.updated.stockRevision.value
  open_iff : version.status = .issued ↔ version.closed = none
  superseded : earlier.length + 1 < record.versions.length → version.status = .superseded
  closed : ∀ closed ∈ version.closed,
    version.issued.stockRevision.value < closed.stockRevision.value ∧
      closed.stockRevision.value ≤ record.updated.stockRevision.value
  linked : ∀ previous ∈ earlier.getLast?, previous.closed = some version.issued

variable {record : DispatchRecord} {u : Unit} {version : IdentificationVersion}

theorem checkVersion_eq_ok {earlier : List IdentificationVersion} :
    record.checkVersion earlier version = .ok u ↔ record.Fits earlier version := by
  simp only [checkVersion, accepted, passed, not_exists, not_and]
  constructor
  · rintro ⟨hmaterial, ⟨hid, hfresh⟩, ids, hids, ⟨hidentification, hnumber, hprevious, hcaptured,
      hcreated, hupdated, hopen, hsuperseded⟩, hclosed, hlinked⟩
    exact ⟨hmaterial, hid, hfresh, ⟨ids, hids, hidentification⟩, hnumber, hprevious, hcaptured,
      hcreated, hupdated, hopen, hsuperseded, hclosed, hlinked⟩
  · rintro ⟨hmaterial, hid, hfresh, ⟨ids, hids, hidentification⟩, hnumber, hprevious, hcaptured,
      hcreated, hupdated, hopen, hsuperseded, hclosed, hlinked⟩
    exact ⟨hmaterial, ⟨hid, hfresh⟩, ids, hids, ⟨hidentification, hnumber, hprevious, hcaptured,
      hcreated, hupdated, hopen, hsuperseded⟩, hclosed, hlinked⟩

/-- What a validated paper is. -/
structure Valid (record : DispatchRecord) : Prop where
  versions_le : record.versions.length ≤ hubIdentificationVersions
  draft_iff : record.draft.isSome = record.versions.isEmpty
  created_ge : 2 ≤ record.created.stockRevision.value
  id_eq : ∃ ids, DispatchIdentities.fromOperationBytes record.created.operation = .ok ids ∧
    ids.preparation = record.id
  created_le : record.created.stockRevision.value ≤ record.updated.stockRevision.value
  unrevised : record.revision = .initial → record.created = record.updated
  minimum : record.minimumRevision ≤ record.revision.value
  advanced : record.revision.value - 1 ≤
    record.updated.stockRevision.value - record.created.stockRevision.value
  draft : ∀ draft ∈ record.draft, draft.validate = .ok () ∧
    draft.stockRevision.value + 1 = record.updated.stockRevision.value
  versions : ∀ pre version post, record.versions = pre ++ version :: post → record.Fits pre version
  last : ∀ last ∈ record.versions.getLast?,
    last.status = .issued ∧ record.updated = last.issued ∨
      last.status = .unused ∧ last.closed = some record.updated

omit [Sha256] in
theorem checkDraft_eq_ok : record.checkDraft = .ok u ↔
    ∀ draft ∈ record.draft, draft.validate = .ok () ∧
      draft.stockRevision.value + 1 = record.updated.stockRevision.value := by
  unfold checkDraft
  cases record.draft <;> simp

omit [Sha256] in
theorem checkLast_eq_ok : record.checkLast = .ok u ↔
    ∀ last ∈ record.versions.getLast?, last.status = .issued ∧ record.updated = last.issued ∨
      last.status = .unused ∧ last.closed = some record.updated := by
  unfold checkLast
  cases record.versions.getLast? with
  | none => simp
  | some last => cases hstatus : last.status <;> simp [hstatus]

theorem validate_eq_ok : record.validate = .ok u ↔ record.Valid := by
  simp only [validate, accepted, passed, not_and, forPrefix_eq_ok, checkVersion_eq_ok,
    List.nil_append, checkDraft_eq_ok, checkLast_eq_ok]
  constructor
  · rintro ⟨⟨hlength, hdraft, hcreated⟩, ids, hids, ⟨hid, hle, hunrevised, hminimum, -, hadvanced⟩,
      hdrafted, hversions, hlast⟩
    exact ⟨hlength, hdraft, hcreated, ⟨ids, hids, hid⟩, hle, hunrevised, hminimum, hadvanced,
      hdrafted, hversions, hlast⟩
  · rintro ⟨hlength, hdraft, hcreated, ⟨ids, hids, hid⟩, hle, hunrevised, hminimum, hadvanced,
      hdrafted, hversions, hlast⟩
    exact ⟨⟨hlength, hdraft, hcreated⟩, ids, hids, ⟨hid, hle, hunrevised, hminimum, hle, hadvanced⟩,
      hdrafted, hversions, hlast⟩

/-- A validated paper has validated versions. -/
theorem material_of_validate (h : record.validate = .ok u) (hversion : version ∈ record.versions) :
    version.material.validate = .ok () := by
  obtain ⟨pre, post, hversions⟩ := List.append_of_mem hversion
  exact ((validate_eq_ok.mp h).versions pre version post hversions).material

end DispatchRecord

end HarvestCircle
