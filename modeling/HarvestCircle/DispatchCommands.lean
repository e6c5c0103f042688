import HarvestCircle.AppendOnly
import HarvestCircle.Dispatch

/-! # What is done with a dispatch paper

A paper is prepared as a draft, which may be revised.  Issuing it makes its first
version.  Later versions replace the last one, and the last one may be marked unused;
then nothing more is done.

`DispatchCommand.plan` works out the next record and validates it as a whole.  What it
works out is said once, by `DispatchRecord.Amends`: the new record is the old one with a
later stamp and one of four changes.
-/
namespace HarvestCircle
open Checked

/-- What is done to a paper. -/
inductive DispatchAction where
  | prepare (recipient : HubRecordId) (lines : DispatchSelection)
  | revise (preparation : HubRecordId) (expectedRevision : HubRevision) (recipient : HubRecordId)
      (lines : DispatchSelection)
  | issue (preparation : HubRecordId) (expectedRevision : HubRevision)
  | replace (preparation : HubRecordId) (expectedRevision : HubRevision) (recipient : HubRecordId)
      (lines : DispatchSelection)
  | markUnused (preparation : HubRecordId) (expectedRevision : HubRevision)
  deriving DecidableEq

/-- The paper an action is for, and the revision it expects. -/
def DispatchAction.target : DispatchAction → Option (HubRecordId × HubRevision)
  | prepare .. => none
  | revise preparation expectedRevision _ _ => some (preparation, expectedRevision)
  | issue preparation expectedRevision => some (preparation, expectedRevision)
  | replace preparation expectedRevision _ _ => some (preparation, expectedRevision)
  | markUnused preparation expectedRevision => some (preparation, expectedRevision)

structure DispatchCommand where
  expectedStockRevision : HubRevision
  expectedCatalogRevision : HubRevision
  action : DispatchAction
  observation : SourceProvenance
  deriving DecidableEq

/-- The paper after the action. -/
structure DispatchPlan where
  stockRevision : HubRevision
  record : DispatchRecord
  deriving DecidableEq, Repr

/-- A version that leaves the state of being issued. -/
def IdentificationVersion.close (version : IdentificationVersion) (status : IdentificationStatus)
    (stamp : DispatchStamp) : IdentificationVersion :=
  { version with status, closed := some stamp }

/-- What an action does to the record, which has its new revision and stamp already. -/
def DispatchAction.amend (action : DispatchAction) (context : DispatchContext)
    (identification : HubRecordId) (stamp : DispatchStamp) (observation : SourceProvenance)
    (record : DispatchRecord) : Except DispatchError DispatchRecord :=
  match action with
  | prepare .. => return record
  | revise _ _ recipient lines => do
    refuse (record.draft = none) .invalidState
    let draft ← DispatchMaterial.capture context recipient lines observation
    return { record with draft := some draft }
  | issue .. => do
    let material ← okOr record.draft .invalidState
    let selection ← material.selection
    let verified ← DispatchMaterial.capture context material.recipient.id selection
      material.observation
    refuse (¬ material.SameMaterial verified) .previewChanged
    return { record with
      draft := none
      versions := record.versions ++ [{
        id := identification, number := 1, previous := none, material, issued := stamp
        status := .issued, closed := none }] }
  | replace _ _ recipient lines => do
    refuse (record.versions.length ≥ hubIdentificationVersions) .capacity
    let previous ← okOr record.versions.getLast? .invalidState
    refuse (previous.status ≠ .issued) .invalidState
    let material ← DispatchMaterial.capture context recipient lines observation
    refuse (material.SameMaterial previous.material) .noMaterialChange
    return { record with
      versions := record.versions.dropLast ++ [previous.close .superseded stamp, {
        id := identification, number := previous.number + 1, previous := some previous.id
        material, issued := stamp, status := .issued, closed := none }] }
  | markUnused .. => do
    let issued ← okOr record.versions.getLast? .invalidState
    refuse (issued.status ≠ .issued) .invalidState
    return { record with versions := record.versions.dropLast ++ [issued.close .unused stamp] }

namespace DispatchCommand
variable [Sha256]

/-- The record that is to be validated. -/
def propose (command : DispatchCommand) (context : DispatchContext)
    (identities : DispatchIdentities) (actor : PublicKey) (now : UnixTimestamp) :
    Except DispatchError DispatchPlan := do
  refuse (command.expectedStockRevision ≠ context.stockRevision ∨
    command.expectedCatalogRevision ≠ context.catalog.revision) .staleRevision
  let derived ← DispatchIdentities.fromOperationBytes identities.operation
  refuse (identities ≠ derived) .invalidSelection
  let stockRevision ← mapErr (fun _ => .revisionExhausted) context.stockRevision.next
  let stamp : DispatchStamp := {
    operation := identities.operation, stockRevision, actor, recordedAt := now
    observation := command.observation }
  let record ← (match command.action, context.current with
    | .prepare recipient lines, none => do
      let draft ← DispatchMaterial.capture context recipient lines command.observation
      return {
        id := identities.preparation, hub := context.hub, revision := .initial, created := stamp
        updated := stamp, draft := some draft, versions := [] }
    | action, some current => do
      current.validate
      refuse (action.target ≠ some (current.id, current.revision) ∨ current.hub ≠ context.hub)
        .staleRevision
      let revision ← mapErr (fun _ => .revisionExhausted) current.revision.next
      return { current with revision, updated := stamp }
    | _, none => throw .invalidState)
  let record ← command.action.amend context identities.identification stamp command.observation
    record
  return { stockRevision, record }

def plan (command : DispatchCommand) (context : DispatchContext) (identities : DispatchIdentities)
    (actor : PublicKey) (now : UnixTimestamp) : Except DispatchError DispatchPlan := do
  let plan ← command.propose context identities actor now
  plan.record.validate
  return plan

end DispatchCommand

/-! ## What a plan proposes -/

variable {context : DispatchContext} {observation : SourceProvenance}

/-- What is captured is valid, as of the revision of the context. -/
theorem DispatchMaterial.capture_spec {recipient : HubRecordId} {selection : DispatchSelection}
    {material : DispatchMaterial}
    (h : capture context recipient selection observation = .ok material) :
    material.validate = .ok () ∧ material.stockRevision = context.stockRevision := by
  simp only [capture, accepted] at h
  obtain ⟨-, -, lines, -, recipient, -, hvalid, rfl⟩ := h
  exact ⟨hvalid, rfl⟩

/-- One of the four changes to a paper. -/
inductive DispatchRecord.Amends (context : DispatchContext) (identification : HubRecordId)
    (stamp : DispatchStamp) (record : DispatchRecord) : DispatchRecord → Prop
  | revise {draft draft' : DispatchMaterial} (draft_eq : record.draft = some draft)
      (valid : draft'.validate = .ok ()) (current : draft'.stockRevision = context.stockRevision) :
      Amends context identification stamp record { record with draft := some draft' }
  | issue {material : DispatchMaterial} (draft_eq : record.draft = some material) :
      Amends context identification stamp record { record with
        draft := none
        versions := record.versions ++
          [⟨identification, 1, none, material, stamp, .issued, none⟩] }
  | replace {earlier : List IdentificationVersion} {previous : IdentificationVersion}
      {material : DispatchMaterial} (versions_eq : record.versions = earlier ++ [previous])
      (issued : previous.status = .issued)
      (room : record.versions.length < hubIdentificationVersions)
      (valid : material.validate = .ok ())
      (current : material.stockRevision = context.stockRevision)
      (changed : ¬ material.SameMaterial previous.material) :
      Amends context identification stamp record { record with
        versions := earlier ++ [previous.close .superseded stamp,
          ⟨identification, previous.number + 1, some previous.id, material, stamp, .issued, none⟩] }
  | markUnused {earlier : List IdentificationVersion} {previous : IdentificationVersion}
      (versions_eq : record.versions = earlier ++ [previous]) (issued : previous.status = .issued) :
      Amends context identification stamp record { record with
        versions := earlier ++ [previous.close .unused stamp] }

theorem DispatchAction.amend_eq_ok {action : DispatchAction} {identification : HubRecordId}
    {stamp : DispatchStamp} {record record' : DispatchRecord} (htarget : action.target ≠ none)
    (h : action.amend context identification stamp observation record = .ok record') :
    record.Amends context identification stamp record' := by
  cases action with
  | prepare recipient lines => exact absurd rfl htarget
  | revise preparation expectedRevision recipient lines =>
    simp only [amend, accepted] at h
    obtain ⟨hdraft, draft', hcapture, rfl⟩ := h
    obtain ⟨draft, hdraft⟩ := Option.ne_none_iff_exists'.mp hdraft
    obtain ⟨hvalid, hcurrent⟩ := DispatchMaterial.capture_spec hcapture
    exact .revise hdraft hvalid hcurrent
  | issue preparation expectedRevision =>
    simp only [amend, accepted] at h
    obtain ⟨material, hdraft, selection, -, verified, -, -, rfl⟩ := h
    exact .issue hdraft
  | replace preparation expectedRevision recipient lines =>
    simp only [amend, accepted, passed] at h
    obtain ⟨hroom, previous, hlast, hissued, material, hcapture, hchanged, rfl⟩ := h
    obtain ⟨hvalid, hcurrent⟩ := DispatchMaterial.capture_spec hcapture
    obtain ⟨earlier, hversions⟩ := List.getLast?_eq_some_iff.mp hlast
    rw [hversions, List.dropLast_concat]
    exact .replace hversions hissued hroom hvalid hcurrent hchanged
  | markUnused preparation expectedRevision =>
    simp only [amend, accepted, passed] at h
    obtain ⟨previous, hlast, hissued, rfl⟩ := h
    obtain ⟨earlier, hversions⟩ := List.getLast?_eq_some_iff.mp hlast
    rw [hversions, List.dropLast_concat]
    exact .markUnused hversions hissued

namespace DispatchCommand
variable [Sha256] {command : DispatchCommand} {context : DispatchContext}
  {identities : DispatchIdentities} {actor : PublicKey} {now : UnixTimestamp}
  {planned : DispatchPlan}

/-- The stamp of a proposal: of its own operation, at the next revision. -/
structure Stamps (context : DispatchContext) (identities : DispatchIdentities)
    (stamp : DispatchStamp) : Prop where
  derived : DispatchIdentities.fromOperationBytes identities.operation = .ok identities
  operation_eq : stamp.operation = identities.operation
  next : stamp.stockRevision.value = context.stockRevision.value + 1

/-- With no paper yet, one is prepared. -/
theorem propose_none (hcurrent : context.current = none)
    (h : command.propose context identities actor now = .ok planned) :
    ∃ stamp draft, Stamps context identities stamp ∧ draft.validate = .ok () ∧
      draft.stockRevision = context.stockRevision ∧
      planned.record =
        ⟨identities.preparation, context.hub, .initial, stamp, stamp, some draft, []⟩ := by
  simp only [propose, hcurrent, accepted, HubRevision.next_eq_ok, passed] at h
  obtain ⟨-, derived, hderived, rfl, stockRevision, hnext, record, hrecord, record', hamend, rfl⟩ :=
    h
  cases haction : command.action with
  | prepare recipient lines =>
    simp only [haction, accepted] at hrecord
    obtain ⟨draft, hcapture, rfl⟩ := hrecord
    obtain ⟨hvalid, hstock⟩ := DispatchMaterial.capture_spec hcapture
    rw [haction] at hamend
    cases hamend
    exact ⟨_, draft, ⟨hderived, rfl, hnext⟩, hvalid, hstock, rfl⟩
  | revise => simp [haction] at hrecord
  | issue => simp [haction] at hrecord
  | replace => simp [haction] at hrecord
  | markUnused => simp [haction] at hrecord

/-- A paper there is gets the next revision and a new stamp, and is amended. -/
theorem propose_some {current : DispatchRecord} (hcurrent : context.current = some current)
    (h : command.propose context identities actor now = .ok planned) :
    ∃ stamp revision, Stamps context identities stamp ∧ current.validate = .ok () ∧
      revision.value = current.revision.value + 1 ∧
      { current with revision, updated := stamp }.Amends context identities.identification stamp
        planned.record := by
  simp only [propose, hcurrent, accepted, HubRevision.next_eq_ok, passed] at h
  obtain ⟨-, derived, hderived, rfl, stockRevision, hnext, record,
    ⟨hvalid, ⟨htarget, -⟩, revision, hrevision, rfl⟩, record', hamend, rfl⟩ := h
  have hamends := DispatchAction.amend_eq_ok (by simp [htarget]) hamend
  exact ⟨_, revision, ⟨hderived, rfl, hnext⟩, hvalid, hrevision, hamends⟩

end DispatchCommand

end HarvestCircle
