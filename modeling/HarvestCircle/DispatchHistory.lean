import Mathlib.Logic.Relation
import HarvestCircle.Departure
import HarvestCircle.DispatchCommands

/-! # Issued papers are never rewritten

A paper is worked on by one call after the other.  A call that is refused leaves the
record as it is; one that is accepted replaces it by a record that was validated.

The validation is a safeguard that is never needed: every record a call proposes is valid
(`DispatchRecord.Amends.valid`).  And it says nothing of the record before.  That no
version is rewritten, and that its status changes once, follows from the changes
themselves (`DispatchRecord.Amends.grows`).
-/
namespace HarvestCircle
open Checked AppendOnly

/-! ## One call -/

/-- What may become of an issued version: it is closed, once. -/
inductive IdentificationVersion.Becomes (version : IdentificationVersion) :
    IdentificationVersion → Prop
  | kept : Becomes version version
  | closed {status : IdentificationStatus} {stamp : DispatchStamp}
      (issued : version.status = .issued)
      (closing : status ≠ .issued) : Becomes version (version.close status stamp)

theorem IdentificationVersion.Becomes.trans (a b c : IdentificationVersion) (h : a.Becomes b)
    (h' : b.Becomes c) : a.Becomes c := by
  cases h with
  | kept => exact h'
  | closed issued closing =>
    cases h' with
    | kept => exact .closed issued closing
    | closed issued' => exact absurd issued' closing

namespace DispatchRecord
variable {context : DispatchContext} {identification : HubRecordId} {stamp : DispatchStamp}
  {record record' : DispatchRecord}

section
variable (h : record.Amends context identification stamp record')
include h

/-- No version is rewritten. -/
theorem Amends.grows : Grows IdentificationVersion.Becomes record.versions record'.versions := by
  cases h with
  | revise => exact grows_refl (fun _ => .kept) _
  | issue => exact grows_append (fun _ => .kept) _ _
  | replace versions_eq issued =>
    rw [versions_eq]
    exact grows_last (fun _ => .kept) (.closed issued (by decide)) _ _
  | markUnused versions_eq issued =>
    rw [versions_eq]
    exact grows_last (fun _ => .kept) (.closed issued (by decide)) _ _

theorem Amends.created_eq : record'.created = record.created := by
  cases h <;> rfl

/-- Every version was issued before, or is now. -/
theorem Amends.issued {version : IdentificationVersion} (hversion : version ∈ record'.versions) :
    version.issued = stamp ∨ ∃ old ∈ record.versions, version.issued = old.issued := by
  cases h with
  | revise => exact .inr ⟨version, hversion, rfl⟩
  | issue =>
    rcases List.mem_append.mp hversion with hold | hnew
    · exact .inr ⟨version, hold, rfl⟩
    · obtain rfl := List.mem_singleton.mp hnew
      exact .inl rfl
  | @replace earlier previous material versions_eq =>
    rw [versions_eq]
    simp only [List.mem_append, List.mem_cons, List.not_mem_nil, or_false] at hversion
    rcases hversion with hold | rfl | rfl
    · exact .inr ⟨version, by simp [hold], rfl⟩
    · exact .inr ⟨previous, by simp, rfl⟩
    · exact .inl rfl
  | @markUnused earlier previous versions_eq =>
    rw [versions_eq]
    simp only [List.mem_append, List.mem_cons, List.not_mem_nil, or_false] at hversion
    rcases hversion with hold | rfl
    · exact .inr ⟨version, by simp [hold], rfl⟩
    · exact .inr ⟨previous, by simp, rfl⟩

end

/-- The version does not say the same as the last one before it. -/
def Differs (earlier : List IdentificationVersion) (version : IdentificationVersion) : Prop :=
  ∀ previous ∈ earlier.getLast?, ¬ version.material.SameMaterial previous.material

/-- No version says the same as the one before it. -/
def Varies (record : DispatchRecord) : Prop :=
  ∀ pre version post, record.versions = pre ++ version :: post → Differs pre version

theorem Amends.varies (h : record.Amends context identification stamp record')
    (hvaries : record.Varies) (hdraft : ∀ draft, record.draft = some draft → record.versions = []) :
    record'.Varies := by
  cases h with
  | revise => exact hvaries
  | issue draft_eq =>
    refine forall_split_concat.mpr ⟨hvaries, ?_⟩
    simp [Differs, hdraft _ draft_eq]
  | @replace earlier previous material versions_eq issued room valid captured changed =>
    unfold Varies at hvaries
    rw [versions_eq] at hvaries
    obtain ⟨hearlier, hprevious⟩ := forall_split_concat.mp hvaries
    unfold Varies
    rw [List.append_cons]
    refine forall_split_concat.mpr ⟨forall_split_concat.mpr ⟨hearlier, hprevious⟩, ?_⟩
    simpa [Differs, IdentificationVersion.close] using changed
  | @markUnused earlier previous versions_eq issued =>
    unfold Varies at hvaries
    rw [versions_eq] at hvaries
    obtain ⟨hearlier, hprevious⟩ := forall_split_concat.mp hvaries
    exact forall_split_concat.mpr ⟨hearlier, hprevious⟩

section Valid
variable [Sha256]

/-- The same paper, seen later. -/
structure Continues (record record' : DispatchRecord) : Prop where
  id_eq : record'.id = record.id
  created_eq : record'.created = record.created
  updated_le : record.updated.stockRevision.value ≤ record'.updated.stockRevision.value

variable {earlier : List IdentificationVersion} {version : IdentificationVersion}
  {identities : DispatchIdentities}

/-- A version fits the paper later on, if it is not left issued before the last. -/
theorem Fits.later (h : record.Fits earlier version) (hcontinues : record.Continues record')
    (hlast : earlier.length + 1 < record'.versions.length → version.status = .superseded) :
    record'.Fits earlier version :=
  { h with
    id_ne := hcontinues.id_eq ▸ h.id_ne
    created_le := hcontinues.created_eq ▸ h.created_le
    le_updated := h.le_updated.trans hcontinues.updated_le
    superseded := hlast
    closed := fun closed hclosed => ⟨(h.closed closed hclosed).1,
      (h.closed closed hclosed).2.trans hcontinues.updated_le⟩ }

/-- A version that is closed by a later stamp fits the paper then. -/
theorem Fits.close {status : IdentificationStatus} (h : record.Fits earlier version)
    (hcontinues : record.Continues record') (hclosing : status ≠ .issued)
    (hlater : record.updated.stockRevision.value < stamp.stockRevision.value)
    (hstamp : stamp.stockRevision.value ≤ record'.updated.stockRevision.value)
    (hlast : earlier.length + 1 < record'.versions.length → status = .superseded) :
    record'.Fits earlier (version.close status stamp) :=
  { h with
    id_ne := hcontinues.id_eq ▸ h.id_ne
    created_le := hcontinues.created_eq ▸ h.created_le
    le_updated := h.le_updated.trans hcontinues.updated_le
    open_iff := iff_of_false hclosing (Option.some_ne_none stamp)
    superseded := hlast
    closed := by
      rintro closed ⟨⟩
      exact ⟨Nat.lt_of_le_of_lt h.le_updated hlater, hstamp⟩ }

/-- The versions before the last still fit, whatever becomes of the last. -/
theorem Valid.earlier_fit (h : record.Valid) (hcontinues : record.Continues record')
    {previous : IdentificationVersion} (hversions : record.versions = earlier ++ [previous]) :
    ∀ pre version post, earlier = pre ++ version :: post → record'.Fits pre version := by
  intro pre version post hsplit
  have hfits := h.versions pre version (post ++ [previous]) (by simp [hversions, hsplit])
  refine hfits.later hcontinues fun _ => hfits.superseded ?_
  simp [hversions, hsplit]

omit [Sha256] in
theorem minimumRevision_of_issued {last : IdentificationVersion}
    (hversions : record.versions = earlier ++ [last]) (hissued : last.status = .issued) :
    record.minimumRevision = earlier.length + 2 := by
  simp [minimumRevision, hversions, hissued]

omit [Sha256] in
theorem minimumRevision_le : record.minimumRevision ≤ record.versions.length + 2 := by
  unfold minimumRevision
  split <;> omega

variable {current : DispatchRecord} {revision : HubRevision}

/-- What does not depend on the change: the paper was created as before and has gone on. -/
theorem Valid.amended (h : current.Valid) (hrevision : revision.value = current.revision.value + 1)
    (hlater : current.updated.stockRevision.value < stamp.stockRevision.value)
    (hcontinues : record'.id = current.id ∧ record'.created = current.created ∧
      record'.updated = stamp ∧ record'.revision = revision)
    (hlength : record'.versions.length ≤ hubIdentificationVersions)
    (hdraft : record'.draft.isSome = record'.versions.isEmpty)
    (hminimum : record'.minimumRevision ≤ current.revision.value + 1)
    (hdrafted : ∀ draft ∈ record'.draft, draft.validate = .ok () ∧
      draft.stockRevision.value + 1 = stamp.stockRevision.value)
    (hversions : ∀ pre version post, record'.versions = pre ++ version :: post →
      record'.Fits pre version)
    (hlast : ∀ last ∈ record'.versions.getLast?, last.status = .issued ∧ stamp = last.issued ∨
      last.status = .unused ∧ last.closed = some stamp) : record'.Valid := by
  obtain ⟨hid, hcreated, rfl, rfl⟩ := hcontinues
  have hcreatedLe := h.created_le
  have hadvanced := h.advanced
  have hnonzero := current.revision.nonzero
  exact {
    versions_le := hlength
    draft_iff := hdraft
    created_ge := hcreated ▸ h.created_ge
    id_eq := hcreated ▸ hid ▸ h.id_eq
    created_le := by
      rw [hcreated]
      omega
    unrevised := fun hinitial => by
      rw [hinitial] at hrevision
      have : HubRevision.initial.value = 1 := rfl
      omega
    minimum := by omega
    advanced := by
      rw [hcreated]
      omega
    draft := hdrafted
    versions := hversions
    last := hlast }

/-- The version a call has just issued, as the last one. -/
theorem fits_issued {material : DispatchMaterial} {number : Nat} {previous : Option HubRecordId}
    (hstamps : DispatchCommand.Stamps context identities stamp)
    (hlast : record'.versions.length = earlier.length + 1) (hupdated : record'.updated = stamp)
    (hcreated : record'.created.stockRevision.value ≤ stamp.stockRevision.value)
    (hid : identities.identification ≠ record'.id)
    (hfresh : ∀ other ∈ earlier, other.id ≠ identities.identification)
    (hmaterial : material.validate = .ok ())
    (hcaptured : material.stockRevision.value ≤ context.stockRevision.value)
    (hnumber : number = earlier.length + 1) (hprevious : previous = earlier.getLast?.map (·.id))
    (hlinked : ∀ previous ∈ earlier.getLast?, previous.closed = some stamp) :
    record'.Fits earlier
      ⟨identities.identification, number, previous, material, stamp, .issued, none⟩ where
  material := hmaterial
  id_ne := hid
  id_fresh := hfresh
  id_eq := ⟨identities, hstamps.operation_eq ▸ hstamps.derived, rfl⟩
  number_eq := hnumber
  previous_eq := hprevious
  captured := by
    show material.stockRevision.value < stamp.stockRevision.value
    have := hstamps.next
    omega
  created_le := hcreated
  le_updated := by rw [hupdated]
  open_iff := iff_of_true rfl rfl
  superseded := fun hmore => absurd hmore (by omega)
  closed := by simp
  linked := hlinked

/-- While there is a draft, there is no version. -/
theorem Valid.versions_eq_nil (h : current.Valid) {draft : DispatchMaterial}
    (hdraft : current.draft = some draft) : current.versions = [] := by
  have hiff := h.draft_iff
  rw [hdraft] at hiff
  simpa using hiff.symm

/-- **Every proposed record is valid.**  The identity of a new version has to be new; all else
follows from the checks that come before. -/
theorem Amends.valid (h : current.Valid) (hrevision : revision.value = current.revision.value + 1)
    (hstamps : DispatchCommand.Stamps context identities stamp)
    (hcontext : current.updated.stockRevision.value ≤ context.stockRevision.value)
    (hid : identities.identification ≠ current.id)
    (hfresh : ∀ version ∈ current.versions, version.id ≠ identities.identification)
    (hamends : { current with revision, updated := stamp }.Amends context identities.identification
      stamp record') : record'.Valid := by
  have hnext := hstamps.next
  have hlater : current.updated.stockRevision.value < stamp.stockRevision.value := by omega
  have hcreated : current.created.stockRevision.value ≤ stamp.stockRevision.value :=
    h.created_le.trans hlater.le
  have hminimum := h.minimum
  cases hamends with
  | @revise draft draft' draft_eq valid captured =>
    have hnone := h.versions_eq_nil draft_eq
    refine h.amended hrevision hlater ⟨rfl, rfl, rfl, rfl⟩ h.versions_le ?_ ?_ ?_ ?_ ?_
    · simp [hnone]
    · simp [minimumRevision, hnone]
    · rintro _ ⟨⟩
      exact ⟨valid, by rw [captured, hnext]⟩
    · simp [hnone]
    · simp [hnone]
  | @issue material draft_eq =>
    have hnone := h.versions_eq_nil draft_eq
    obtain ⟨hmaterial, hcaptured⟩ := h.draft material draft_eq
    refine h.amended hrevision hlater ⟨rfl, rfl, rfl, rfl⟩ ?_ ?_ ?_ ?_ ?_ ?_
    · simp [hnone, hubIdentificationVersions]
    · simp
    · rw [minimumRevision_of_issued rfl rfl]
      have := current.revision.nonzero
      simp [hnone]
      omega
    · simp
    · refine forall_split_concat.mpr ⟨by simp [hnone], ?_⟩
      exact fits_issued hstamps (by simp) rfl hcreated hid hfresh hmaterial (by omega)
        (by simp [hnone]) (by simp [hnone]) (by simp [hnone])
    · simp
  | @replace earlier previous material versions_eq issued room valid captured changed =>
    dsimp only at versions_eq room
    have hprevious := h.versions earlier previous [] versions_eq
    rw [minimumRevision_of_issued versions_eq issued] at hminimum
    have hdraft : current.draft.isSome = false := by simp [h.draft_iff, versions_eq]
    have hlength :
        earlier.length + 1 < hubIdentificationVersions := by simpa [versions_eq] using room
    have hversions : earlier ++ [previous.close .superseded stamp, ⟨identities.identification,
        previous.number + 1, some previous.id, material, stamp, .issued, none⟩] =
        (earlier ++ [previous.close .superseded stamp]) ++ [⟨identities.identification,
          previous.number + 1, some previous.id, material, stamp, .issued, none⟩] := by simp
    refine h.amended hrevision hlater ⟨rfl, rfl, rfl, rfl⟩ ?_ ?_ ?_ ?_ ?_ ?_
    · simp
      omega
    · rw [hdraft]
      simp
    · rw [minimumRevision_of_issued hversions rfl]
      simp
      omega
    · intro draft hmem
      simp [show current.draft = some draft from hmem] at hdraft
    · dsimp only
      rw [hversions]
      refine forall_split_concat.mpr ⟨forall_split_concat.mpr ⟨?_, ?_⟩, ?_⟩
      · exact h.earlier_fit (by exact ⟨rfl, rfl, hlater.le⟩) versions_eq
      · exact hprevious.close (by exact ⟨rfl, rfl, hlater.le⟩) (by decide) hlater le_rfl fun _ =>
          rfl
      · refine fits_issued hstamps (by simp) rfl hcreated hid ?_ valid (by rw [captured])
          (by simp [hprevious.number_eq]) (by simp [IdentificationVersion.close])
          (by simp [IdentificationVersion.close])
        intro other hother
        rcases List.mem_append.mp hother with hold | hclosed
        · exact hfresh other (by simp [versions_eq, hold])
        · obtain rfl := List.mem_singleton.mp hclosed
          exact hfresh previous (by simp [versions_eq])
    · simp
  | @markUnused earlier previous versions_eq issued =>
    dsimp only at versions_eq
    have hprevious := h.versions earlier previous [] versions_eq
    rw [minimumRevision_of_issued versions_eq issued] at hminimum
    have hdraft : current.draft.isSome = false := by simp [h.draft_iff, versions_eq]
    have hlength : earlier.length + 1 ≤ hubIdentificationVersions := by
      simpa [versions_eq] using h.versions_le
    refine h.amended hrevision hlater ⟨rfl, rfl, rfl, rfl⟩ ?_ ?_ ?_ ?_ ?_ ?_
    · simpa using hlength
    · rw [hdraft]
      simp
    · refine minimumRevision_le.trans ?_
      simp
      omega
    · intro draft hmem
      simp [show current.draft = some draft from hmem] at hdraft
    · refine forall_split_concat.mpr ⟨h.earlier_fit (by exact ⟨rfl, rfl, hlater.le⟩) versions_eq,
        ?_⟩
      exact hprevious.close (by exact ⟨rfl, rfl, hlater.le⟩) (by decide) hlater le_rfl
        fun hmore => by
        simp at hmore
    · simp [IdentificationVersion.close]

end Valid

end DispatchRecord

/-! ## Call after call -/

/-- A paper and the operations that were called on it so far. -/
structure DispatchDesk where
  record : DispatchRecord
  operations : List HubRecordId

namespace DispatchDesk
variable [Sha256]

/-- A call that is accepted replaces the record; one that is refused leaves it. -/
def after (desk : DispatchDesk) (operation : HubRecordId)
    (result : Except DispatchError DispatchPlan) : DispatchDesk where
  record := match result with
    | .ok plan => plan.record
    | .error _ => desk.record
  operations := operation :: desk.operations

inductive Step (desk : DispatchDesk) : DispatchDesk → Prop
  | call (command : DispatchCommand) {context : DispatchContext} {identities : DispatchIdentities}
      (actor : PublicKey) (now : UnixTimestamp) (current : context.current = some desk.record)
      (later : desk.record.updated.stockRevision.value ≤ context.stockRevision.value)
      (fresh : identities.operation ∉ desk.operations) :
      Step desk (desk.after identities.operation (command.plan context identities actor now))

theorem Step.accepted {desk : DispatchDesk} {command : DispatchCommand}
    {context : DispatchContext} {identities : DispatchIdentities} {actor : PublicKey}
    {now : UnixTimestamp} {planned : DispatchPlan}
    (hplan : command.plan context identities actor now = .ok planned)
    (current : context.current = some desk.record)
    (later : desk.record.updated.stockRevision.value ≤ context.stockRevision.value)
    (fresh : identities.operation ∉ desk.operations) :
    Step desk ⟨planned.record, identities.operation :: desk.operations⟩ := by
  have hcall := Step.call command actor now current later fresh
  rwa [hplan] at hcall

/-- A desk as it is after the paper was prepared. -/
inductive Prepared : DispatchDesk → Prop
  | prepare {command : DispatchCommand} {context : DispatchContext}
      {identities : DispatchIdentities} {actor : PublicKey} {now : UnixTimestamp}
      {planned : DispatchPlan} (current : context.current = none)
      (plan : command.plan context identities actor now = .ok planned) :
      Prepared ⟨planned.record, [identities.operation]⟩

/-- Derived identities are distinct, as far as the operations go that were called. -/
def DistinctIdentities (operations : List HubRecordId) : Prop :=
  ∀ a ∈ operations, ∀ b ∈ operations, ∀ ids ids',
    DispatchIdentities.fromOperationBytes a = .ok ids →
    DispatchIdentities.fromOperationBytes b = .ok ids' →
    (ids.identification = ids'.identification → a = b) ∧ ids.identification ≠ ids'.preparation

theorem distinctIdentities_of_derived {derived : List DispatchIdentities}
    (hderived : ∀ ids ∈ derived, DispatchIdentities.fromOperationBytes ids.operation = .ok ids)
    (hdistinct : ∀ ids ∈ derived, ∀ ids' ∈ derived,
      (ids.identification = ids'.identification → ids.operation = ids'.operation) ∧
        ids.identification ≠ ids'.preparation) :
    DistinctIdentities (derived.map (·.operation)) := by
  intro a ha b hb ids ids' hids hids'
  obtain ⟨known, hknown, rfl⟩ := List.mem_map.mp ha
  obtain ⟨known', hknown', rfl⟩ := List.mem_map.mp hb
  obtain rfl := Except.ok.inj ((hderived known hknown).symm.trans hids)
  obtain rfl := Except.ok.inj ((hderived known' hknown').symm.trans hids')
  exact hdistinct _ hknown _ hknown'

theorem DistinctIdentities.mono {operations operations' : List HubRecordId}
    (h : DistinctIdentities operations') (hsubset : operations ⊆ operations') :
    DistinctIdentities operations :=
  fun a ha b hb => h a (hsubset ha) b (hsubset hb)

/-- What holds of a desk: its paper is valid, was made by the operations called, and varies. -/
structure Sound (desk : DispatchDesk) : Prop where
  valid : desk.record.Valid
  created_mem : desk.record.created.operation ∈ desk.operations
  issued_mem : ∀ version ∈ desk.record.versions, version.issued.operation ∈ desk.operations
  varies : desk.record.Varies

variable {desk desk' : DispatchDesk} {command : DispatchCommand} {context : DispatchContext}
  {identities : DispatchIdentities} {actor : PublicKey} {now : UnixTimestamp}
  {planned : DispatchPlan}

/-- **What a call proposes is valid**, and the desk it leads to is as good as before. -/
theorem Sound.propose (h : desk.Sound)
    (hdistinct : DistinctIdentities (identities.operation :: desk.operations))
    (hcurrent : context.current = some desk.record)
    (hlater : desk.record.updated.stockRevision.value ≤ context.stockRevision.value)
    (hfresh : identities.operation ∉ desk.operations)
    (hpropose : command.propose context identities actor now = .ok planned) :
    Sound ⟨planned.record, identities.operation :: desk.operations⟩ ∧
      Grows IdentificationVersion.Becomes desk.record.versions planned.record.versions := by
  obtain ⟨stamp, revision, hstamps, -, hrevision, hamends⟩ :=
    DispatchCommand.propose_some hcurrent hpropose
  have hmine := hstamps.derived
  have hid : identities.identification ≠ desk.record.id := by
    obtain ⟨ids, hids, heq⟩ := h.valid.id_eq
    exact heq ▸ (hdistinct _ List.mem_cons_self _ (List.mem_cons_of_mem _ h.created_mem) _ _ hmine
      hids).2
  have hversions : ∀ version ∈ desk.record.versions, version.id ≠ identities.identification := by
    intro version hversion heq
    obtain ⟨pre, post, hsplit⟩ := List.append_of_mem hversion
    obtain ⟨ids, hids, hidentification⟩ := (h.valid.versions pre version post hsplit).id_eq
    have hissued := h.issued_mem version hversion
    have hsame := (hdistinct _ List.mem_cons_self _ (List.mem_cons_of_mem _ hissued) _ _ hmine
      hids).1 (heq.symm.trans hidentification.symm)
    exact hfresh (hsame ▸ hissued)
  refine ⟨?_, hamends.grows⟩
  exact {
    valid := hamends.valid h.valid hrevision hstamps hlater hid hversions
    created_mem := by
      have hcreated : planned.record.created = desk.record.created := hamends.created_eq
      exact hcreated ▸ List.mem_cons_of_mem _ h.created_mem
    issued_mem := by
      intro version hversion
      rcases hamends.issued hversion with hnew | ⟨old, hold, hissued⟩
      · rw [hnew, hstamps.operation_eq]
        exact List.mem_cons_self
      · exact hissued ▸ List.mem_cons_of_mem _ (h.issued_mem old hold)
    varies := hamends.varies h.varies fun draft hdraft => h.valid.versions_eq_nil hdraft }

theorem plan_eq_ok : command.plan context identities actor now = .ok planned ↔
    command.propose context identities actor now = .ok planned ∧
      planned.record.validate = .ok () := by
  simp only [DispatchCommand.plan, accepted]
  constructor
  · rintro ⟨plan, hpropose, hvalid, rfl⟩
    exact ⟨hpropose, hvalid⟩
  · rintro ⟨hpropose, hvalid⟩
    exact ⟨planned, hpropose, hvalid, rfl⟩

/-- A prepared paper is a draft. -/
theorem valid_of_propose_none (hcurrent : context.current = none)
    (h : command.propose context identities actor now = .ok planned) :
    planned.record.Valid ∧ planned.record.versions = [] ∧
      planned.record.created.operation = identities.operation := by
  obtain ⟨stamp, draft, hstamps, hvalid, hstock, hrecord⟩ := DispatchCommand.propose_none hcurrent h
  have hnext := hstamps.next
  have hnonzero := context.stockRevision.nonzero
  rw [hrecord]
  refine ⟨?_, rfl, hstamps.operation_eq⟩
  exact {
    versions_le := Nat.zero_le _
    draft_iff := rfl
    created_ge := by
      show 2 ≤ stamp.stockRevision.value
      omega
    id_eq := ⟨identities, hstamps.operation_eq ▸ hstamps.derived, rfl⟩
    created_le := le_rfl
    unrevised := fun _ => rfl
    minimum := by simp [DispatchRecord.minimumRevision, HubRevision.initial]
    advanced := by simp [HubRevision.initial]
    draft := by
      rintro _ ⟨⟩
      exact ⟨hvalid, by rw [hstock, hnext]⟩
    versions := by simp
    last := by simp }

theorem Prepared.sound (h : Prepared desk) : desk.Sound := by
  cases h with
  | prepare current plan =>
    obtain ⟨hvalid, hversions, hcreated⟩ := valid_of_propose_none current (plan_eq_ok.mp plan).1
    exact ⟨hvalid, by simp [hcreated], by simp [hversions], by simp [DispatchRecord.Varies,
      hversions]⟩

/-- One call, whether it is accepted or not. -/
theorem Sound.step (h : desk.Sound) (hstep : Step desk desk')
    (hdistinct : DistinctIdentities desk'.operations) :
    desk'.Sound ∧
      Grows IdentificationVersion.Becomes desk.record.versions desk'.record.versions := by
  cases hstep with
  | @call command context identities actor now current later fresh =>
    cases hplan : command.plan context identities actor now with
    | ok planned =>
      rw [hplan] at hdistinct
      exact h.propose hdistinct current later fresh (plan_eq_ok.mp hplan).1
    | error e =>
      refine ⟨?_, grows_refl (fun _ => .kept) _⟩
      exact ⟨h.valid, List.mem_cons_of_mem _ h.created_mem,
        fun version hversion => List.mem_cons_of_mem _ (h.issued_mem version hversion), h.varies⟩

theorem Step.operations_subset (h : Step desk desk') : desk.operations ⊆ desk'.operations := by
  cases h with
  | call => exact List.subset_cons_self _ _

theorem operations_subset_of_run (h : Relation.ReflTransGen Step desk desk') :
    desk.operations ⊆ desk'.operations := by
  induction h with
  | refl => exact List.Subset.refl _
  | tail _ hstep ih => exact List.Subset.trans ih hstep.operations_subset

/-- Any number of calls. -/
theorem Sound.run (h : desk.Sound) (hrun : Relation.ReflTransGen Step desk desk')
    (hdistinct : DistinctIdentities desk'.operations) :
    desk'.Sound ∧
      Grows IdentificationVersion.Becomes desk.record.versions desk'.record.versions := by
  induction hrun with
  | refl => exact ⟨h, grows_refl (fun _ => .kept) _⟩
  | tail _ hstep ih =>
    obtain ⟨hsound, hgrows⟩ := ih (hdistinct.mono hstep.operations_subset)
    obtain ⟨hsound', hgrows'⟩ := hsound.step hstep hdistinct
    exact ⟨hsound', hgrows.trans IdentificationVersion.Becomes.trans hgrows'⟩

/-- What the record of a paper looks like: versions with the numbers one, two and so on, each
linked to the one before it, which it superseded and from which it differs; the last one issued
or unused; and a draft as long as there is no version. -/
structure Orderly (record : DispatchRecord) : Prop where
  numbered : ∀ (i : Nat) version, record.versions[i]? = some version → version.number = i + 1
  first : ∀ version ∈ record.versions.head?, version.previous = none
  linked : ∀ (i : Nat) version next, record.versions[i]? = some version →
    record.versions[i + 1]? = some next →
    next.previous = some version.id ∧ version.status = .superseded ∧
      version.closed = some next.issued ∧ ¬ next.material.SameMaterial version.material
  last : ∀ last ∈ record.versions.getLast?, last.status = .issued ∨ last.status = .unused
  drafted : record.draft.isSome ↔ record.versions = []

theorem Sound.orderly (h : desk.Sound) : Orderly desk.record := by
  have hsplit : ∀ {i : Nat} {version}, desk.record.versions[i]? = some version →
      desk.record.versions = desk.record.versions.take i ++ version ::
        desk.record.versions.drop (i + 1) ∧ (desk.record.versions.take i).length = i := by
    intro i version hversion
    obtain ⟨hi, rfl⟩ := List.getElem?_eq_some_iff.mp hversion
    rw [List.getElem_cons_drop, List.take_append_drop, List.length_take]
    exact ⟨rfl, by omega⟩
  constructor
  · intro i version hversion
    obtain ⟨hversions, hlength⟩ := hsplit hversion
    rw [(h.valid.versions _ _ _ hversions).number_eq, hlength]
  · intro version hversion
    rw [List.head?_eq_getElem?] at hversion
    obtain ⟨hversions, -⟩ := hsplit hversion
    rw [(h.valid.versions _ _ _ hversions).previous_eq]
    rfl
  · intro i version next hversion hnext
    obtain ⟨hversions, hlength⟩ := hsplit hversion
    obtain ⟨hversions', hlength'⟩ := hsplit hnext
    have hlast : (desk.record.versions.take (i + 1)).getLast? = some version := by
      simp [List.getLast?_take, hversion]
    have hmore : i + 1 < desk.record.versions.length := (List.getElem?_eq_some_iff.mp hnext).1
    have hfits := h.valid.versions _ _ _ hversions'
    refine ⟨?_, ?_, hfits.linked version hlast, h.varies _ _ _ hversions' version hlast⟩
    · rw [hfits.previous_eq, hlast]
      rfl
    · exact (h.valid.versions _ _ _ hversions).superseded (by omega)
  · intro last hlast
    exact (h.valid.last last hlast).imp And.left And.left
  · rw [h.valid.draft_iff, List.isEmpty_iff]

/-- After a paper is marked unused, nothing more is accepted. -/
theorem plan_of_unused (h : desk.Sound) {last : IdentificationVersion}
    (hlast : desk.record.versions.getLast? = some last) (hunused : last.status = .unused)
    (hcurrent : context.current = some desk.record) :
    ∃ e, command.plan context identities actor now = .error e := by
  cases hplan : command.plan context identities actor now with
  | error e => exact ⟨e, rfl⟩
  | ok planned =>
    obtain ⟨stamp, revision, -, -, -, hamends⟩ :=
      DispatchCommand.propose_some hcurrent (plan_eq_ok.mp hplan).1
    have hdraft : desk.record.draft = none := by
      have hnonempty := List.ne_nil_of_mem (List.mem_of_getLast? hlast)
      have hiff := h.orderly.drafted
      simpa [hnonempty] using hiff
    generalize hrecord : planned.record = record' at hamends
    cases hamends with
    | revise draft_eq => simp [hdraft] at draft_eq
    | issue draft_eq => simp [hdraft] at draft_eq
    | replace versions_eq issued =>
      simp [show desk.record.versions = _ from versions_eq] at hlast
      simp [hlast, hunused] at issued
    | markUnused versions_eq issued =>
      simp [show desk.record.versions = _ from versions_eq] at hlast
      simp [hlast, hunused] at issued

/-- **Issued papers are append-only.**

From a prepared paper, over any calls and from any point on: the versions there are keep their
identity, number, link, material and stamp, and a status changes once, from issued.  At each point
the record is orderly; no call that passed the other checks is refused by the final validation;
and none is accepted after the paper was marked unused. -/
theorem papers_are_append_only {start : DispatchDesk} (hprepared : Prepared start)
    (hreached : Relation.ReflTransGen Step start desk)
    (hrun : Relation.ReflTransGen Step desk desk')
    (hdistinct : DistinctIdentities desk'.operations) :
    Grows IdentificationVersion.Becomes desk.record.versions desk'.record.versions ∧
    Orderly desk'.record ∧
    (∀ (command : DispatchCommand) (context : DispatchContext) (identities : DispatchIdentities)
      (actor : PublicKey) (now : UnixTimestamp) (planned : DispatchPlan),
      context.current = some desk'.record →
      desk'.record.updated.stockRevision.value ≤ context.stockRevision.value →
      identities.operation ∉ desk'.operations →
      DistinctIdentities (identities.operation :: desk'.operations) →
      command.propose context identities actor now = .ok planned →
      command.plan context identities actor now = .ok planned) ∧
    (∀ (command : DispatchCommand) (context : DispatchContext) (identities : DispatchIdentities)
      (actor : PublicKey) (now : UnixTimestamp) (planned : DispatchPlan),
      context.current = none → command.propose context identities actor now = .ok planned →
      command.plan context identities actor now = .ok planned) ∧
    ∀ last ∈ desk'.record.versions.getLast?, last.status = .unused →
      ∀ (command : DispatchCommand) (context : DispatchContext) (identities : DispatchIdentities)
        (actor : PublicKey) (now : UnixTimestamp), context.current = some desk'.record →
        ∃ e, command.plan context identities actor now = .error e := by
  have hstart := hprepared.sound
  obtain ⟨hdesk, -⟩ := hstart.run hreached (hdistinct.mono (operations_subset_of_run hrun))
  obtain ⟨hsound, hgrows⟩ := hdesk.run hrun hdistinct
  refine ⟨hgrows, hsound.orderly, ?_, ?_, ?_⟩
  · intro command context identities actor now planned hcurrent hlater hfresh hdistinct' hpropose
    obtain ⟨hnext, -⟩ := hsound.propose hdistinct' hcurrent hlater hfresh hpropose
    exact plan_eq_ok.mpr ⟨hpropose, DispatchRecord.validate_eq_ok.mpr hnext.valid⟩
  · intro command context identities actor now planned hcurrent hpropose
    obtain ⟨hvalid, -⟩ := valid_of_propose_none hcurrent hpropose
    exact plan_eq_ok.mpr ⟨hpropose, DispatchRecord.validate_eq_ok.mpr hvalid⟩
  · intro last hlast hunused command context identities actor now hcurrent
    exact plan_of_unused hsound hlast hunused hcurrent

end DispatchDesk

/-! ### The crate's paper -/

/-- SHA-256 on what is hashed for the crate's paper, which is replaced and marked unused. -/
@[reducible] def crateDeskDigest : Sha256 where
  digest bytes :=
    if bytes = utf8 "harvestcircle.hub.dispatch.identity.v1\x00preparation\x00" ++
        bigEndian 16 24 then
      0xa6207a8447f97d6b3250d99bd94247dd80499381abd44d26daa68606b6682497
    else if bytes = utf8 "harvestcircle.hub.dispatch.identity.v1\x00identification\x00" ++
        bigEndian 16 24 then
      0x6aa44635b3215ed5c9193b2c9a92ee762e7f3c3bc248768117c30fc7271c725b
    else if bytes = utf8 "harvestcircle.hub.dispatch.identity.v1\x00preparation\x00" ++
        bigEndian 16 25 then
      0xe9906409e338a7d811575a43716735350838bf0f11b26181db815180a5761036
    else if bytes = utf8 "harvestcircle.hub.dispatch.identity.v1\x00identification\x00" ++
        bigEndian 16 25 then
      0xa87700a0559d060096c58c9af29f7686c1f6a419f405429b88cf47a4b927ba7a
    else crateDigest.digest bytes

/-- The crate on its shelf. -/
def crateShelved : PhysicalStockGroup :=
  { crate with location := crateShelf.id, revision := .of 2, work := [] }

/-- The crate, at a revision of it. -/
def crateSelection (revision : HubRevision) : DispatchSelection where
  lines := [⟨crate.id, revision, crate.packs⟩]
  nonempty := by simp
  positive := by simp [crate]
  length_le := by simp [hubDispatchLines]
  sorted := by simp

def crateMaterial (stockRevision revision : HubRevision) (location : ReferenceRecord) :
    DispatchMaterial where
  stockRevision
  catalogRevision := .initial
  basis := .wholePackV1
  recipient := crateRecipient
  lines := [⟨crate.id, revision, crate.packs, none, location, crateProduct, crateVariant,
    cratePopulation⟩]
  observation := crateNote

def crateDraft : DispatchRecord where
  id := cratePaper.id
  hub := .of 1
  revision := .initial
  created := crateDispatchStamp (.of 21) (.of 4)
  updated := crateDispatchStamp (.of 21) (.of 4)
  draft := some (crateMaterial (.of 3) .initial crateDock)
  versions := []

/-- The first version, for the crate at the dock. -/
def crateFirstVersion : IdentificationVersion :=
  ⟨crateDeparture.identification, 1, none, crateMaterial (.of 3) .initial crateDock,
    crateDispatchStamp (.of 22) (.of 5), .issued, none⟩

/-- The second version, for the crate on its shelf. -/
def crateSecondVersion : IdentificationVersion :=
  ⟨.of 0x6aa44635b3215ed5c9193b2c9a92ee76, 2, some crateFirstVersion.id,
    crateMaterial (.of 5) (.of 2) crateShelf, crateDispatchStamp (.of 24) (.of 6), .issued, none⟩

def crateIssued : DispatchRecord :=
  { crateDraft with
    revision := .of 2, updated := crateDispatchStamp (.of 22) (.of 5), draft := none
    versions := [crateFirstVersion] }

def crateReplaced : DispatchRecord :=
  { crateIssued with
    revision := .of 3, updated := crateDispatchStamp (.of 24) (.of 6)
    versions := [crateFirstVersion.close .superseded (crateDispatchStamp (.of 24) (.of 6)),
      crateSecondVersion] }

def crateUnused : DispatchRecord :=
  { crateReplaced with
    revision := .of 4, updated := crateDispatchStamp (.of 25) (.of 7)
    versions := [crateFirstVersion.close .superseded (crateDispatchStamp (.of 24) (.of 6)),
      crateSecondVersion.close .unused (crateDispatchStamp (.of 25) (.of 7))] }

/-- The crate's paper is prepared and issued; what was issued is replaced, and the replacement is
marked unused.  Nothing more is accepted. -/
theorem papers_are_append_only_crate :
    let _ : Sha256 := crateDeskDigest
    DispatchDesk.Prepared ⟨crateDraft, [.of 21]⟩ ∧
    Grows IdentificationVersion.Becomes crateIssued.versions crateUnused.versions ∧
    DispatchDesk.Orderly crateUnused ∧
    ∀ (command : DispatchCommand) (context : DispatchContext) (identities : DispatchIdentities)
      (actor : PublicKey) (now : UnixTimestamp), context.current = some crateUnused →
      ∃ e, command.plan context identities actor now = .error e := by
  intro digest
  let first : DispatchIdentities := ⟨.of 21, crateDraft.id,
    .of 0xd98626f306c4ef74e9ef982cceef20b3⟩
  let second : DispatchIdentities := ⟨.of 22, .of 0xc1b38d5503e397a7c31337f384a43679,
    crateDeparture.identification⟩
  let third : DispatchIdentities := ⟨.of 24, .of 0xa6207a8447f97d6b3250d99bd94247dd,
    crateSecondVersion.id⟩
  let fourth : DispatchIdentities := ⟨.of 25, .of 0xe9906409e338a7d811575a4371673535,
    .of 0xa87700a0559d060096c58c9af29f7686⟩
  let context (revision : HubRevision) (group : PhysicalStockGroup)
      (current : Option DispatchRecord) : DispatchContext :=
    ⟨.of 1, revision, crateCatalog, [⟨group, cratePopulation⟩], current⟩
  have hprepare : DispatchCommand.plan
      ⟨.of 3, .initial, .prepare crateRecipient.id (crateSelection .initial), crateNote⟩
      (context (.of 3) crate none) first crateActor crateTime = .ok ⟨.of 4, crateDraft⟩ := by
    decide +kernel
  have hissue : DispatchCommand.plan
      ⟨.of 4, .initial, .issue crateDraft.id .initial, crateNote⟩
      (context (.of 4) crate (some crateDraft)) second crateActor crateTime =
        .ok ⟨.of 5, crateIssued⟩ := by decide +kernel
  have hreplace : DispatchCommand.plan
      ⟨.of 5, .initial, .replace crateDraft.id (.of 2) crateRecipient.id
        (crateSelection (.of 2)), crateNote⟩
      (context (.of 5) crateShelved (some crateIssued)) third crateActor crateTime =
        .ok ⟨.of 6, crateReplaced⟩ := by decide +kernel
  have hunused : DispatchCommand.plan
      ⟨.of 6, .initial, .markUnused crateDraft.id (.of 3), crateNote⟩
      (context (.of 6) crateShelved (some crateReplaced)) fourth crateActor crateTime =
        .ok ⟨.of 7, crateUnused⟩ := by decide +kernel
  have hdistinct : DispatchDesk.DistinctIdentities [.of 25, .of 24, .of 22, .of 21] := by
    have hderived : ∀ ids ∈ [fourth, third, second, first],
        DispatchIdentities.fromOperationBytes ids.operation = .ok ids := by decide +kernel
    exact DispatchDesk.distinctIdentities_of_derived hderived (by decide)
  have hprepared : DispatchDesk.Prepared ⟨crateDraft, [.of 21]⟩ := .prepare rfl hprepare
  have hissued : DispatchDesk.Step ⟨crateDraft, [.of 21]⟩ ⟨crateIssued, [.of 22, .of 21]⟩ :=
    .accepted hissue rfl (by decide) (by decide)
  have hreplaced : DispatchDesk.Step ⟨crateIssued, [.of 22, .of 21]⟩
      ⟨crateReplaced, [.of 24, .of 22, .of 21]⟩ :=
    .accepted hreplace rfl (by decide) (by decide)
  have hclosed : DispatchDesk.Step ⟨crateReplaced, [.of 24, .of 22, .of 21]⟩
      ⟨crateUnused, [.of 25, .of 24, .of 22, .of 21]⟩ :=
    .accepted hunused rfl (by decide) (by decide)
  obtain ⟨hgrows, horderly, -, -, hends⟩ := DispatchDesk.papers_are_append_only hprepared
    (.single hissued) (.tail (.single hreplaced) hclosed) hdistinct
  exact ⟨hprepared, hgrows, horderly, hends _ rfl rfl⟩

end HarvestCircle
