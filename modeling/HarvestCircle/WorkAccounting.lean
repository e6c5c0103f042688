import HarvestCircle.WorkWrites

/-! # Work accounting over whole runs

A run starts with no requirements and no groups.  Each step is an accepted plan whose
sources are rows of the ledger and whose new ids are not yet in it, written back.
Every such write is balanced, so in every ledger reached the accounts match the groups.
-/
namespace HarvestCircle
open Checked

/-! ## What a receipt brings in -/

/-- The work of putting a receipt away; it goes by the id of the population. -/
def ReceiptPlan.requirement (receipt : ReceiptPlan) : WorkRequirement where
  id := receipt.trace.id
  trace := receipt.trace.id
  variant := receipt.position.variant
  target := receipt.trace.plannedLocation
  quantity := receipt.putAway
  revision := .initial

/-- The received group, all of it still to be put away. -/
def ReceiptPlan.group (receipt : ReceiptPlan) (causalFloor : Option UnixTimestamp) :
    PhysicalStockGroup where
  id := receipt.position.group
  trace := receipt.position.trace
  variant := receipt.position.variant
  parent := none
  identification := none
  location := receipt.position.location
  packs := receipt.position.packs
  revision := receipt.position.revision
  causalFloor := causalFloor
  work := [⟨receipt.requirement, .pending⟩]

variable {actor : PublicKey} {catalog : ReferenceCatalog} {command : ReceiptCommand}
  {currentStockRevision : HubRevision} {group trace : HubRecordId} {receipt : ReceiptPlan}
  {recordedAt : UnixTimestamp}

/-- What an accepted receipt says of its one group and of the work on it. -/
theorem ReceiptCommand.plan_eq_ok
    (h : command.plan catalog currentStockRevision trace group actor recordedAt = .ok receipt) :
    0 < command.packs.value ∧ receipt.trace.id = trace ∧
    receipt.position = ⟨group, trace, command.variant, command.receiving, command.packs, .initial⟩ ∧
    receipt.putAway = .pending command.packs ∧
    ∀ target ∈ receipt.trace.plannedLocation,
      target.value.kind = .location ∧ target.id ≠ command.receiving := by
  simp only [plan, accepted] at h
  obtain ⟨-, hpacks, -, variant, -, product, -, product', -, supplier, -, producer, -, h⟩ := h
  -- whatever is known of the source, the rest of the plan is the same
  have hrest : ∃ sourceIssuer, ∃ receiving, command.plannedLocation ≠ some command.receiving ∧
      ∃ plannedLocation, (command.plannedLocation.mapM fun id =>
        mapErr StockError.reference (catalog.requireKind id .location)) = .ok plannedLocation ∧
      ∃ stockRevision, receipt = {
        stockRevision
        trace := {
          id := trace, variant, product := product', supplier, producer, source := command.source
          sourceIssuer, originalPacks := command.packs, initialLocation := receiving
          origin := .receipt, plannedLocation, occurred := command.occurred, recordedAt, actor
          observation := command.observation }
        position := {
          group, trace, variant := command.variant, location := command.receiving
          packs := command.packs, revision := .initial }
        putAway := .pending command.packs } := by
    split at h
    · simp only [accepted] at h
      obtain ⟨_, -, receiving, -, -, hplanned, plannedLocation, hlocation, revision, -, rfl⟩ := h
      exact ⟨_, receiving, hplanned, plannedLocation, hlocation, revision, rfl⟩
    · simp only [accepted] at h
      obtain ⟨-, _, -, receiving, -, -, hplanned, plannedLocation, hlocation, revision, -, rfl⟩ := h
      exact ⟨_, receiving, hplanned, plannedLocation, hlocation, revision, rfl⟩
  obtain ⟨sourceIssuer, receiving, hplanned, plannedLocation, hlocation, revision, rfl⟩ := hrest
  refine ⟨Nat.pos_of_ne_zero hpacks, rfl, rfl, rfl, fun target htarget => ?_⟩
  rcases option_mapM_eq_ok.mp hlocation with ⟨-, rfl⟩ | ⟨id, record, hid, rfl, hrecord⟩
  · cases htarget
  · obtain rfl := Option.some.inj htarget
    obtain ⟨hrecordId, hkind, -⟩ := ReferenceCatalog.requireKind_spec (mapErr_eq_ok.mp hrecord)
    refine ⟨hkind, fun heq => hplanned ?_⟩
    rw [hid, ← hrecordId, heq]

theorem ReceiptPlan.group_valid
    (h : command.plan catalog currentStockRevision trace group actor recordedAt = .ok receipt)
    (causalFloor : Option UnixTimestamp) : (receipt.group causalFloor).Valid := by
  obtain ⟨hpos, htrace, hposition, hputAway, hplanned⟩ := ReceiptCommand.plan_eq_ok h
  have hwork : ∀ a ∈ (receipt.group causalFloor).work, a = ⟨receipt.requirement, .pending⟩ :=
    fun a ha => List.mem_singleton.mp ha
  have hrequirement : receipt.requirement.validate = .ok () := by
    simp only [WorkRequirement.validate, ReceiptPlan.requirement, refuse_eq_ok, hputAway,
      QuantityWork.pending, passed, not_exists, not_and]
    exact ⟨fun target htarget => (hplanned target htarget).1, hpos.ne', fun _ => rfl⟩
  exact {
    positive := by simpa [ReceiptPlan.group, hposition] using hpos
    parent_ne := by simp [ReceiptPlan.group]
    identified := by simp [ReceiptPlan.group]
    work_length := by simp [ReceiptPlan.group, hubGroupRequirements]
    work_nodup := by simp [ReceiptPlan.group]
    requirement_valid := fun a ha => by rw [hwork a ha]; exact hrequirement
    trace_eq := fun a ha => by
      rw [hwork a ha]
      simp [ReceiptPlan.group, ReceiptPlan.requirement, hposition, htrace]
    variant_eq := fun a ha => by rw [hwork a ha]; rfl
    pending_target := fun a ha _ target htarget => by
      rw [hwork a ha] at htarget
      simpa [ReceiptPlan.group, hposition] using (hplanned target htarget).2
    accounted := fun a ha => by
      rw [hwork a ha]
      simp [ReceiptPlan.group, ReceiptPlan.requirement, hputAway, QuantityWork.accountOf,
        QuantityWork.pending, hposition] }

/-- What an accepted return says of its group and of the work on it. -/
theorem ReturnCommand.group_of_plan [Sha256] {command : ReturnCommand} {context : ReturnContext}
    {ids : ReturnIdentities} {now : UnixTimestamp} {returned : ReturnPlan}
    (h : command.plan context ids actor now = .ok returned) :
    returned.group.Valid ∧
    (returned.group.work = returned.intakeWork.toList.map fun r => ⟨r, .pending⟩) ∧
    ∀ r ∈ returned.intakeWork, r.quantity = .pending returned.group.packs := by
  simp only [plan, accepted, PhysicalStockGroup.validate_eq_ok] at h
  obtain ⟨-, -, -, -, variant, -, product, -, product', -, location, -, returnedBy, -, issuer, -, -,
    plannedLocation, -, hvalid, revision, -, linkage, -, rfl⟩ := h
  refine ⟨hvalid, rfl, fun r hr => ?_⟩
  obtain ⟨target, -, rfl⟩ := Option.mem_map.mp hr
  rfl

namespace WorkLedger
open PhysicalStockGroup

/-! ## Steps and runs -/

section
variable [Sha256]

/-- An accepted plan on rows of the ledger, written back. -/
inductive Step : WorkLedger → WorkLedger → Prop
  | receive {ledger : WorkLedger} {command : ReceiptCommand} {catalog : ReferenceCatalog}
      {stockRevision : HubRevision} {trace group : HubRecordId} {actor : PublicKey}
      {recordedAt : UnixTimestamp} {receipt : ReceiptPlan} (causalFloor : Option UnixTimestamp)
      (plan : command.plan catalog stockRevision trace group actor recordedAt = .ok receipt)
      (group_fresh : group ∉ ledger.groups.map (·.id))
      (requirement_fresh : trace ∉ ledger.requirements.map (·.id)) :
      Step ledger (ledger.write [receipt.requirement] [] [receipt.group causalFloor])
  | takeBack {ledger : WorkLedger} {command : ReturnCommand} {context : ReturnContext}
      {ids : ReturnIdentities} {actor : PublicKey} {now : UnixTimestamp} {returned : ReturnPlan}
      (plan : command.plan context ids actor now = .ok returned)
      (group_fresh : returned.group.id ∉ ledger.groups.map (·.id))
      (requirement_fresh : ∀ r ∈ returned.intakeWork, r.id ∉ ledger.requirements.map (·.id)) :
      Step ledger (ledger.write returned.intakeWork.toList [] [returned.group])
  | split {ledger : WorkLedger} {command : SplitCommand} {catalog : ReferenceCatalog}
      {stockRevision : HubRevision} {source : PhysicalStockGroup} {portionId : HubRecordId}
      {recordedAt : UnixTimestamp} {split : SplitPlan}
      (plan : command.plan catalog stockRevision source portionId recordedAt = .ok split)
      (source_mem : source ∈ ledger.groups)
      (portion_fresh : portionId ∉ ledger.groups.map (·.id)) :
      Step ledger (ledger.write [] [source] [split.remainder, split.portion])
  | move {ledger : WorkLedger} {command : MovementCommand} {catalog : ReferenceCatalog}
      {stockRevision : HubRevision} {source : PhysicalStockGroup} {separatedGroupId : HubRecordId}
      {recordedAt : UnixTimestamp} {movement : MovementPlan}
      (plan : command.plan catalog stockRevision source separatedGroupId recordedAt = .ok movement)
      (source_mem : source ∈ ledger.groups)
      (separated_fresh : separatedGroupId ∉ ledger.groups.map (·.id)) :
      Step ledger (ledger.write movement.workUpdates [source]
        (movement.remaining.toList ++ [movement.moved]))
  | replan {ledger : WorkLedger} {command : ReplanCommand} {catalog : ReferenceCatalog}
      {stockRevision : HubRevision} {work : WorkRequirement}
      {pendingGroups : List PhysicalStockGroup} {replacementId : HubRecordId} {replan : ReplanPlan}
      (plan : command.plan catalog stockRevision work pendingGroups replacementId = .ok replan)
      (work_mem : work ∈ ledger.requirements)
      (groups_mem : ∀ g ∈ pendingGroups, g ∈ ledger.groups)
      (replacement_fresh : replacementId ∉ ledger.requirements.map (·.id)) :
      Step ledger (ledger.write [replan.previous, replan.replacement] pendingGroups replan.groups)
  | newWork {ledger : WorkLedger} {command : NewWorkCommand} {catalog : ReferenceCatalog}
      {stockRevision : HubRevision} {groups : List PhysicalStockGroup} {requirementId : HubRecordId}
      {posted : NewWorkPlan}
      (plan : command.plan catalog stockRevision groups requirementId = .ok posted)
      (groups_mem : ∀ g ∈ groups, g ∈ ledger.groups)
      (requirement_fresh : requirementId ∉ ledger.requirements.map (·.id)) :
      Step ledger (ledger.write [posted.requirement] groups posted.groups)
  | leave {ledger : WorkLedger} {consumed : List ConsumedStockGroup}
      {changes : List DepartureWorkChange}
      -- a departure and a disposition retire the work of whole groups the same way
      (plan : retiredWork consumed = .ok changes)
      (groups_mem : ∀ c ∈ consumed, c.before ∈ ledger.groups)
      (groups_nodup : (consumed.map (·.before.id)).Nodup) :
      Step ledger (ledger.write (changes.map (·.after)) (consumed.map (·.before)) [])
  | miscount {ledger : WorkLedger} {command : CountPostCommand} {count : CountObservation}
      {current : CountContext} {operation : HubRecordId} {actor : PublicKey}
      {recordedAt : UnixTimestamp} {posted : CountPostPlan} {packs afterPacks : WholePacks}
      {afterRevision : HubRevision} {changes : List CountWorkChange}
      (causalFloor : Option UnixTimestamp)
      (plan : command.plan count current operation actor recordedAt = .ok posted)
      (effect : posted.effect = .shortage packs afterPacks afterRevision changes)
      (group_mem : current.group ∈ ledger.groups) :
      Step ledger (ledger.write (changes.map (·.after)) [current.group]
        (leftover current.group afterPacks afterRevision causalFloor))
  | reduce {ledger : WorkLedger} {before : PhysicalStockGroup} {packs : WholePacks}
      {reduction : ActualPhysicalReduction} (causalFloor : Option UnixTimestamp)
      (plan : ActualPhysicalReduction.plan before packs = .ok reduction)
      (group_mem : before ∈ ledger.groups) :
      Step ledger (ledger.write (reduction.workChanges.map (·.after)) [before]
        (leftover before reduction.onHandAfter reduction.afterRevision causalFloor))

variable {ledger : WorkLedger}

/-- **One step keeps the accounts.** -/
theorem Step.sound {ledger' : WorkLedger} (h : Step ledger ledger') (hledger : ledger.Sound) :
    ledger'.Sound := by
  cases h with
  | @receive _ _ _ _ _ _ _ receipt causalFloor plan group_fresh requirement_fresh =>
    obtain ⟨-, htrace, hposition, hputAway, -⟩ := ReceiptCommand.plan_eq_ok plan
    have hwork : (receipt.group causalFloor).work =
      (some receipt.requirement).toList.map fun r => ⟨r, .pending⟩ := rfl
    refine hledger.write (writes_intake (ReceiptPlan.group_valid plan causalFloor) hwork ?_ ?_ ?_)
    · simp [ReceiptPlan.requirement, ReceiptPlan.group, hputAway, hposition]
    · simpa [ReceiptPlan.group, hposition] using group_fresh
    · simpa [ReceiptPlan.requirement, htrace] using requirement_fresh
  | takeBack plan group_fresh requirement_fresh =>
    obtain ⟨hvalid, hwork, hquantity⟩ := ReturnCommand.group_of_plan plan
    exact hledger.write (writes_intake hvalid hwork hquantity group_fresh requirement_fresh)
  | split plan source_mem portion_fresh =>
    exact hledger.write (writes_split plan hledger source_mem portion_fresh)
  | move plan source_mem separated_fresh =>
    exact hledger.write (writes_move plan hledger source_mem separated_fresh)
  | replan plan work_mem groups_mem replacement_fresh =>
    exact hledger.write (writes_replan plan hledger work_mem groups_mem replacement_fresh)
  | newWork plan groups_mem requirement_fresh =>
    exact hledger.write (writes_newWork plan hledger groups_mem requirement_fresh)
  | leave plan groups_mem groups_nodup =>
    exact hledger.write (writes_leave plan hledger groups_mem groups_nodup)
  | miscount causalFloor plan effect group_mem =>
    have hexplains := (CountPostCommand.plan_eq_ok plan).explains
    rw [effect] at hexplains
    obtain ⟨-, hsum, rfl, -, hchanges⟩ := hexplains
    refine hledger.write (writes_reduce _ causalFloor hledger group_mem hsum ?_)
    rw [List.forall₂_map_right_iff]
    refine (mapM_eq_ok.mp hchanges).imp fun a change hretire => ?_
    obtain ⟨hbefore, hretires, -⟩ := CountWorkChange.retire_eq_ok hretire
    exact hbefore ▸ hretires
  | reduce causalFloor plan group_mem =>
    obtain ⟨-, -, -, -, hsum, hchanges⟩ := ActualPhysicalReduction.plan_eq_ok plan
    refine hledger.write (writes_reduce _ causalFloor hledger group_mem hsum ?_)
    rw [List.forall₂_map_right_iff]
    refine (mapM_eq_ok.mp hchanges).imp fun a change hretire => ?_
    obtain ⟨hbefore, hexact, hpacks⟩ := ActualPhysicalReduction.retire_eq_ok hretire
    exact hbefore ▸ hpacks ▸ hexact

/-- The ledgers reached by steps from the one without requirements and groups. -/
inductive Reached : WorkLedger → Prop
  | empty : Reached ⟨[], []⟩
  | next {ledger ledger' : WorkLedger} : Reached ledger → Step ledger ledger' → Reached ledger'

theorem Reached.sound (h : Reached ledger) : ledger.Sound := by
  induction h with
  | empty => constructor <;> simp
  | next _ hstep ih => exact hstep.sound ih

/-- **Work accounting always matches the physical groups.** -/
theorem work_matches_groups {ledger : WorkLedger} (h : Reached ledger) :
    (∀ r ∈ ledger.requirements,
      r.quantity.completed.value + r.quantity.noLongerRequired.value + r.quantity.remaining.value =
        r.quantity.required.value ∧
      r.quantity.remaining.value = packsAt ledger.groups r.id .pending ∧
      packsAt ledger.groups r.id .completed ≤ r.quantity.completed.value ∧
      packsAt ledger.groups r.id .noLongerRequired ≤ r.quantity.noLongerRequired.value) ∧
    (ledger.requirements.map (·.id)).Nodup ∧ (ledger.groups.map (·.id)).Nodup ∧
    ∀ g ∈ ledger.groups, g.validate = .ok () ∧
      ∀ a ∈ g.work, a.requirement ∈ ledger.requirements := by
  have hsound := h.sound
  refine ⟨fun r hr => ?_, hsound.requirement_nodup, hsound.group_nodup, fun g hg => ?_⟩
  · exact ⟨r.quantity.accounted, hsound.remaining r hr, hsound.completed r hr,
      hsound.noLongerRequired r hr⟩
  · exact ⟨validate_eq_ok.mpr (hsound.valid g hg), hsound.copies g hg⟩

end

end WorkLedger

/-! ## A run -/

/-- Ten packs are received for the shelf. -/
def crateReceipt : ReceiptCommand where
  expectedStockRevision := .initial
  expectedCatalogRevision := .initial
  variant := .of 3
  supplier := none
  producer := none
  source := .unknown
  packs := .of 10
  receiving := .of 6
  plannedLocation := some (.of 7)
  occurred := .known crateTime
  observation := crateNote

/-- Four of them are put there. -/
def cratePutAway : MovementCommand where
  expectedStockRevision := .of 2
  expectedCatalogRevision := .initial
  group := .of 10
  expectedGroupRevision := .initial
  toLocation := .of 7
  packs := .of 4
  separatedPortion := some ⟨⟨"blue tag", Eq.refl true⟩, crateNote⟩
  occurred := .known crateTime
  observation := crateNote

namespace WorkLedger
open PhysicalStockGroup

/-- After the putting away, four packs are done and the other six still on the dock. -/
theorem work_matches_groups_put_away : ∃ ledger : WorkLedger, @Reached crateDigest ledger ∧
    ∃ r ∈ ledger.requirements, r.quantity.completed.value = 4 ∧
      packsAt ledger.groups r.id .pending = 6 := by
  let _ : Sha256 := crateDigest
  have hreceive : ∃ receipt, crateReceipt.plan crateCatalog .initial (.of 2) (.of 10)
      crateActor crateTime = .ok receipt ∧ receipt.group none = {
        crate with work := [⟨receipt.requirement, .pending⟩] } ∧
      receipt.requirement = ⟨.of 2, .of 2, .of 3, some crateShelf,
        .pending (.of 10), .initial⟩ := ⟨_, rfl, rfl, rfl⟩
  obtain ⟨receipt, hplan, hgroup, hrequirement⟩ := hreceive
  have hstart := Reached.empty.next (Step.receive none hplan (by simp) (by simp))
  rw [hgroup, hrequirement] at hstart
  have hmove : ∃ movement, cratePutAway.plan crateCatalog (.of 2) { crate with
      work := [⟨⟨.of 2, .of 2, .of 3, some crateShelf,
        .pending (.of 10), .initial⟩, .pending⟩] } (.of 11) crateTime = .ok movement ∧
      movement.workUpdates.map (fun r => (r.quantity.completed.value, r.quantity.remaining.value)) =
        [(4, 6)] := ⟨_, rfl, rfl⟩
  obtain ⟨movement, hmovement, hupdates⟩ := hmove
  have hend := hstart.next (Step.move hmovement (by simp [WorkLedger.write, Table.replace, refresh])
    (by decide))
  refine ⟨_, hend, ?_⟩
  obtain ⟨r, hr, hquantity⟩ := List.mem_map.mp (hupdates ▸ List.mem_singleton_self (4, 6))
  have hmatches := (work_matches_groups hend).1 r (Table.mem_replace.mpr (.inr hr))
  refine ⟨r, Table.mem_replace.mpr (.inr hr), congrArg Prod.fst hquantity, ?_⟩
  rw [← hmatches.2.1]
  exact congrArg Prod.snd hquantity

end WorkLedger

end HarvestCircle
