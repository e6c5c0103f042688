import HarvestCircle.WorkLedger
import HarvestCircle.WorkPlans
import HarvestCircle.Returns
import HarvestCircle.Counts
import HarvestCircle.Actuals

/-! # What each plan writes to the ledger

For every planner that touches work, that its result can be written back: the accounts
of the requirements move with the groups.  An intake brings groups and requirements
that were not there, a split and a movement exchange a group for its parts, a replan
and new work exchange allocations, and stock that leaves takes its pending work along.
-/
namespace HarvestCircle
open Checked

namespace PhysicalStockGroup
variable {group : PhysicalStockGroup} {id : HubRecordId}

theorem share_eq_zero (h : ∀ a ∈ group.work, a.requirement.id ≠ id) (progress : WorkProgress) :
    group.share id progress = 0 :=
  if_neg fun ⟨a, ha, hid, _⟩ => h a ha hid

/-- The allocation on a requirement says all of a group's progress on it. -/
theorem Shaped.share_eq (h : group.Shaped) {a : WorkAllocation} (ha : a ∈ group.work)
    (hid : a.requirement.id = id) (progress : WorkProgress) :
    group.share id progress = if a.progress = progress then group.packs.value else 0 := by
  subst hid
  have hiff : group.AtProgress a.requirement.id progress ↔ a.progress = progress := by
    constructor
    · rintro ⟨b, hb, hid, hprogress⟩
      rw [List.inj_on_of_nodup_map h.work_nodup hb ha hid] at hprogress
      exact hprogress
    · intro hprogress
      exact ⟨a, ha, rfl, hprogress⟩
  simp only [share, hiff]

end PhysicalStockGroup

namespace WorkLedger
open PhysicalStockGroup
variable {ledger : WorkLedger}

/-! ## Intake -/

variable {groups : List PhysicalStockGroup} {id : HubRecordId} {progress : WorkProgress}
  {catalog : ReferenceCatalog} {stockRevision : HubRevision} {packs : WholePacks}

theorem packsAt_eq_zero (h : ∀ g ∈ groups, ¬ g.AtProgress id progress) :
    packsAt groups id progress = 0 := by
  refine List.sum_eq_zero fun n hn => ?_
  obtain ⟨g, hg, rfl⟩ := List.mem_map.mp hn
  exact if_neg (h g hg)

theorem packsAt_eq_sum (h : ∀ g ∈ groups, g.AtProgress id progress) :
    packsAt groups id progress = (groups.map fun g => g.packs.value).sum := by
  refine congrArg List.sum (List.map_congr_left fun g hg => ?_)
  exact if_pos (h g hg)

variable {added removed : List PhysicalStockGroup} {group : PhysicalStockGroup}
  {work : WorkRequirement} {updates : List WorkRequirement}

/-- No group has work that the ledger does not know. -/
theorem Sound.not_atProgress (h : ledger.Sound) (hremoved : ∀ g ∈ removed, g ∈ ledger.groups)
    (hfresh : id ∉ ledger.requirements.map (·.id)) :
    ∀ g ∈ removed, ∀ progress, ¬ g.AtProgress id progress := by
  rintro g hg progress ⟨a, ha, haid, -⟩
  exact hfresh (haid ▸ List.mem_map_of_mem (h.copies g (hremoved g hg) a ha))

/-- New work is pending on all packs of the groups it is asked of. -/
theorem shifts_new {quantity : WholePacks}
    (hbefore : ∀ g ∈ removed, ∀ progress, ¬ g.AtProgress id progress)
    (hafter : ∀ g ∈ added, ∀ progress, g.AtProgress id progress ↔ progress = .pending)
    (hsum : (added.map fun g => g.packs.value).sum = quantity.value) :
    Shifts removed added id (.pending .zero) (.pending quantity) := by
  have hzero : ∀ progress, packsAt removed id progress = 0 := fun progress =>
    packsAt_eq_zero fun g hg => hbefore g hg progress
  have hall : packsAt added id .pending = quantity.value := by
    rw [packsAt_eq_sum fun g hg => (hafter g hg _).mpr rfl, hsum]
  have hnone : ∀ progress, progress ≠ .pending → packsAt added id progress = 0 :=
    fun progress hp => packsAt_eq_zero fun g hg hc => hp ((hafter g hg _).mp hc)
  constructor
  · simp [hzero, hall, QuantityWork.pending]
  · simp [hzero, hnone, QuantityWork.pending]
  · simp [hzero, hnone, QuantityWork.pending]

/-- A group is received, with the work of putting it away. -/
theorem writes_intake {intake : Option WorkRequirement} (hvalid : group.Valid)
    (hwork : group.work = intake.toList.map fun r => ⟨r, .pending⟩)
    (hquantity : ∀ r ∈ intake, r.quantity = .pending group.packs)
    (hfresh : group.id ∉ ledger.groups.map (·.id))
    (hnew : ∀ r ∈ intake, r.id ∉ ledger.requirements.map (·.id)) :
    ledger.Writes intake.toList [] [group] := by
  have hids : ∀ a ∈ group.work, a.requirement ∈ intake ∧ a.progress = .pending := by
    intro a ha
    rw [hwork] at ha
    obtain ⟨r, hr, rfl⟩ := List.mem_map.mp ha
    exact ⟨by simpa using hr, rfl⟩
  refine {
    updates_nodup := by cases intake <;> simp
    removed_mem := by simp
    removed_nodup := by simp
    added_nodup := by simp
    added_fresh := by simpa using hfresh
    shaped := by simpa using hvalid.toShaped
    copies := ?_
    kept := fun r _ hkept => ?_
    changed := fun r hr => .inr ?_ }
  · intro g hg a ha
    obtain rfl := List.mem_singleton.mp hg
    exact .inl (by simpa using (hids a ha).1)
  · have hzero : ∀ progress, group.share r.id progress = 0 :=
      share_eq_zero fun a ha hid => hkept (by
        rw [← hid]
        exact List.mem_map_of_mem (by simpa using (hids a ha).1))
    constructor <;> simp [hzero]
  · have hmem : r ∈ intake := by simpa using hr
    have ha : (⟨r, .pending⟩ : WorkAllocation) ∈ group.work := by
      rw [hwork]
      exact List.mem_map_of_mem hr
    refine ⟨hnew r hmem, ?_⟩
    rw [hquantity r hmem]
    refine shifts_new (by simp) (fun g hg progress => ?_) (by simp)
    obtain rfl := List.mem_singleton.mp hg
    constructor
    · rintro ⟨b, hb, -, rfl⟩
      exact (hids b hb).2
    · rintro rfl
      exact ⟨_, ha, rfl, rfl⟩

/-! ## Splitting -/

theorem writes_split {command : SplitCommand} {source : PhysicalStockGroup}
    {portionId : HubRecordId} {recordedAt : UnixTimestamp} {split : SplitPlan}
    (h : command.plan catalog stockRevision source portionId recordedAt = .ok split)
    (hledger : ledger.Sound) (hsource : source ∈ ledger.groups)
    (hfresh : portionId ∉ ledger.groups.map (·.id)) :
    ledger.Writes [] [source] [split.remainder, split.portion] := by
  obtain ⟨-, hremainder, hportion, hne, hsum, ⟨revision, hrest⟩, tag, floor, hpart⟩ :=
    SplitCommand.plan_eq_ok h
  have hrestId : split.remainder.id = source.id := by rw [hrest]
  have hrestWork : split.remainder.work = source.work := by rw [hrest]
  have hpartId : split.portion.id = portionId := by rw [hpart]
  have hpartWork : split.portion.work = source.work := by rw [hpart]
  have hpartPacks : split.portion.packs = command.packs := by rw [hpart]
  -- both parts are as far with everything as the group was
  have hshares : ∀ id progress, packsAt [split.remainder, split.portion] id progress =
      packsAt [source] id progress := by
    intro id progress
    have hrestShare := share_of_stages (show split.remainder.stages = source.stages by
      rw [stages, hrestWork, stages]) id progress
    have hpartShare := share_of_stages (show split.portion.stages = source.stages by
      rw [stages, hpartWork, stages]) id progress
    rw [packsAt_cons, packsAt_cons, packsAt_cons, packsAt_nil, hrestShare, hpartShare, hpartPacks,
      share]
    by_cases hat : source.AtProgress id progress
    · simp only [hat, if_true]
      omega
    · simp [hat]
  refine {
    updates_nodup := List.nodup_nil
    removed_mem := by simpa using hsource
    removed_nodup := by simp
    added_nodup := by simpa [hrestId, hpartId] using hne.symm
    added_fresh := by simpa [hrestId, hpartId] using Or.inr hfresh
    shaped := by simpa using ⟨hremainder.toShaped, hportion.toShaped⟩
    copies := ?_
    kept := fun r _ _ => ?_
    changed := by simp }
  · intro g hg a ha
    have hmem : a ∈ source.work := by
      rcases List.mem_pair.mp hg with rfl | rfl
      · exact hrestWork ▸ ha
      · exact hpartWork ▸ ha
    exact .inr (hledger.copies source hsource a hmem)
  · constructor <;> rw [hshares]

/-! ## Moving -/

/-- A requirement some of whose packs arrived goes on. -/
theorem continues_complete {before after : WorkRequirement} (h : before.complete packs = .ok after)
    (htarget : before.target.isSome = true) : before.Continues after := by
  obtain ⟨-, hid, htrace, hvariant, htarget', hrequired, -⟩ := WorkRequirement.complete_eq_ok h
  refine ⟨hid, htrace, hvariant, htarget', fun hvalid => ?_⟩
  simp only [WorkRequirement.validate, refuse_eq_ok, htarget', hrequired, not_or] at hvalid ⊢
  refine ⟨hvalid.1, hvalid.2.1, fun hnone => ?_⟩
  rw [Option.isNone_iff_eq_none.mp hnone.1] at htarget
  cases htarget

/-- The updates of a movement are of distinct requirements of the group. -/
theorem arrivals_sublist {work : List WorkAllocation}
    {arrivals : List (WorkAllocation × Option WorkRequirement)} {toLocation : HubRecordId}
    (h : List.Forall₂ (fun a b => a.arrive toLocation packs = .ok b)
      work arrivals) :
    ((arrivals.filterMap (·.2)).map (·.id)).Sublist (work.map fun a => a.requirement.id) := by
  induction h with
  | nil => exact List.Sublist.slnil
  | cons harrive _ ih =>
    rcases WorkAllocation.arrive_eq_ok harrive with ⟨-, update, hcomplete, rfl⟩ | ⟨-, rfl⟩
    · simp only [List.filterMap_cons, List.map_cons, (WorkRequirement.complete_eq_ok hcomplete).2.1]
      exact ih.cons_cons _
    · exact ih.cons _

section Move
variable {command : MovementCommand} {catalog : ReferenceCatalog} {stockRevision : HubRevision}
  {source : PhysicalStockGroup} {separatedGroupId : HubRecordId} {recordedAt : UnixTimestamp}
  {movement : MovementPlan}

/-- The progress of an allocation after the packs came to a location. -/
def progressAfter (a : WorkAllocation) (toLocation : HubRecordId) : WorkProgress :=
  if a.Arrives toLocation then .completed else a.progress

variable {a : WorkAllocation}

/-- An arrival is on the same requirement, and has arrived if it was pending for the place. -/
theorem arrive_spec {toLocation : HubRecordId} {arrival : WorkAllocation × Option WorkRequirement}
    (h : a.arrive toLocation packs = .ok arrival) :
    arrival.1.requirement.id = a.requirement.id ∧
    arrival.1.progress = progressAfter a toLocation ∧
    (a.follow arrival.2).requirement = arrival.1.requirement ∧
    (a.follow arrival.2).progress = a.progress ∧
    (if a.Arrives toLocation then
      arrival.2 = some arrival.1.requirement ∧
        a.requirement.complete packs = .ok arrival.1.requirement
    else arrival.2 = none ∧ arrival.1 = a) := by
  rcases WorkAllocation.arrive_eq_ok h with ⟨harrives, update, hcomplete, rfl⟩ | ⟨hstays, rfl⟩
  · refine ⟨(WorkRequirement.complete_eq_ok hcomplete).2.1, ?_, rfl, rfl, ?_⟩
    · rw [progressAfter, if_pos harrives]
    · rw [if_pos harrives]
      exact ⟨rfl, hcomplete⟩
  · refine ⟨rfl, ?_, rfl, rfl, ?_⟩
    · rw [progressAfter, if_neg hstays]
    · rw [if_neg hstays]
      exact ⟨rfl, rfl⟩

section
variable (h : command.plan catalog stockRevision source separatedGroupId recordedAt = .ok movement)
include h

/-- The packs of a moved group on a requirement it is part of: those moved, and the rest. -/
theorem packsAt_move (ha : a ∈ source.work) (progress : WorkProgress) :
    command.packs.value ≤ source.packs.value ∧
    packsAt (movement.remaining.toList ++ [movement.moved]) a.requirement.id progress =
      (if a.progress = progress then source.packs.value - command.packs.value else 0) +
      (if progressAfter a command.toLocation = progress then command.packs.value else 0) := by
  obtain ⟨arrivals, -, hmoved, hpacks, harrivals, -, hmovedWork, hcase⟩ :=
    MovementCommand.plan_eq_ok h
  obtain ⟨arrival, hzip, harrive⟩ := exists_zip_of_forall₂ harrivals ha
  obtain ⟨hid, hprogress, hfollow, hfollowProgress, -⟩ := arrive_spec harrive
  have hmovedMem : arrival.1 ∈ movement.moved.work := by
    rw [hmovedWork]
    exact List.mem_map_of_mem (List.of_mem_zip hzip).2
  have hmovedShare := hmoved.share_eq hmovedMem hid progress
  rw [hprogress, hpacks] at hmovedShare
  rcases hcase with ⟨rest, hrest, hvalid, -, hrestWork, hsum, -, -⟩ | ⟨hrest, hall, -⟩
  · have hrestMem : a.follow arrival.2 ∈ rest.work := by
      rw [hrestWork, ← List.map_uncurry_zip_eq_zipWith]
      exact List.mem_map_of_mem (f := Function.uncurry fun a arrival => a.follow arrival.2) hzip
    have hrestShare := hvalid.share_eq hrestMem ((congrArg (·.id) hfollow).trans hid) progress
    rw [hfollowProgress, show rest.packs.value = source.packs.value - command.packs.value by omega]
      at hrestShare
    rw [hrest]
    refine ⟨by omega, ?_⟩
    simp only [Option.toList_some, List.singleton_append, packsAt_cons, packsAt_nil, hrestShare,
      hmovedShare, Nat.add_zero]
  · rw [hrest, hall]
    refine ⟨le_rfl, ?_⟩
    rw [hall] at hmovedShare
    simp [hmovedShare]

/-- The groups a movement writes are part of the requirements the moved group was part of. -/
theorem mem_work_move {g : PhysicalStockGroup}
    (hg : g ∈ movement.remaining.toList ++ [movement.moved]) {b : WorkAllocation}
    (hb : b ∈ g.work) :
    ∃ a ∈ source.work, b.requirement.id = a.requirement.id ∧
      (b.requirement ∈ movement.workUpdates ∨ b.requirement = a.requirement) := by
  obtain ⟨arrivals, -, -, -, harrivals, hupdates, hmovedWork, hcase⟩ :=
    MovementCommand.plan_eq_ok h
  have hmem : ∃ a arrival, (a, arrival) ∈ source.work.zip arrivals ∧
      b.requirement = arrival.1.requirement := by
    rcases List.mem_append.mp hg with hg | hg
    · rcases hcase with ⟨rest, hrest, -, -, hrestWork, -⟩ | ⟨hrest, -⟩
      · rw [hrest] at hg
        obtain rfl : g = rest := by simpa using hg
        rw [hrestWork, ← List.map_uncurry_zip_eq_zipWith] at hb
        obtain ⟨⟨a, arrival⟩, hzip, rfl⟩ := List.mem_map.mp hb
        exact ⟨a, arrival, hzip,
          (arrive_spec ((List.forall₂_iff_zip.mp harrivals).2 hzip)).2.2.1⟩
      · rw [hrest] at hg
        cases hg
    · obtain rfl := List.mem_singleton.mp hg
      rw [hmovedWork] at hb
      obtain ⟨arrival, harrival, rfl⟩ := List.mem_map.mp hb
      obtain ⟨a, hzip⟩ : ∃ a, (a, arrival) ∈ source.work.zip arrivals := by
        rw [← List.map_snd_zip harrivals.length_eq.ge] at harrival
        obtain ⟨⟨a, _⟩, hzip, rfl⟩ := List.mem_map.mp harrival
        exact ⟨a, hzip⟩
      exact ⟨a, arrival, hzip, rfl⟩
  obtain ⟨a, arrival, hzip, heq⟩ := hmem
  obtain ⟨hid, -, -, -, hcases⟩ := arrive_spec ((List.forall₂_iff_zip.mp harrivals).2 hzip)
  obtain ⟨ha, harrival⟩ := List.of_mem_zip hzip
  refine ⟨a, ha, heq ▸ hid, ?_⟩
  rw [heq]
  split at hcases
  · left
    rw [hupdates]
    exact List.mem_filterMap.mpr ⟨arrival, harrival, hcases.1⟩
  · exact .inr (by rw [hcases.2])

/-- The updates of a movement are the requirements some packs arrived for. -/
theorem mem_workUpdates (update : WorkRequirement) :
    update ∈ movement.workUpdates ↔ ∃ a ∈ source.work, a.Arrives command.toLocation ∧
      a.requirement.complete command.packs = .ok update := by
  obtain ⟨arrivals, -, -, -, harrivals, hupdates, -⟩ := MovementCommand.plan_eq_ok h
  rw [hupdates, List.mem_filterMap]
  constructor
  · rintro ⟨arrival, harrival, hsome⟩
    rw [← List.map_snd_zip harrivals.length_eq.ge] at harrival
    obtain ⟨⟨a, _⟩, hzip, rfl⟩ := List.mem_map.mp harrival
    obtain ⟨-, -, -, -, hcases⟩ := arrive_spec ((List.forall₂_iff_zip.mp harrivals).2 hzip)
    by_cases harrives : a.Arrives command.toLocation
    · rw [if_pos harrives] at hcases
      obtain rfl := Option.some.inj (hcases.1.symm.trans hsome)
      exact ⟨a, (List.of_mem_zip hzip).1, harrives, hcases.2⟩
    · rw [if_neg harrives] at hcases
      cases hcases.1.symm.trans hsome
  · rintro ⟨a, ha, harrives, hcomplete⟩
    obtain ⟨arrival, hzip, harrive⟩ := exists_zip_of_forall₂ harrivals ha
    obtain ⟨-, -, -, -, hcases⟩ := arrive_spec harrive
    rw [if_pos harrives] at hcases
    refine ⟨arrival, (List.of_mem_zip hzip).2, ?_⟩
    rw [hcases.1, Except.ok.inj (hcases.2.symm.trans hcomplete)]

theorem writes_move (hledger : ledger.Sound) (hsource : source ∈ ledger.groups)
    (hfresh : separatedGroupId ∉ ledger.groups.map (·.id)) :
    ledger.Writes movement.workUpdates [source]
      (movement.remaining.toList ++ [movement.moved]) := by
  have hvalid := hledger.valid source hsource
  have hsourceShare : ∀ a ∈ source.work, ∀ progress, packsAt [source] a.requirement.id progress =
      if a.progress = progress then source.packs.value else 0 := by
    intro a ha progress
    simpa using hvalid.share_eq ha rfl progress
  have hnone : ∀ id, (∀ a ∈ source.work, a.requirement.id ≠ id) → ∀ progress,
      packsAt [source] id progress = 0 ∧
        packsAt (movement.remaining.toList ++ [movement.moved]) id progress = 0 := by
    intro id hid progress
    refine ⟨by simpa using share_eq_zero hid progress, List.sum_eq_zero fun n hn => ?_⟩
    obtain ⟨g, hg, rfl⟩ := List.mem_map.mp hn
    refine share_eq_zero (fun b hb hb' => ?_) progress
    obtain ⟨a, ha, heq, -⟩ := mem_work_move h hg hb
    exact hid a ha (heq.symm.trans hb')
  obtain ⟨arrivals, -, hmoved, -, harrivals, hupdates, -, hcase⟩ := MovementCommand.plan_eq_ok h
  refine {
    updates_nodup := hupdates ▸ hvalid.work_nodup.sublist (arrivals_sublist harrivals)
    removed_mem := by simpa using hsource
    removed_nodup := by simp
    added_nodup := ?_
    added_fresh := ?_
    shaped := ?_
    copies := fun g hg b hb => ?_
    kept := fun r _ hkept => ?_
    changed := fun update hupdate => .inl ?_ }
  · rcases hcase with ⟨rest, hrest, -, hid, -, -, hmovedId, hne⟩ | ⟨hrest, -, -⟩
    · simpa [hrest, hid, hmovedId] using hne.symm
    · simp [hrest]
  · rcases hcase with ⟨rest, hrest, -, hid, -, -, hmovedId, -⟩ | ⟨hrest, -, hid⟩
    · simpa [hrest, hid, hmovedId] using Or.inr hfresh
    · simp [hrest, hid]
  · rcases hcase with ⟨rest, hrest, hrestValid, -⟩ | ⟨hrest, -⟩
    · simpa [hrest] using ⟨hrestValid.toShaped, hmoved.toShaped⟩
    · simpa [hrest] using hmoved.toShaped
  · obtain ⟨a, ha, -, hmem | heq⟩ := mem_work_move h hg hb
    · exact .inl hmem
    · exact .inr (heq ▸ hledger.copies source hsource a ha)
  · -- without an update, no packs arrived
    by_cases hpart : ∃ a ∈ source.work, a.requirement.id = r.id
    · obtain ⟨a, ha, hid⟩ := hpart
      have hstays : ¬ a.Arrives command.toLocation := by
        intro harrives
        obtain ⟨arrival, -, harrive⟩ := exists_zip_of_forall₂ harrivals ha
        have hcases := (arrive_spec harrive).2.2.2.2
        rw [if_pos harrives] at hcases
        have hmem := (mem_workUpdates h _).mpr ⟨a, ha, harrives, hcases.2⟩
        refine hkept (hid ▸ ?_)
        rw [← (arrive_spec harrive).1]
        exact List.mem_map_of_mem hmem
      have hsame : ∀ progress, packsAt (movement.remaining.toList ++ [movement.moved]) r.id progress
          = packsAt [source] r.id progress := by
        intro progress
        rw [← hid, hsourceShare a ha]
        obtain ⟨hle, heq⟩ := packsAt_move h ha progress
        rw [heq, progressAfter, if_neg hstays]
        split <;> omega
      constructor <;> rw [hsame]
    · have hzero := hnone r.id fun a ha hid => hpart ⟨a, ha, hid⟩
      constructor <;> simp [hzero]
  · obtain ⟨a, ha, harrives, hcomplete⟩ := (mem_workUpdates h update).mp hupdate
    have htarget : a.requirement.target.isSome = true := by
      obtain ⟨target, htarget, -⟩ := harrives.2
      rw [Option.mem_def.mp htarget]
      rfl
    refine ⟨a.requirement, hledger.copies source hsource a ha, continues_complete hcomplete htarget,
      ?_⟩
    obtain ⟨-, -, -, -, -, -, hcompleted, hdropped, hremaining⟩ :=
      WorkRequirement.complete_eq_ok hcomplete
    have hadded := packsAt_move h ha
    have hafter : progressAfter a command.toLocation = .completed := if_pos harrives
    constructor
    · rw [hsourceShare a ha, (hadded _).2, hafter, harrives.1]
      have := (hadded .pending).1
      simp
      omega
    · rw [hsourceShare a ha, (hadded _).2, hafter, harrives.1]
      simp
      omega
    · rw [hsourceShare a ha, (hadded _).2, hafter, harrives.1, hdropped]
      simp

end

end Move

/-! ## Replanning and new work -/

/-- Groups that are exchanged one for one, each as far as the other. -/
theorem packsAt_congr {R : PhysicalStockGroup → PhysicalStockGroup → Prop}
    {groups' : List PhysicalStockGroup} (h : List.Forall₂ R groups groups')
    (hpacks : ∀ g g', R g g' → g'.packs = g.packs)
    (hat : ∀ g g', R g g' → (g'.AtProgress id progress ↔ g.AtProgress id progress)) :
    packsAt groups' id progress = packsAt groups id progress := by
  refine congrArg List.sum (map_eq_of_forall₂ h fun g g' hR => ?_).symm
  simp only [share, hat g g' hR, hpacks g g' hR]

/-- How far a group is after a replan. -/
theorem atProgress_of_replans {previous replacement : WorkRequirement}
    {before after : PhysicalStockGroup} (h : work.Replans previous replacement before after)
    (hid : previous.id = work.id) (id : HubRecordId) (progress : WorkProgress) :
    after.AtProgress id progress ↔ (id = work.id ∧ progress = .noLongerRequired) ∨
      (id = replacement.id ∧ progress = .pending) ∨
      (id ≠ work.id ∧ before.AtProgress id progress) := by
  simp only [AtProgress, h.mem_work]
  constructor
  · rintro ⟨a, rfl | rfl | ⟨ha, hne⟩, haid, rfl⟩
    · exact .inl ⟨haid.symm.trans hid, rfl⟩
    · exact .inr (.inl ⟨haid.symm, rfl⟩)
    · exact .inr (.inr ⟨haid ▸ hne, a, ha, haid, rfl⟩)
  · rintro (⟨rfl, rfl⟩ | ⟨rfl, rfl⟩ | ⟨hne, a, ha, rfl, rfl⟩)
    · exact ⟨_, .inl rfl, hid, rfl⟩
    · exact ⟨_, .inr (.inl rfl), rfl, rfl⟩
    · exact ⟨a, .inr (.inr ⟨ha, hne⟩), rfl, rfl⟩

theorem writes_replan {command : ReplanCommand} {pendingGroups : List PhysicalStockGroup}
    {replacementId : HubRecordId} {replan : ReplanPlan}
    (h : command.plan catalog stockRevision work pendingGroups replacementId = .ok replan)
    (hledger : ledger.Sound) (hwork : work ∈ ledger.requirements)
    (hgroups : ∀ g ∈ pendingGroups, g ∈ ledger.groups)
    (hfresh : replacementId ∉ ledger.requirements.map (·.id)) :
    ledger.Writes [replan.previous, replan.replacement] pendingGroups replan.groups := by
  obtain ⟨hprevious, hreplacement, hne, hquantity, hnodup, hsum, hreplans⟩ :=
    ReplanCommand.plan_eq_ok h
  obtain ⟨hid, htrace, hvariant, htarget, hrequired, hcompleted, hdropped, hremaining⟩ :=
    WorkRequirement.retireRemaining_eq_ok hprevious
  have hids : replan.groups.map (·.id) = pendingGroups.map (·.id) :=
    (map_eq_of_forall₂ hreplans fun g g' hR => hR.id_eq.symm).symm
  have hpacks : (replan.groups.map fun g => g.packs.value).sum = work.quantity.remaining.value := by
    rw [← hsum]
    exact congrArg List.sum (map_eq_of_forall₂ hreplans fun g g' hR => by rw [hR.packs_eq]).symm
  -- every group was pending on the work
  have hbefore : ∀ g ∈ pendingGroups, ∀ progress,
      g.AtProgress work.id progress ↔ progress = .pending := by
    intro g hg progress
    obtain ⟨g', -, hR⟩ := exists_of_forall₂ hreplans hg
    constructor
    · rintro ⟨a, ha, haid, rfl⟩
      rw [List.inj_on_of_nodup_map hR.valid.work_nodup ha hR.pending haid]
    · rintro rfl
      exact ⟨_, hR.pending, rfl, rfl⟩
  have hafter : ∀ g' ∈ replan.groups, ∃ g ∈ pendingGroups, ∀ id progress,
      g'.AtProgress id progress ↔ (id = work.id ∧ progress = .noLongerRequired) ∨
        (id = replacementId ∧ progress = .pending) ∨
        (id ≠ work.id ∧ g.AtProgress id progress) := by
    intro g' hg'
    obtain ⟨g, hg, hR⟩ := exists_of_forall₂ hreplans.flip hg'
    exact ⟨g, hg, fun id progress => hreplacement ▸ atProgress_of_replans hR hid id progress⟩
  have hunused := hledger.not_atProgress hgroups hfresh
  refine {
    updates_nodup := by simpa [hid, hreplacement] using hne.symm
    removed_mem := hgroups
    removed_nodup := hnodup
    added_nodup := hids ▸ hnodup
    added_fresh := fun g' hg' => .inl (hids ▸ List.mem_map_of_mem hg')
    shaped := fun g' hg' => ?_
    copies := fun g' hg' a ha => ?_
    kept := fun r _ hkept => ?_
    changed := fun update hupdate => ?_ }
  · obtain ⟨g, -, hR⟩ := exists_of_forall₂ hreplans.flip hg'
    exact hR.after_valid.toShaped
  · obtain ⟨g, hg, hR⟩ := exists_of_forall₂ hreplans.flip hg'
    rcases (hR.mem_work a).mp ha with rfl | rfl | ⟨hold, -⟩
    · exact .inl (by simp)
    · exact .inl (by simp)
    · exact .inr (hledger.copies g (hgroups g hg) a hold)
  · simp only [List.map_cons, List.map_nil, List.mem_cons, List.not_mem_nil, or_false, not_or, hid,
      hreplacement] at hkept
    have hsame : ∀ progress, packsAt replan.groups r.id progress =
        packsAt pendingGroups r.id progress := fun progress =>
      packsAt_congr hreplans (fun g g' hR => hR.packs_eq) fun g g' hR => by
        rw [atProgress_of_replans hR hid, hreplacement]
        simp [hkept]
    constructor <;> rw [hsame]
  · rcases List.mem_pair.mp hupdate with rfl | rfl
    · -- the old requirement: what was pending is no longer required
      have hat : ∀ g' ∈ replan.groups, ∀ progress,
          g'.AtProgress work.id progress ↔ progress = .noLongerRequired := by
        intro g' hg' progress
        obtain ⟨g, -, hiff⟩ := hafter g' hg'
        simp [hiff, hne.symm]
      refine .inl ⟨work, hwork, ⟨hid, htrace, hvariant, htarget, fun hvalid => ?_⟩, ?_⟩
      · simp only [WorkRequirement.validate, refuse_eq_ok, htarget, hrequired, hcompleted]
          at hvalid ⊢
        exact hvalid
      · have hpending : packsAt pendingGroups work.id .pending = work.quantity.remaining.value := by
          rw [packsAt_eq_sum fun g hg => (hbefore g hg _).mpr rfl, hsum]
        have hzero : packsAt replan.groups work.id .pending = 0 :=
          packsAt_eq_zero fun g hg hc => by simpa using (hat g hg _).mp hc
        have hzero' : packsAt replan.groups work.id .completed = 0 :=
          packsAt_eq_zero fun g hg hc => by simpa using (hat g hg _).mp hc
        have hall : packsAt replan.groups work.id .noLongerRequired =
            work.quantity.remaining.value := by
          rw [packsAt_eq_sum fun g hg => (hat g hg _).mpr rfl, hpacks]
        constructor
        · omega
        · rw [hcompleted]
          omega
        · omega
    · -- its replacement: all of that is pending
      have hat : ∀ g' ∈ replan.groups, ∀ progress,
          g'.AtProgress replacementId progress ↔ progress = .pending := by
        intro g' hg' progress
        obtain ⟨g, hg, hiff⟩ := hafter g' hg'
        simp [hiff, hne, hunused g hg]
      refine .inr ⟨hreplacement ▸ hfresh, ?_⟩
      rw [hreplacement, hquantity]
      exact shifts_new hunused hat hpacks

theorem writes_newWork {command : NewWorkCommand} {requirementId : HubRecordId}
    {posted : NewWorkPlan}
    (h : command.plan catalog stockRevision groups requirementId = .ok posted)
    (hledger : ledger.Sound) (hgroups : ∀ g ∈ groups, g ∈ ledger.groups)
    (hfresh : requirementId ∉ ledger.requirements.map (·.id)) :
    ledger.Writes [posted.requirement] groups posted.groups := by
  obtain ⟨hid, hnodup, ⟨quantity, hquantity, hsum⟩, hadds⟩ := NewWorkCommand.plan_eq_ok h
  have hids : posted.groups.map (·.id) = groups.map (·.id) :=
    (map_eq_of_forall₂ hadds fun g g' hR => hR.id_eq.symm).symm
  have hpacks : (posted.groups.map fun g => g.packs.value).sum = quantity.value := by
    rw [hsum]
    exact congrArg List.sum (map_eq_of_forall₂ hadds fun g g' hR => by rw [hR.packs_eq]).symm
  have hat : ∀ g g', posted.requirement.Adds g g' → ∀ id progress,
      g'.AtProgress id progress ↔ g.AtProgress id progress ∨
        (id = requirementId ∧ progress = .pending) := by
    intro g g' hR id progress
    simp only [AtProgress, hR.mem_work]
    constructor
    · rintro ⟨a, ha | rfl, haid, rfl⟩
      · exact .inl ⟨a, ha, haid, rfl⟩
      · exact .inr ⟨haid.symm.trans hid, rfl⟩
    · rintro (⟨a, ha, haid, rfl⟩ | ⟨rfl, rfl⟩)
      · exact ⟨a, .inl ha, haid, rfl⟩
      · exact ⟨_, .inr rfl, hid, rfl⟩
  have hunused := hledger.not_atProgress hgroups hfresh
  refine {
    updates_nodup := by simp
    removed_mem := hgroups
    removed_nodup := hnodup
    added_nodup := hids ▸ hnodup
    added_fresh := fun g' hg' => .inl (hids ▸ List.mem_map_of_mem hg')
    shaped := fun g' hg' => ?_
    copies := fun g' hg' a ha => ?_
    kept := fun r _ hkept => ?_
    changed := fun update hupdate => .inr ?_ }
  · obtain ⟨g, -, hR⟩ := exists_of_forall₂ hadds.flip hg'
    exact hR.after_valid.toShaped
  · obtain ⟨g, hg, hR⟩ := exists_of_forall₂ hadds.flip hg'
    rcases (hR.mem_work a).mp ha with hold | rfl
    · exact .inr (hledger.copies g (hgroups g hg) a hold)
    · exact .inl (by simp)
  · have hne : r.id ≠ requirementId := by simpa [hid] using hkept
    have hsame : ∀ progress, packsAt posted.groups r.id progress = packsAt groups r.id progress :=
      fun progress => packsAt_congr hadds (fun g g' hR => hR.packs_eq) fun g g' hR => by
        simp [hat g g' hR, hne]
    constructor <;> rw [hsame]
  · obtain rfl := List.mem_singleton.mp hupdate
    have hafter : ∀ g' ∈ posted.groups, ∀ progress,
        g'.AtProgress requirementId progress ↔ progress = .pending := by
      intro g' hg' progress
      obtain ⟨g, hg, hR⟩ := exists_of_forall₂ hadds.flip hg'
      simp [hat g g' hR, hunused g hg]
    rw [hid, hquantity]
    exact ⟨hfresh, shifts_new hunused hafter hpacks⟩

/-! ## Stock that leaves -/

/-- Stock leaves, and the work pending on it is dropped: each account by what was pending. -/
theorem writes_retire (hledger : ledger.Sound) (hupdates : (updates.map (·.id)).Nodup)
    (hremoved : ∀ g ∈ removed, g ∈ ledger.groups) (hnodup : (removed.map (·.id)).Nodup)
    (hadded : (added.map (·.id)).Nodup)
    (hparts : ∀ g ∈ added, g.Shaped ∧ ∃ g₀ ∈ removed, g.id = g₀.id ∧ g.work = g₀.work)
    (hless : ∀ id progress, packsAt added id progress ≤ packsAt removed id progress)
    (hkept : ∀ id, id ∉ updates.map (·.id) →
      packsAt added id .pending = packsAt removed id .pending)
    (hretires : ∀ update ∈ updates, ∃ r ∈ ledger.requirements, ∃ packs, r.Retires update packs ∧
      packs.value + packsAt added r.id .pending = packsAt removed r.id .pending) :
    ledger.Writes updates removed added := by
  refine {
    updates_nodup := hupdates
    removed_mem := hremoved
    removed_nodup := hnodup
    added_nodup := hadded
    added_fresh := fun g hg => ?_
    shaped := fun g hg => (hparts g hg).1
    copies := fun g hg a ha => ?_
    kept := fun r _ hr => ⟨?_, ?_, ?_⟩
    changed := fun update hupdate => .inl ?_ }
  · obtain ⟨-, g₀, hg₀, hid, -⟩ := hparts g hg
    exact .inl (hid ▸ List.mem_map_of_mem hg₀)
  · obtain ⟨-, g₀, hg₀, -, hwork⟩ := hparts g hg
    exact .inr (hledger.copies g₀ (hremoved g₀ hg₀) a (hwork ▸ ha))
  · rw [hkept r.id hr]
  · have := hless r.id .completed
    omega
  · have := hless r.id .noLongerRequired
    omega
  · obtain ⟨r, hr, packs, hretire, hpacks⟩ := hretires update hupdate
    refine ⟨r, hr, hretire.continues, ?_, ?_, ?_⟩
    · have := hretire.remaining_eq
      omega
    · have := hless r.id .completed
      rw [hretire.completed_eq]
      omega
    · have := hless r.id .noLongerRequired
      have := hretire.noLongerRequired_eq
      omega

/-- Whole groups leave, on a departure or for disposal. -/
theorem writes_leave {consumed : List ConsumedStockGroup} {changes : List DepartureWorkChange}
    (h : retiredWork consumed = .ok changes) (hledger : ledger.Sound)
    (hgroups : ∀ c ∈ consumed, c.before ∈ ledger.groups)
    (hnodup : (consumed.map (·.before.id)).Nodup) :
    ledger.Writes (changes.map (·.after)) (consumed.map (·.before)) [] := by
  obtain ⟨-, hsorted, hchanges, hcopies, hall⟩ := retiredWork_eq_ok h
  have hids : (changes.map (·.after)).map (·.id) = changes.map (·.before.id) := by
    rw [List.map_map]
    exact List.map_congr_left fun change hchange => (hchanges change hchange).1.id_eq
  refine writes_retire hledger ?_ ?_ ?_ List.nodup_nil (by simp) (by simp) ?_ ?_
  · rw [hids]
    exact List.pairwise_map.mpr (hsorted.imp fun hlt => hlt.ne)
  · intro g hg
    obtain ⟨c, hc, rfl⟩ := List.mem_map.mp hg
    exact hgroups c hc
  · rw [List.map_map]
    exact hnodup
  · intro id hid
    rw [hids] at hid
    by_contra hne
    obtain ⟨change, hchange, rfl⟩ := hall id (Nat.pos_of_ne_zero (Ne.symm hne))
    exact hid (List.mem_map_of_mem hchange)
  · intro update hupdate
    obtain ⟨change, hchange, rfl⟩ := List.mem_map.mp hupdate
    obtain ⟨hexact, hpos, hretired⟩ := hchanges change hchange
    -- what was retired was pending on some group, which has the requirement as the change does
    obtain ⟨g, hg, a, ha, hid, -⟩ := exists_atProgress_of_pos (hretired ▸ hpos)
    obtain ⟨c, hc, rfl⟩ := List.mem_map.mp hg
    have hsame := hcopies c hc a ha change hchange hid.symm
    refine ⟨change.before, ?_, change.retired, hexact, ?_⟩
    · rw [hsame]
      exact hledger.copies c.before (hgroups c hc) a ha
    · simpa using hretired

/-- What is left of a group some packs of which are gone: nothing if all are. -/
def leftover (group : PhysicalStockGroup) (packs : WholePacks) (revision : HubRevision)
    (causalFloor : Option UnixTimestamp) : List PhysicalStockGroup :=
  if packs.value = 0 then [] else [{ group with packs, revision, causalFloor }]

theorem share_leftover (group : PhysicalStockGroup) (packs : WholePacks) (revision : HubRevision)
    (causalFloor : Option UnixTimestamp) (id : HubRecordId) (progress : WorkProgress) :
    packsAt (leftover group packs revision causalFloor) id progress =
      if group.AtProgress id progress then packs.value else 0 := by
  unfold leftover
  split
  · simp [*]
  · simp only [packsAt_cons, packsAt_nil, Nat.add_zero]
    exact share_of_stages rfl id progress

/-- Some packs of a group are gone, by a count or an actual departure. -/
theorem writes_reduce {after : WholePacks} (revision : HubRevision)
    (causalFloor : Option UnixTimestamp) (hledger : ledger.Sound) (hgroup : group ∈ ledger.groups)
    (hsum : packs.value + after.value = group.packs.value)
    (hretires : List.Forall₂ (fun a update => a.requirement.Retires update packs)
      group.pendingWork updates) :
    ledger.Writes updates [group] (leftover group after revision causalFloor) := by
  have hvalid := hledger.valid group hgroup
  have hids : updates.map (·.id) = group.pendingWork.map fun a => a.requirement.id :=
    (map_eq_of_forall₂ hretires fun a update hR => hR.id_eq.symm).symm
  have hmem : ∀ a ∈ group.pendingWork, a ∈ group.work ∧ a.progress = .pending := by
    intro a ha
    simpa [pendingWork] using ha
  have hpending : ∀ id, group.AtProgress id .pending ↔ id ∈ updates.map (·.id) := by
    intro id
    rw [hids, List.mem_map]
    constructor
    · rintro ⟨a, ha, hid, hprogress⟩
      exact ⟨a, by simpa [pendingWork] using ⟨ha, hprogress⟩, hid⟩
    · rintro ⟨a, ha, hid⟩
      exact ⟨a, (hmem a ha).1, hid, (hmem a ha).2⟩
  refine writes_retire hledger ?_ (by simpa using hgroup) (by simp) ?_ ?_ ?_ ?_ ?_
  · rw [hids]
    exact hvalid.work_nodup.sublist (List.filter_sublist.map _)
  · unfold leftover
    split <;> simp
  · intro g hg
    unfold leftover at hg
    split at hg
    · cases hg
    · rename_i hpos
      obtain rfl := List.mem_singleton.mp hg
      refine ⟨?_, group, by simp, rfl, rfl⟩
      exact { hvalid.toShaped with positive := Nat.pos_of_ne_zero hpos }
  · intro id progress
    rw [share_leftover, packsAt_cons, packsAt_nil, share]
    split <;> omega
  · intro id hid
    rw [share_leftover, packsAt_cons, packsAt_nil, share]
    simp [hpending, hid]
  · intro update hupdate
    obtain ⟨a, ha, hretire⟩ := exists_of_forall₂ hretires.flip hupdate
    obtain ⟨hwork, hprogress⟩ := hmem a ha
    refine ⟨a.requirement, hledger.copies group hgroup a hwork, packs, hretire, ?_⟩
    have hat : group.AtProgress a.requirement.id .pending := ⟨a, hwork, rfl, hprogress⟩
    rw [share_leftover, packsAt_cons, packsAt_nil, share, if_pos hat, if_pos hat]
    omega

end WorkLedger

end HarvestCircle
