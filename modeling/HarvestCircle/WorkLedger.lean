import Mathlib.Algebra.Order.BigOperators.Group.List
import Mathlib.Algebra.Order.Group.Nat
import HarvestCircle.Table
import HarvestCircle.Movement

/-! # The work of all groups together

A requirement is kept once, in a table, and every group that is part of it carries a
copy.  Writing a plan back changes rows of the table, exchanges some groups for others
and renews the copies of all groups.

`WorkLedger.Sound` says that the accounts of the requirements match the groups on hand.
It survives a write that shifts each account by as much as it shifts the groups
(`Sound.write`), so a planner only has to be shown to do that.
-/
namespace HarvestCircle
open Checked

namespace PhysicalStockGroup

/-- The requirements a group is part of and how far it is with each. -/
def stages (group : PhysicalStockGroup) : List (HubRecordId × WorkProgress) :=
  group.work.map fun a => (a.requirement.id, a.progress)

variable {group : PhysicalStockGroup}

theorem atProgress_iff {id : HubRecordId} {progress : WorkProgress} :
    group.AtProgress id progress ↔ (id, progress) ∈ group.stages := by
  simp [AtProgress, stages]

/-- A group with the same stages has the same share of its packs. -/
theorem share_of_stages {other : PhysicalStockGroup} (h : group.stages = other.stages)
    (id : HubRecordId) (progress : WorkProgress) :
    group.share id progress = if other.AtProgress id progress then group.packs.value else 0 := by
  simp only [share, atProgress_iff, h]

@[simp] theorem packsAt_nil (id : HubRecordId) (progress : WorkProgress) :
    packsAt [] id progress = 0 := rfl

@[simp] theorem packsAt_cons (group : PhysicalStockGroup) (groups : List PhysicalStockGroup)
    (id : HubRecordId) (progress : WorkProgress) :
    packsAt (group :: groups) id progress = group.share id progress + packsAt groups id progress :=
  List.sum_cons

theorem share_le_packsAt {groups : List PhysicalStockGroup} (h : group ∈ groups) (id : HubRecordId)
    (progress : WorkProgress) : group.share id progress ≤ packsAt groups id progress :=
  List.le_sum_of_mem (List.mem_map_of_mem h)

/-- The group with its copies of changed requirements renewed. -/
def refresh (updates : List WorkRequirement) (group : PhysicalStockGroup) : PhysicalStockGroup :=
  { group with work := group.work.map fun a => { a with
      requirement := (updates.find? fun r => r.id = a.requirement.id).getD a.requirement } }

/-- A renewed copy is one of the updates, or the copy itself where there is none. -/
theorem renewed_cases (updates : List WorkRequirement) (requirement : WorkRequirement) :
    (∃ update ∈ updates, update.id = requirement.id ∧
      (updates.find? fun r => r.id = requirement.id).getD requirement = update) ∨
    (requirement.id ∉ updates.map (·.id) ∧
      (updates.find? fun r => r.id = requirement.id).getD requirement = requirement) := by
  cases hfind : updates.find? fun r => r.id = requirement.id with
  | some update =>
    exact .inl ⟨update, List.mem_of_find?_eq_some hfind,
      by simpa using List.find?_some hfind, rfl⟩
  | none =>
    refine .inr ⟨fun hmem => ?_, rfl⟩
    obtain ⟨update, hupdate, hid⟩ := List.mem_map.mp hmem
    exact absurd hid (by simpa using List.find?_eq_none.mp hfind update hupdate)

theorem stages_refresh (updates : List WorkRequirement) (group : PhysicalStockGroup) :
    (group.refresh updates).stages = group.stages := by
  simp only [stages, refresh, List.map_map]
  refine List.map_congr_left fun a _ => ?_
  rcases renewed_cases updates a.requirement with ⟨update, -, hid, heq⟩ | ⟨-, heq⟩
  · simp [heq, hid]
  · simp [heq]

theorem packsAt_refresh (updates : List WorkRequirement) (groups : List PhysicalStockGroup)
    (id : HubRecordId) (progress : WorkProgress) :
    packsAt (groups.map (refresh updates)) id progress = packsAt groups id progress := by
  simp only [packsAt, List.map_map]
  refine congrArg List.sum (List.map_congr_left fun group _ => ?_)
  exact share_of_stages (stages_refresh updates group) id progress

end PhysicalStockGroup

/-- The requirement is the same one, with another account. -/
structure WorkRequirement.Continues (before after : WorkRequirement) : Prop where
  id_eq : after.id = before.id
  trace_eq : after.trace = before.trace
  variant_eq : after.variant = before.variant
  target_eq : after.target = before.target
  valid : before.validate = .ok () → after.validate = .ok ()

theorem WorkRequirement.Continues.refl (requirement : WorkRequirement) :
    requirement.Continues requirement := ⟨rfl, rfl, rfl, rfl, fun h => h⟩

theorem WorkRequirement.Retires.continues {before after : WorkRequirement} {packs : WholePacks}
    (h : before.Retires after packs) : before.Continues after := by
  refine ⟨h.id_eq, h.trace_eq, h.variant_eq, h.target_eq, fun hvalid => ?_⟩
  simp only [validate, refuse_eq_ok] at hvalid ⊢
  rw [h.target_eq, h.required_eq, h.completed_eq]
  exact hvalid

/-- Renewed copies do not change what a group satisfies by itself. -/
theorem PhysicalStockGroup.Shaped.refresh {group : PhysicalStockGroup} (h : group.Shaped)
    {updates : List WorkRequirement} (hcontinues : ∀ a ∈ group.work, ∀ update ∈ updates,
      update.id = a.requirement.id → a.requirement.Continues update) :
    (group.refresh updates).Shaped := by
  have hrenewed : ∀ a ∈ group.work, a.requirement.Continues
      ((updates.find? fun r => r.id = a.requirement.id).getD a.requirement) := by
    intro a ha
    rcases renewed_cases updates a.requirement with ⟨update, hupdate, hid, heq⟩ | ⟨-, heq⟩
    · rw [heq]
      exact hcontinues a ha update hupdate hid
    · rw [heq]
      exact .refl _
  have hids : (group.refresh updates).work.map (fun a => a.requirement.id) =
      group.work.map fun a => a.requirement.id := by
    simpa [stages, Function.comp_def] using
      congrArg (List.map Prod.fst) (stages_refresh updates group)
  refine {
    positive := h.positive
    parent_ne := h.parent_ne
    identified := h.identified
    work_length := by simpa [PhysicalStockGroup.refresh] using h.work_length
    work_nodup := hids ▸ h.work_nodup
    requirement_valid := fun a' ha' => ?_
    trace_eq := fun a' ha' => ?_
    variant_eq := fun a' ha' => ?_
    pending_target := fun a' ha' => ?_ }
  all_goals
    obtain ⟨a, ha, rfl⟩ := List.mem_map.mp ha'
  · exact (hrenewed a ha).valid (h.requirement_valid a ha)
  · exact (hrenewed a ha).trace_eq.trans (h.trace_eq a ha)
  · exact (hrenewed a ha).variant_eq.trans (h.variant_eq a ha)
  · intro hpending target htarget
    rw [(hrenewed a ha).target_eq] at htarget
    exact h.pending_target a ha hpending target htarget

/-- The requirements and the groups on hand. -/
structure WorkLedger where
  requirements : List WorkRequirement
  groups : List PhysicalStockGroup

namespace WorkLedger
open PhysicalStockGroup

/-- A plan is written back: rows are changed or added, groups exchanged, copies renewed. -/
def write (ledger : WorkLedger) (updates : List WorkRequirement)
    (removed added : List PhysicalStockGroup) : WorkLedger where
  requirements := Table.replace (·.id) ledger.requirements (updates.map (·.id)) updates
  groups := (Table.replace (·.id) ledger.groups (removed.map (·.id)) added).map (refresh updates)

/-- The accounts match the groups on hand. -/
structure Sound (ledger : WorkLedger) : Prop where
  requirement_nodup : (ledger.requirements.map (·.id)).Nodup
  group_nodup : (ledger.groups.map (·.id)).Nodup
  copies : ∀ g ∈ ledger.groups, ∀ a ∈ g.work, a.requirement ∈ ledger.requirements
  valid : ∀ g ∈ ledger.groups, g.Valid
  remaining : ∀ r ∈ ledger.requirements,
    r.quantity.remaining.value = packsAt ledger.groups r.id .pending
  completed : ∀ r ∈ ledger.requirements,
    packsAt ledger.groups r.id .completed ≤ r.quantity.completed.value
  noLongerRequired : ∀ r ∈ ledger.requirements,
    packsAt ledger.groups r.id .noLongerRequired ≤ r.quantity.noLongerRequired.value

/-- The account of a requirement moves as much as the groups do. -/
structure Shifts (removed added : List PhysicalStockGroup) (id : HubRecordId)
    (before after : QuantityWork) : Prop where
  remaining : after.remaining.value + packsAt removed id .pending =
    before.remaining.value + packsAt added id .pending
  completed : before.completed.value + packsAt added id .completed ≤
    after.completed.value + packsAt removed id .completed
  noLongerRequired : before.noLongerRequired.value + packsAt added id .noLongerRequired ≤
    after.noLongerRequired.value + packsAt removed id .noLongerRequired

/-- What a plan must be for it to be written back. -/
structure Writes (ledger : WorkLedger) (updates : List WorkRequirement)
    (removed added : List PhysicalStockGroup) : Prop where
  updates_nodup : (updates.map (·.id)).Nodup
  removed_mem : ∀ g ∈ removed, g ∈ ledger.groups
  removed_nodup : (removed.map (·.id)).Nodup
  added_nodup : (added.map (·.id)).Nodup
  added_fresh : ∀ g ∈ added, g.id ∈ removed.map (·.id) ∨ g.id ∉ ledger.groups.map (·.id)
  shaped : ∀ g ∈ added, g.Shaped
  copies : ∀ g ∈ added, ∀ a ∈ g.work, a.requirement ∈ updates ∨ a.requirement ∈ ledger.requirements
  kept : ∀ r ∈ ledger.requirements, r.id ∉ updates.map (·.id) →
    Shifts removed added r.id r.quantity r.quantity
  changed : ∀ update ∈ updates,
    (∃ r ∈ ledger.requirements, r.Continues update ∧
      Shifts removed added r.id r.quantity update.quantity) ∨
    (update.id ∉ ledger.requirements.map (·.id) ∧
      Shifts removed added update.id (.pending .zero) update.quantity)

section
variable {ledger : WorkLedger} {updates : List WorkRequirement}
  {removed added : List PhysicalStockGroup}

/-- No group is part of a requirement that the table does not have. -/
theorem Sound.packsAt_eq_zero (h : ledger.Sound) {id : HubRecordId}
    (hid : id ∉ ledger.requirements.map (·.id)) (progress : WorkProgress) :
    packsAt ledger.groups id progress = 0 := by
  by_contra hne
  obtain ⟨g, hg, a, ha, rfl, -⟩ := exists_atProgress_of_pos (Nat.pos_of_ne_zero hne)
  exact hid (List.mem_map_of_mem (h.copies g hg a ha))

theorem Sound.packsAt_write (h : ledger.Sound) (hw : ledger.Writes updates removed added)
    (id : HubRecordId) (progress : WorkProgress) :
    packsAt (ledger.write updates removed added).groups id progress + packsAt removed id progress =
      packsAt ledger.groups id progress + packsAt added id progress := by
  rw [write, packsAt_refresh]
  exact Table.sum_replace _ h.group_nodup hw.removed_nodup hw.removed_mem

theorem Sound.copies_write (h : ledger.Sound) (hw : ledger.Writes updates removed added) :
    ∀ g ∈ (ledger.write updates removed added).groups, ∀ a ∈ g.work,
      a.requirement ∈ (ledger.write updates removed added).requirements := by
  intro g' hg' a' ha'
  obtain ⟨g, hg, rfl⟩ := List.mem_map.mp hg'
  obtain ⟨a, ha, rfl⟩ := List.mem_map.mp ha'
  rw [write, Table.mem_replace]
  rcases renewed_cases updates a.requirement with ⟨update, hupdate, -, heq⟩ | ⟨hkept, heq⟩
  · exact .inr (heq ▸ hupdate)
  · have hmem : a.requirement ∈ updates ∨ a.requirement ∈ ledger.requirements := by
      rcases Table.mem_replace.mp hg with ⟨hold, -⟩ | hnew
      · exact .inr (h.copies g hold a ha)
      · exact hw.copies g hnew a ha
    simp only [heq]
    exact .inl ⟨hmem.resolve_left fun hu => hkept (List.mem_map_of_mem hu), hkept⟩

/-- What happens to each row of the table. -/
theorem Sound.shifts_write (h : ledger.Sound) (hw : ledger.Writes updates removed added)
    {r' : WorkRequirement} (hr' : r' ∈ (ledger.write updates removed added).requirements) :
    ∃ before : QuantityWork, Shifts removed added r'.id before r'.quantity ∧
      before.remaining.value = packsAt ledger.groups r'.id .pending ∧
      packsAt ledger.groups r'.id .completed ≤ before.completed.value ∧
      packsAt ledger.groups r'.id .noLongerRequired ≤ before.noLongerRequired.value := by
  rcases Table.mem_replace.mp hr' with ⟨hold, hkept⟩ | hupdate
  · exact ⟨r'.quantity, hw.kept r' hold hkept, h.remaining r' hold, h.completed r' hold,
      h.noLongerRequired r' hold⟩
  · rcases hw.changed r' hupdate with ⟨r, hr, hcontinues, hshift⟩ | ⟨hfresh, hshift⟩
    · rw [hcontinues.id_eq]
      exact ⟨r.quantity, hshift, h.remaining r hr, h.completed r hr, h.noLongerRequired r hr⟩
    · refine ⟨_, hshift, (h.packsAt_eq_zero hfresh _).symm, ?_, ?_⟩
      · exact (h.packsAt_eq_zero hfresh _).le
      · exact (h.packsAt_eq_zero hfresh _).le

theorem Sound.shaped_write (h : ledger.Sound) (hw : ledger.Writes updates removed added) :
    ∀ g ∈ (ledger.write updates removed added).groups, g.Shaped := by
  intro g' hg'
  obtain ⟨g, hg, rfl⟩ := List.mem_map.mp hg'
  have hshaped : g.Shaped := by
    rcases Table.mem_replace.mp hg with ⟨hold, -⟩ | hnew
    · exact (h.valid g hold).toShaped
    · exact hw.shaped g hnew
  refine hshaped.refresh fun a ha update hupdate hid => ?_
  have hmem : a.requirement ∈ updates ∨ a.requirement ∈ ledger.requirements := by
    rcases Table.mem_replace.mp hg with ⟨hold, -⟩ | hnew
    · exact .inr (h.copies g hold a ha)
    · exact hw.copies g hnew a ha
  rcases hmem with hcurrent | hrow
  · rw [List.inj_on_of_nodup_map hw.updates_nodup hcurrent hupdate hid.symm]
    exact .refl _
  · rcases hw.changed update hupdate with ⟨r, hr, hcontinues, -⟩ | ⟨hfresh, -⟩
    · rw [List.inj_on_of_nodup_map h.requirement_nodup hrow hr
        (hid.symm.trans hcontinues.id_eq)]
      exact hcontinues
    · exact absurd (hid ▸ List.mem_map_of_mem hrow) hfresh

/-- **A balanced write keeps the accounts.** -/
theorem Sound.write (h : ledger.Sound) (hw : ledger.Writes updates removed added) :
    (ledger.write updates removed added).Sound := by
  have hcopies := h.copies_write hw
  have hsum := h.packsAt_write hw
  have hremaining : ∀ r ∈ (ledger.write updates removed added).requirements,
      r.quantity.remaining.value =
        packsAt (ledger.write updates removed added).groups r.id .pending := by
    intro r hr
    obtain ⟨before, hshift, hbefore, -, -⟩ := h.shifts_write hw hr
    have := hsum r.id .pending
    have := hshift.remaining
    omega
  have hcompleted : ∀ r ∈ (ledger.write updates removed added).requirements,
      packsAt (ledger.write updates removed added).groups r.id .completed ≤
        r.quantity.completed.value := by
    intro r hr
    obtain ⟨before, hshift, -, hbefore, -⟩ := h.shifts_write hw hr
    have := hsum r.id .completed
    have := hshift.completed
    omega
  have hdropped : ∀ r ∈ (ledger.write updates removed added).requirements,
      packsAt (ledger.write updates removed added).groups r.id .noLongerRequired ≤
        r.quantity.noLongerRequired.value := by
    intro r hr
    obtain ⟨before, hshift, -, -, hbefore⟩ := h.shifts_write hw hr
    have := hsum r.id .noLongerRequired
    have := hshift.noLongerRequired
    omega
  refine ⟨?_, ?_, hcopies, fun g hg => ⟨h.shaped_write hw g hg, fun a ha => ?_⟩, hremaining,
    hcompleted, hdropped⟩
  · exact Table.nodup_replace h.requirement_nodup hw.updates_nodup fun update hupdate =>
      .inl (List.mem_map_of_mem hupdate)
  · rw [WorkLedger.write, List.map_map]
    exact Table.nodup_replace h.group_nodup hw.added_nodup hw.added_fresh
  · -- the group is one of those whose packs the account covers
    have hshare : g.packs.value ≤
        packsAt (ledger.write updates removed added).groups a.requirement.id a.progress := by
      have hle := share_le_packsAt hg a.requirement.id a.progress
      rwa [share, if_pos ⟨a, ha, rfl, rfl⟩] at hle
    have hrow := hcopies g hg a ha
    cases hprogress : a.progress with
    | pending => exact hprogress ▸ hshare.trans (hprogress ▸ (hremaining _ hrow).ge)
    | completed => exact hprogress ▸ hshare.trans (hprogress ▸ hcompleted _ hrow)
    | noLongerRequired => exact hprogress ▸ hshare.trans (hprogress ▸ hdropped _ hrow)

end

end WorkLedger

end HarvestCircle
