import HarvestCircle.Counts
import HarvestCircle.Departure
import HarvestCircle.Table

/-! # A count is posted once, to the stock it counted

On one hub, counts are observed and posted while other operations change the same
groups.  What a plan is shown of all this is the current group, the last posted count
of the group and the last observation of it.

`Counts` says what a posted count compares.  Here these comparisons are read against
the whole history: the observation is still the last one, the last post is the one it
saw, and the group has the revision it had.  So nothing happened to the group since,
and in particular the observation has not been posted before.
-/
namespace HarvestCircle
open Checked

/-- What happens on a hub, as far as counts can tell. -/
inductive CountEvent where
  | observed (context : CountObservationContext) (count : CountObservation)
  | posted (current : CountContext) (plan : CountPostPlan)
  /-- Any other operation, with the groups it changes. -/
  | changed (operation : HubRecordId) (groups : List HubRecordId)

namespace CountEvent

def operation : CountEvent → HubRecordId
  | observed _ count => count.operation
  | posted _ plan => plan.operation
  | changed operation _ => operation

/-- The observation of a group that is made. -/
def observation (group : HubRecordId) : CountEvent → Option HubRecordId
  | observed _ count => if count.scope.group = group then some count.id else none
  | posted _ _ => none
  | changed _ _ => none

@[simp] theorem observation_self (context : CountObservationContext) (count : CountObservation) :
    (observed context count).observation count.scope.group = some count.id := if_pos rfl

/-- The reconciliation of a group that is made. -/
def reconciliation (group : HubRecordId) : CountEvent → Option HubRecordId
  | observed _ _ => none
  | posted _ plan => if plan.before.id = group then some plan.id else none
  | changed _ _ => none

/-- The group is not left as it was. -/
def Changes (group : HubRecordId) : CountEvent → Prop
  | observed _ _ => False
  | posted _ plan => plan.before.id = group ∧ ∃ packs afterPacks afterRevision changes,
      plan.effect = .shortage packs afterPacks afterRevision changes
  | changed _ groups => group ∈ groups

/-- The group is counted, reconciled or changed. -/
def Concerns (group : HubRecordId) (event : CountEvent) : Prop :=
  event.observation group ≠ none ∨ event.reconciliation group ≠ none ∨ event.Changes group

end CountEvent

/-- The groups of a hub and what was counted. -/
structure CountLedger where
  hub : HubId
  stockRevision : HubRevision
  groups : HubRecordId → Option PhysicalStockGroup
  /-- Newest first. -/
  history : List CountEvent

namespace CountLedger

def latestObservation (ledger : CountLedger) (group : HubRecordId) : Option HubRecordId :=
  ledger.history.findSome? (CountEvent.observation group)

def previousReconciliation (ledger : CountLedger) (group : HubRecordId) : Option HubRecordId :=
  ledger.history.findSome? (CountEvent.reconciliation group)

/-- A context shows what the ledger holds. -/
structure Shows (ledger : CountLedger) (context : CountObservationContext) : Prop where
  hub : context.hub = ledger.hub
  stockRevision : context.stockRevision = ledger.stockRevision
  group : ledger.groups context.group.id = some context.group
  previous : context.previousReconciliation = ledger.previousReconciliation context.group.id

/-- What a posted count does to the groups. -/
inductive Settles (groups : HubRecordId → Option PhysicalStockGroup) (plan : CountPostPlan) :
    (HubRecordId → Option PhysicalStockGroup) → Prop
  | kept : (∀ packs afterPacks afterRevision changes,
      plan.effect ≠ .shortage packs afterPacks afterRevision changes) → Settles groups plan groups
  | lowered {packs afterPacks : WholePacks} {afterRevision : HubRevision}
      {changes : List CountWorkChange} (group : PhysicalStockGroup) :
      plan.effect = .shortage packs afterPacks afterRevision changes →
      group.packs = afterPacks → group.revision = afterRevision →
      Settles groups plan (Function.update groups plan.before.id (some group))

/-- The operation has not been used. -/
def Fresh (ledger : CountLedger) (operation : HubRecordId) : Prop :=
  operation ∉ ledger.history.map CountEvent.operation

section Runs
variable [Sha256]

/-- What may happen to the ledger. -/
inductive Step (ledger : CountLedger) : CountLedger → Prop
  | observe {command : CountObserveCommand} {context : CountObservationContext}
      {operation : HubRecordId} {actor : PublicKey} {recordedAt : UnixTimestamp}
      {count : CountObservation}
      (fresh : ledger.Fresh operation) (shows : ledger.Shows context)
      (plan : command.plan context operation actor recordedAt = .ok count) :
      Step ledger { ledger with
        stockRevision := count.recordedRevision
        history := .observed context count :: ledger.history }
  | post {command : CountPostCommand} {observed : CountObservationContext}
      {count : CountObservation} {current : CountContext} {operation : HubRecordId}
      {actor : PublicKey} {recordedAt : UnixTimestamp} {posted : CountPostPlan}
      {groups : HubRecordId → Option PhysicalStockGroup}
      (fresh : ledger.Fresh operation) (shows : ledger.Shows current.toCountObservationContext)
      (latest : current.latestObservation = ledger.latestObservation current.group.id)
      (retained : .observed observed count ∈ ledger.history)
      (plan : command.plan count current operation actor recordedAt = .ok posted)
      (settles : Settles ledger.groups posted groups) :
      Step ledger { ledger with
        stockRevision := posted.stockRevision, groups
        history := .posted current posted :: ledger.history }
  | change {operation : HubRecordId} {stockRevision : HubRevision} {changed : List HubRecordId}
      {groups : HubRecordId → Option PhysicalStockGroup}
      (fresh : ledger.Fresh operation)
      (later : ledger.stockRevision.value < stockRevision.value)
      (others : ∀ id, id ∉ changed → groups id = ledger.groups id)
      (raised : ∀ id ∈ changed, ∃ group, groups id = some group ∧
        ∀ before, ledger.groups id = some before → before.revision.value < group.revision.value) :
      Step ledger { ledger with
        stockRevision, groups, history := .changed operation changed :: ledger.history }

/-- The ledgers reached from one whose history is empty. -/
inductive Reached : CountLedger → Prop
  | start {ledger : CountLedger} : ledger.history = [] → Reached ledger
  | next {ledger ledger' : CountLedger} : Reached ledger → Step ledger ledger' → Reached ledger'

variable {ledger ledger' : CountLedger}

/-! ## The history -/

/-- A step adds one event, of an operation that is new. -/
theorem Step.history_eq (h : Step ledger ledger') :
    ∃ event, ledger'.history = event :: ledger.history ∧ ledger.Fresh event.operation := by
  cases h with
  | observe fresh shows plan =>
    exact ⟨_, rfl, by simpa [CountEvent.operation,
      (CountObserveCommand.plan_eq_ok plan).operation_eq] using fresh⟩
  | post fresh shows latest retained plan settles =>
    exact ⟨_, rfl, by simpa [CountEvent.operation,
      (CountPostCommand.plan_eq_ok plan).operation_eq] using fresh⟩
  | change fresh later others raised => exact ⟨_, rfl, fresh⟩

theorem Reached.operations_nodup (h : ledger.Reached) :
    (ledger.history.map CountEvent.operation).Nodup := by
  induction h with
  | start hempty => simp [hempty]
  | next _ hstep ih =>
    obtain ⟨event, hhistory, hfresh⟩ := hstep.history_eq
    rw [hhistory, List.map_cons, List.nodup_cons]
    exact ⟨hfresh, ih⟩

variable {event : CountEvent} {newer older : List CountEvent} {context : CountObservationContext}
  {count : CountObservation} {current : CountContext} {plan : CountPostPlan} {id : HubRecordId}

/-- Every event of the history was added by a step, to the events before it. -/
theorem Reached.entered (h : ledger.Reached) (hsplit : ledger.history = newer ++ event :: older) :
    ∃ before after : CountLedger, before.Reached ∧ Step before after ∧ before.history = older ∧
      after.history = event :: older := by
  induction h generalizing newer with
  | start hempty => simp [hempty] at hsplit
  | @next ledger ledger' hreached hstep ih =>
    obtain ⟨added, hhistory, -⟩ := hstep.history_eq
    rw [hhistory, List.cons_eq_append_iff] at hsplit
    rcases hsplit with ⟨-, hsame⟩ | ⟨newer', -, hrest⟩
    · cases hsame
      exact ⟨ledger, ledger', hreached, hstep, rfl, hhistory⟩
    · exact ih hrest

/-- An observation in the history was made of what the ledger held then. -/
theorem Reached.observed (h : ledger.Reached)
    (hsplit : ledger.history = newer ++ .observed context count :: older) :
    count.Records context count.operation ∧
      context.previousReconciliation =
        older.findSome? (CountEvent.reconciliation context.group.id) := by
  obtain ⟨before, after, -, hstep, rfl, hafter⟩ := h.entered hsplit
  cases hstep with
  | observe fresh shows plan =>
    cases hafter
    have hrecords := CountObserveCommand.plan_eq_ok plan
    exact ⟨hrecords.operation_eq ▸ hrecords, shows.previous⟩
  | post => cases hafter
  | change => cases hafter

/-- A posted count in the history was compared with what the ledger held then. -/
theorem Reached.posted (h : ledger.Reached)
    (hsplit : ledger.history = newer ++ .posted current plan :: older) :
    plan.Posts plan.count current plan.operation ∧
      (∃ context, .observed context plan.count ∈ older) ∧
      ∃ before : CountLedger, before.Reached ∧ before.history = older ∧
        before.Shows current.toCountObservationContext ∧
        current.latestObservation = before.latestObservation current.group.id := by
  obtain ⟨before, after, hbefore, hstep, rfl, hafter⟩ := h.entered hsplit
  cases hstep with
  | observe => cases hafter
  | post fresh shows latest retained plan settles =>
    cases hafter
    have hposts := CountPostCommand.plan_eq_ok plan
    obtain rfl := hposts.count_eq
    exact ⟨hposts.operation_eq ▸ hposts, ⟨_, retained⟩, before, hbefore, rfl, shows, latest⟩
  | change => cases hafter

/-- A part of the history that reaches back to the start has, with a posted count, its
observation. -/
theorem Reached.count_observed (h : ledger.Reached) (hsuffix : older <:+ ledger.history)
    (hmem : .posted current plan ∈ older) :
    plan.before.id = plan.count.scope.group ∧ ∃ context, .observed context plan.count ∈ older := by
  obtain ⟨later, rest, rfl⟩ := List.append_of_mem hmem
  obtain ⟨newer, hsplit⟩ := hsuffix
  rw [← List.append_assoc] at hsplit
  obtain ⟨hposts, ⟨context, hobserved⟩, -⟩ := h.posted hsplit.symm
  refine ⟨?_, context, by simp [hobserved]⟩
  rw [hposts.before_eq]
  exact hposts.ready.group_eq

/-! ## Identities -/

/-- The operations of the history have identities of their own for what they record. -/
structure DistinctIds (ledger : CountLedger) : Prop where
  observation : ∀ a ∈ ledger.history.map CountEvent.operation,
    ∀ b ∈ ledger.history.map CountEvent.operation, ∀ id, countRecordId a = .ok id →
      countRecordId b = .ok id → a = b
  reconciliation : ∀ a ∈ ledger.history.map CountEvent.operation,
    ∀ b ∈ ledger.history.map CountEvent.operation, ∀ id, countReconciliationId a = .ok id →
      countReconciliationId b = .ok id → a = b

variable {group : HubRecordId}

/-- The identity of an observation is that of its operation. -/
theorem Reached.observation_id (h : ledger.Reached) (hmem : event ∈ ledger.history)
    (hid : event.observation group = some id) : countRecordId event.operation = .ok id := by
  cases event with
  | observed context count =>
    obtain ⟨newer, older, hsplit⟩ := List.append_of_mem hmem
    simp only [CountEvent.observation, Option.ite_none_right_eq_some, Option.some.injEq] at hid
    obtain ⟨-, rfl⟩ := hid
    exact (h.observed hsplit).1.id_eq
  | posted current plan => cases hid
  | changed operation groups => cases hid

/-- The identity of a reconciliation is that of its operation. -/
theorem Reached.reconciliation_id (h : ledger.Reached) (hmem : event ∈ ledger.history)
    (hid : event.reconciliation group = some id) :
    countReconciliationId event.operation = .ok id := by
  cases event with
  | observed context count => cases hid
  | posted current plan =>
    obtain ⟨newer, older, hsplit⟩ := List.append_of_mem hmem
    simp only [CountEvent.reconciliation, Option.ite_none_right_eq_some, Option.some.injEq] at hid
    obtain ⟨-, rfl⟩ := hid
    exact (h.posted hsplit).1.id_eq
  | changed operation groups => cases hid

/-- Observations with one identity are one observation. -/
theorem Reached.observed_inj (h : ledger.Reached) (hdistinct : ledger.DistinctIds)
    {context' : CountObservationContext} {count' : CountObservation}
    (hmem : .observed context count ∈ ledger.history)
    (hmem' : .observed context' count' ∈ ledger.history) (hid : count.id = count'.id) :
    CountEvent.observed context count = .observed context' count' := by
  have hop := h.observation_id hmem (CountEvent.observation_self context count)
  have hop' := h.observation_id hmem' (CountEvent.observation_self context' count')
  rw [← hid] at hop'
  exact List.inj_on_of_nodup_map h.operations_nodup hmem hmem'
    (hdistinct.observation _ (List.mem_map_of_mem hmem) _ (List.mem_map_of_mem hmem') _ hop hop')

/-! ## The group since it was counted -/

/-- A step leaves a group alone or raises its revision. -/
theorem Step.group_cases (h : Step ledger ledger') {group : PhysicalStockGroup}
    (hgroup : ledger.groups id = some group) :
    (ledger'.groups id = some group ∧ ∀ event, ledger'.history = event :: ledger.history →
      ¬ event.Changes id) ∨
    ∃ group', ledger'.groups id = some group' ∧ group.revision.value < group'.revision.value := by
  cases h with
  | observe fresh shows plan =>
    refine .inl ⟨hgroup, fun event hevent => ?_⟩
    cases hevent
    exact not_false
  | @post _ _ _ _ _ _ _ posted _ fresh shows latest retained plan settles =>
    have hposts := CountPostCommand.plan_eq_ok plan
    cases settles with
    | kept heffect =>
      refine .inl ⟨hgroup, fun event hevent => ?_⟩
      cases hevent
      rintro ⟨-, packs, afterPacks, afterRevision, changes, hshortage⟩
      exact heffect _ _ _ _ hshortage
    | lowered lower heffect hpacks hrevision =>
      by_cases hsame : id = posted.before.id
      · right
        subst hsame
        refine ⟨lower, Function.update_self .., ?_⟩
        have hexplains := hposts.explains
        rw [heffect] at hexplains
        rw [hposts.before_eq, shows.group] at hgroup
        cases hgroup
        rw [hrevision, hexplains.2.2.2.1]
        exact Nat.lt_succ_self _
      · left
        refine ⟨(Function.update_of_ne hsame ..).trans hgroup, fun event hevent => ?_⟩
        cases hevent
        rintro ⟨heq, -⟩
        exact hsame heq.symm
  | @change _ _ changed groups fresh later others raised =>
    by_cases hmem : id ∈ changed
    · obtain ⟨group', hgroup', hlater⟩ := raised id hmem
      exact .inr ⟨group', hgroup', hlater group hgroup⟩
    · refine .inl ⟨(others id hmem).trans hgroup, fun event hevent => ?_⟩
      cases hevent
      exact hmem

/-- A group that was counted is as it was then, or has a later revision. -/
theorem Reached.since_observed (h : ledger.Reached) {since : List CountEvent}
    (hsplit : ledger.history = since ++ .observed context count :: older) :
    ∃ group, ledger.groups context.group.id = some group ∧
      (group = context.group ∧ (∀ event ∈ since, ¬ event.Changes context.group.id) ∨
        context.group.revision.value < group.revision.value) := by
  induction h generalizing since with
  | start hempty => simp [hempty] at hsplit
  | @next ledger ledger' hreached hstep ih =>
    obtain ⟨added, hhistory, -⟩ := hstep.history_eq
    have hwhole := hsplit
    rw [hhistory, List.cons_eq_append_iff] at hsplit
    rcases hsplit with ⟨rfl, hsame⟩ | ⟨since', rfl, hrest⟩
    · -- the observation itself is the last step
      cases hsame
      cases hstep with
      | observe fresh shows plan =>
        cases hhistory
        exact ⟨_, shows.group, .inl ⟨rfl, by simp⟩⟩
      | post => cases hhistory
      | change => cases hhistory
    · obtain ⟨group, hgroup, hcase⟩ := ih hrest
      rcases hstep.group_cases hgroup with ⟨hkept, hadded⟩ | ⟨group', hgroup', hlater⟩
      · refine ⟨group, hkept, hcase.imp_left fun ⟨heq, hnone⟩ => ⟨heq, ?_⟩⟩
        rintro event (_ | ⟨_, hevent⟩)
        · exact hadded _ hhistory
        · exact hnone event hevent
      · refine ⟨group', hgroup', .inr ?_⟩
        rcases hcase with ⟨rfl, -⟩ | hless
        · exact hlater
        · exact hless.trans hlater

/-- What was observed is compared with what is posted: nothing concerned the group in between. -/
theorem Reached.posted_untouched (h : ledger.Reached) (hdistinct : ledger.DistinctIds)
    (hsplit : ledger.history = newer ++ .posted current plan :: older) :
    ∃ context since earlier, older = since ++ .observed context plan.count :: earlier ∧
      context.group = current.group ∧
      ∀ event ∈ since, ¬ event.Concerns current.group.id := by
  obtain ⟨hposts, ⟨context, hretained⟩, before, hbefore, hhistory, hshows, hlatest⟩ :=
    h.posted hsplit
  obtain ⟨since, earlier, rfl⟩ := List.append_of_mem hretained
  obtain ⟨hrecords, hprevious⟩ := hbefore.observed hhistory
  have hready := hposts.ready
  have hscope := hready.scope
  simp only [CountScope.Changed, passed] at hscope
  obtain ⟨-, hid, -, -, -, hrevision, -⟩ := hscope
  rw [hrecords.group_eq] at hid
  rw [hrecords.groupRevision_eq] at hrevision
  -- the group: a change would have raised its revision
  obtain ⟨group, hgroup, hcase⟩ := hbefore.since_observed hhistory
  have hsame : group = current.group := by
    have := hshows.group
    rw [hid, hgroup] at this
    exact Option.some.inj this
  subst hsame
  rw [hrevision] at hcase
  obtain ⟨hgroup', hunchanged⟩ := hcase.resolve_right (lt_irrefl _)
  have hmem : ∀ event ∈ since ++ .observed context plan.count :: earlier,
      event ∈ ledger.history := fun event hevent => by
    rw [hsplit]
    exact List.mem_append_right _ (List.mem_cons_of_mem _ hevent)
  have hnodup : ((since ++ .observed context plan.count :: earlier).map
      CountEvent.operation).Nodup := hhistory ▸ hbefore.operations_nodup
  -- the observations: this one is still the last
  have hobservations : ∀ event ∈ since, event.observation current.group.id = none := by
    refine Table.none_since CountEvent.operation _ ?_ hnodup ?_
    · have hlast := hready.latest
      rw [hlatest, latestObservation, hhistory] at hlast
      rw [hlast]
      simp [CountEvent.observation, hrecords.group_eq, hid]
    · intro x hx y hy v hxv hyv
      exact hdistinct.observation _ (List.mem_map_of_mem (hmem x hx)) _
        (List.mem_map_of_mem (hmem y hy)) v (h.observation_id (hmem x hx) hxv)
        (h.observation_id (hmem y hy) hyv)
  -- the reconciliations: the last one is that which the observation saw
  have hreconciliations : ∀ event ∈ since, event.reconciliation current.group.id = none := by
    refine Table.none_since CountEvent.operation _ ?_ hnodup ?_
    · have hlast := hready.previous
      rw [hshows.previous, previousReconciliation, hhistory, hrecords.previous_eq, hprevious,
        ← hid] at hlast
      rw [hlast]
      rfl
    · intro x hx y hy v hxv hyv
      exact hdistinct.reconciliation _ (List.mem_map_of_mem (hmem x hx)) _
        (List.mem_map_of_mem (hmem y hy)) v (h.reconciliation_id (hmem x hx) hxv)
        (h.reconciliation_id (hmem y hy) hyv)
  refine ⟨context, since, earlier, rfl, hgroup'.symm, fun event hevent => ?_⟩
  rintro (hobserved | hreconciled | hchanged)
  · exact hobserved (hobservations event hevent)
  · exact hreconciled (hreconciliations event hevent)
  · exact hunchanged event hevent (hid ▸ hchanged)

/-- A count that was posted is not posted again. -/
theorem Reached.posted_once (h : ledger.Reached) (hdistinct : ledger.DistinctIds)
    {current' : CountContext} {plan' : CountPostPlan}
    (hsplit : ledger.history = newer ++ .posted current plan :: older)
    (hearlier : .posted current' plan' ∈ older) : plan'.count.id ≠ plan.count.id := by
  intro hid
  obtain ⟨context, since, earlier, rfl, hgroup, huntouched⟩ := h.posted_untouched hdistinct hsplit
  obtain ⟨hrecords, -⟩ := h.observed (show ledger.history =
    (newer ++ .posted current plan :: since) ++ .observed context plan.count :: earlier by
      simpa using hsplit)
  have hmem : .observed context plan.count ∈ ledger.history := by simp [hsplit]
  have holder : since ++ .observed context plan.count :: earlier <:+ ledger.history :=
    ⟨newer ++ [.posted current plan], by simp [hsplit]⟩
  rcases List.mem_append.mp hearlier with hsince | hrest
  · -- the earlier post would be one to the same group, made since the observation
    obtain ⟨hid', context', hobserved⟩ := h.count_observed holder hearlier
    obtain ⟨-, hcount⟩ := CountEvent.observed.inj
      (h.observed_inj hdistinct (holder.subset hobserved) hmem hid)
    have hsame : plan'.before.id = current.group.id := by
      rw [hid', hcount, ← hgroup]
      exact hrecords.group_eq
    exact huntouched _ hsince (.inr (.inl (by simp [CountEvent.reconciliation, hsame])))
  · -- the observation would have been made twice
    have hbefore : .posted current' plan' ∈ earlier := by simpa using hrest
    have hearliest : earlier <:+ ledger.history :=
      ((List.suffix_cons ..).trans (List.suffix_append ..)).trans holder
    obtain ⟨-, context', hobserved⟩ := h.count_observed hearliest hbefore
    have hagain := h.observed_inj hdistinct (hearliest.subset hobserved) hmem hid
    rw [hagain] at hobserved
    have hnodup := h.operations_nodup.sublist (holder.sublist.map _)
    rw [List.map_append, List.map_cons, List.nodup_middle] at hnodup
    exact (List.nodup_cons.mp hnodup).1 (List.mem_append_right _ (List.mem_map_of_mem hobserved))

/-- **A count is applied at most once, and only to the stock it counted.** -/
theorem count_posted_once_to_counted_stock (h : ledger.Reached) (hdistinct : ledger.DistinctIds)
    {newer older : List CountEvent} {current : CountContext} {plan : CountPostPlan}
    (hsplit : ledger.history = newer ++ .posted current plan :: older) :
    (∀ current' plan', .posted current' plan' ∈ older → plan'.count.id ≠ plan.count.id) ∧
    (∃ context since earlier, older = since ++ .observed context plan.count :: earlier ∧
      context.group = plan.before ∧ ∀ event ∈ since, ¬ event.Concerns plan.before.id) ∧
    plan.count.cutoff = .known plan.confirmedOnHandAt ∧
    current.latestPhysicalRecordedAt ≤ plan.confirmedOnHandAt ∧
    plan.effect.Explains plan.before plan.count.countedPacks := by
  obtain ⟨hposts, -⟩ := h.posted hsplit
  obtain ⟨time, hcutoff, htime⟩ := hposts.ready.cutoff
  have hconfirmed := hposts.confirmed_eq
  obtain rfl : time = plan.confirmedOnHandAt := Occurrence.known.inj (hcutoff.symm.trans hconfirmed)
  refine ⟨fun current' plan' hearlier => h.posted_once hdistinct hsplit hearlier, ?_, hconfirmed,
    htime, ?_⟩
  · rw [hposts.before_eq]
    exact h.posted_untouched hdistinct hsplit
  · rw [hposts.before_eq]
    exact hposts.explains

end Runs

/-! ### Two packs of the crate are missing -/

/-- SHA-256 on the strings that are hashed when the crate is counted and the count posted. -/
@[reducible] def crateCountDigest : Sha256 where
  digest bytes :=
    if bytes = utf8 "harvestcircle.hub.count.observation.identity.v1\x00" ++ bigEndian 16 41 then
      0xfe26f324993fc8b4bfed58de9584017e1f6ea90f0c27bd7de7e408a2bda1e092
    else if bytes =
        utf8 "harvestcircle.hub.count.observation.identity.v1\x00" ++ bigEndian 16 42 then
      0x0d574b63a52fc96131ab642cdf21043ac895738c3c1bceebb463e048d07adcc2
    else if bytes =
        utf8 "harvestcircle.hub.count.reconciliation.identity.v1\x00" ++ bigEndian 16 41 then
      0x7326edf52a15ab898d52009e97e82a2ef2c996dc1b59aefb8c7ba751aae5f8ba
    else if bytes =
        utf8 "harvestcircle.hub.count.reconciliation.identity.v1\x00" ++ bigEndian 16 42 then
      0x61017a6083176f928101c25195755f8b8e1f825039ca446497a81170c448fcd7
    else 0

def crateCountContext : CountObservationContext where
  hub := .of 1
  stockRevision := .of 5
  catalog := crateCatalog
  group := crate
  latestPhysicalRecordedAt := crateTime
  previousReconciliation := none

def crateCountCommand : CountObserveCommand where
  expectedStockRevision := .of 5
  expectedCatalogRevision := .initial
  group := .of 10
  expectedGroupRevision := .initial
  countedPacks := .of 8
  cutoff := .known crateTime
  observation := crateNote

/-- Eight of the ten packs are there. -/
def crateCount : CountObservation where
  id := .of 0xfe26f324993fc8b4bfed58de9584017e
  operation := .of 41
  recordedRevision := .of 6
  scope := {
    hub := .of 1, stockRevision := .of 5, catalogRevision := .initial
    trace := .of 2, group := .of 10, groupRevision := .initial
    product := crateProduct, variant := crateVariant, location := crateDock
    recordedPacks := .of 10, latestPhysicalRecordedAt := crateTime
    previousReconciliation := none }
  countedPacks := .of 8
  cutoff := .known crateTime
  actor := crateActor
  recordedAt := crateTime
  observation := crateNote

def cratePostContext : CountContext where
  toCountObservationContext := { crateCountContext with stockRevision := .of 6 }
  latestObservation := some crateCount.id
  unresolvedActual := false
  uncertainIntent := false

def cratePostCommand : CountPostCommand where
  expectedStockRevision := .of 6
  expectedCatalogRevision := .initial
  count := crateCount.id
  reviewedActivity := true
  surplusIdentification := none
  reason := crateNote

/-- The ten packs still to be put away become eight. -/
def crateWorkChange : CountWorkChange where
  before := ⟨.of 8, .of 2, .of 3, some crateShelf,
    .pending (.of 10), .initial⟩
  after := ⟨.of 8, .of 2, .of 3, some crateShelf,
    { required := .of 10, completed := .of 0, noLongerRequired := .of 2
      remaining := .of 8, accounted := by decide }, .of 2⟩
  retired := .of 2

def cratePost : CountPostPlan where
  id := .of 0x61017a6083176f928101c25195755f8b
  operation := .of 42
  count := crateCount
  before := crate
  stockRevision := .of 7
  catalogRevision := .initial
  references := ⟨crateProduct, crateVariant, crateDock⟩
  actor := crateActor
  recordedAt := crateTime
  confirmedOnHandAt := crateTime
  effect := .shortage (.of 2) (.of 8) (.of 2) [crateWorkChange]
  reason := crateNote

/-- The ledger after the post. -/
def crateCountLedger : CountLedger where
  hub := .of 1
  stockRevision := .of 7
  groups := Function.update (fun id => if id = crate.id then some crate else none) crate.id
    (some { crate with packs := .of 8, revision := .of 2 })
  history := [.posted cratePostContext cratePost, .observed crateCountContext crateCount]

/-- The crate is counted and the count posted, once. -/
theorem count_posted_once_to_counted_stock_crate :
    @Reached crateCountDigest crateCountLedger ∧
    cratePost.count = crateCount ∧ crateCount.cutoff = .known cratePost.confirmedOnHandAt ∧
    cratePost.effect.Explains crate crateCount.countedPacks := by
  let _ : Sha256 := crateCountDigest
  have hobserve : crateCountCommand.plan crateCountContext (.of 41) crateActor crateTime =
      .ok crateCount := by decide +kernel
  have hpost : cratePostCommand.plan crateCount cratePostContext (.of 42) crateActor
      crateTime = .ok cratePost := by decide +kernel
  have hfresh : cratePost.operation ∉ [crateCount.operation] := by decide
  have hreached : Reached crateCountLedger := by
    have hstart : Reached ⟨.of 1, .of 5,
      fun id => if id = crate.id then some crate else none, []⟩ := .start rfl
    have hfirst := hstart.next (.observe (by simp [Fresh]) ⟨rfl, rfl, rfl, rfl⟩ hobserve)
    exact hfirst.next (.post (by exact hfresh) ⟨rfl, rfl, rfl, rfl⟩ (by decide +kernel)
      (List.mem_singleton_self _) hpost (.lowered _ rfl rfl rfl))
  have hobservations : ∀ a ∈ [cratePost.operation, crateCount.operation],
      ∀ b ∈ [cratePost.operation, crateCount.operation], countRecordId a = countRecordId b →
        a = b := by decide +kernel
  have hreconciliations : ∀ a ∈ [cratePost.operation, crateCount.operation],
      ∀ b ∈ [cratePost.operation, crateCount.operation],
        countReconciliationId a = countReconciliationId b → a = b := by decide +kernel
  have hdistinct : DistinctIds crateCountLedger :=
    ⟨fun a ha b hb _ hid hid' => hobservations a ha b hb (hid.trans hid'.symm),
      fun a ha b hb _ hid hid' => hreconciliations a ha b hb (hid.trans hid'.symm)⟩
  have hsplit : crateCountLedger.history = [] ++ .posted cratePostContext cratePost ::
    [.observed crateCountContext crateCount] := rfl
  obtain ⟨-, -, hcutoff, -, hexplains⟩ :=
    count_posted_once_to_counted_stock hreached hdistinct hsplit
  exact ⟨hreached, rfl, hcutoff, hexplains⟩

end CountLedger

end HarvestCircle
