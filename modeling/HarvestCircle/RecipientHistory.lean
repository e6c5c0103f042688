import HarvestCircle.Attribution

/-! # Corrections of who received a departure

`currentRecipientAttribution` replays a whole history of corrections; a plan appends to
it.  The plan does not run the checker on its result, and it collects the impact on a way
of its own, from everyone the departure was ever said to have gone to and the papers
linked to it now.  The checker demands exactly what it has found so far itself.

Here the two are brought together for any history, and no correction forgets what an
earlier one named (`recipient_history_retains`).
-/
namespace HarvestCircle
open Checked

/-- How the departure came to be known. -/
inductive CorrectedDepartureFamily where
  | normal
  | reviewedActual
  | explainedCountLoss
  deriving DecidableEq, Repr

/-- The recipient as first recorded. -/
structure OriginalRecipientAttribution where
  hub : HubId
  family : CorrectedDepartureFamily
  operation : HubRecordId
  stockRevision : HubRevision
  catalogRevision : HubRevision
  recordedAt : UnixTimestamp
  actor : PublicKey
  recipient : ReferenceRecord
  /-- Every population of the departure, not a selected line. -/
  populations : List HubRecordId
  /-- The papers issued when it left. -/
  issuedVersions : List HubRecordId
  deriving DecidableEq, Repr

namespace OriginalRecipientAttribution

def affected (original : OriginalRecipientAttribution) (recipients : List AmendedRecipient) :
    AttributionAffectedDeparture :=
  ⟨original.operation, original.populations, recipients, original.issuedVersions⟩

def validate (original : OriginalRecipientAttribution) : Except AttributionError Unit := do
  partyRecord original.recipient original.catalogRevision
  refuse (original.stockRevision = .initial ∨
    (original.family = .normal ∧ original.issuedVersions = []) ∨
    (original.family ≠ .normal ∧ original.issuedVersions ≠ [])) .invalidHistory
  let _ ← (original.affected [.known original.recipient]).impact .new original.catalogRevision

theorem entries_affected_concat (original : OriginalRecipientAttribution)
    (recipients : List AmendedRecipient) (recipient : AmendedRecipient) :
    (original.affected (recipients ++ [recipient])).entries =
      (original.affected recipients).entries ∪ recipient.entries original.operation := by
  ext target
  simp only [affected, AttributionAffectedDeparture.entries, List.toFinset_append,
    List.toFinset_cons, List.toFinset_nil, insert_empty_eq, Finset.mem_union, Finset.mem_biUnion,
    Finset.mem_singleton, or_and_right, exists_or, exists_eq_left]
  rw [← or_assoc, or_right_comm]

/-- Where the replay of its corrections starts. -/
def trail (original : OriginalRecipientAttribution) : StampTrail :=
  ⟨original.stockRevision, original.catalogRevision, original.recordedAt, {original.operation}⟩

end OriginalRecipientAttribution

/-- One correction, with what it follows. -/
structure RecipientAttributionCorrection where
  stamp : AttributionStamp
  original : OriginalRecipientAttribution
  prior : Option HubRecordId
  before : AmendedRecipient
  after : AmendedRecipient
  impact : CorrectionImpactSet
  deriving DecidableEq, Repr

/-- What the replay of the corrections keeps. -/
structure RecipientReplay where
  current : AmendedRecipient
  prior : Option HubRecordId
  trail : StampTrail
  required : ImpactBuilder

/-- One correction of a replayed history. -/
def RecipientReplay.step (original : OriginalRecipientAttribution) (state : RecipientReplay)
    (record : RecipientAttributionCorrection) : Except AttributionError RecipientReplay := do
  let trail ← state.trail.enter original.hub record.stamp
  refuse (record.original ≠ original ∨ record.prior ≠ state.prior ∨
    record.before ≠ state.current ∨ record.after = record.before ∨
    .departure original.operation ∉ record.impact ∨
    (∃ id ∈ original.populations, .population id ∉ record.impact) ∨
    (∃ id ∈ original.issuedVersions, .issuedVersion id ∉ record.impact)) .invalidHistory
  record.after.validate record.stamp.catalogRevision
  refuse (record.before.SameParty record.after) .invalidHistory
  let required ← state.required.recipient original.operation record.after
  let required ← record.impact.rows.foldlM (fun required target =>
    if target.IsIssuedVersion ∧ original.family = .normal then required.add target
    else return required) required
  let impact ← required.finish
  refuse (record.impact ≠ impact) .invalidHistory
  return ⟨record.after, some record.stamp.operation, trail, required⟩

/-- Before the first correction. -/
def RecipientReplay.start (original : OriginalRecipientAttribution) :
    Except AttributionError RecipientReplay := do
  let current := AmendedRecipient.known original.recipient
  let required ← (original.affected [current]).impact .new original.catalogRevision
  return ⟨current, none, original.trail, required⟩

/-- The replayed history, with the state it leads to. -/
def replayRecipients (original : OriginalRecipientAttribution)
    (history : List RecipientAttributionCorrection) : Except AttributionError RecipientReplay :=
  replay (RecipientReplay.start original) (RecipientReplay.step original) history

def currentRecipientAttribution (original : OriginalRecipientAttribution)
    (history : List RecipientAttributionCorrection) : Except AttributionError AmendedRecipient := do
  refuse (history.length > hubCorrectionRows) .capacity
  original.validate
  let state ← replayRecipients original history
  return state.current

/-! ## What the replay accepts -/

/-- A correction continues a replayed history. -/
structure RecipientReplay.Accepts (original : OriginalRecipientAttribution)
    (state : RecipientReplay)
    (record : RecipientAttributionCorrection) : Prop where
  continues : state.trail.Continues original.hub record.stamp
  original_eq : record.original = original
  prior_eq : record.prior = state.prior
  before_eq : record.before = state.current
  changed : record.after ≠ record.before
  departure_mem : .departure original.operation ∈ record.impact
  population_mem : ∀ id ∈ original.populations, .population id ∈ record.impact
  version_mem : ∀ id ∈ original.issuedVersions, .issuedVersion id ∈ record.impact
  valid : record.after.validate record.stamp.catalogRevision = .ok ()
  differs : ¬ record.before.SameParty record.after
  impact_iff : ∀ target, target ∈ record.impact ↔
    target ∈ state.required.targets ∨ target ∈ record.after.entries original.operation ∨
      (target ∈ record.impact ∧ target.IsIssuedVersion ∧ original.family = .normal)

open ImpactBuilder in
theorem RecipientReplay.collects_versions (family : CorrectedDepartureFamily)
    (rows : List CorrectionImpact) :
    Collects (rows.foldlM fun required target =>
      if target.IsIssuedVersion ∧ family = .normal then required.add target else return required)
      True (rows.filter fun target => target.IsIssuedVersion ∧ family = .normal).toFinset := by
  have hstep : ∀ target : CorrectionImpact, Collects (fun required =>
      if target.IsIssuedVersion ∧ family = .normal then required.add target else return required)
      True (if target.IsIssuedVersion ∧ family = .normal then {target} else ∅) := by
    intro target
    by_cases hversion : target.IsIssuedVersion ∧ family = .normal
    · simpa [hversion] using collects_add target
    · simpa [hversion] using collects_pure
  refine (Collects.foldlM hstep rows).congr (by simp) ?_
  ext target
  simp only [Finset.mem_biUnion, List.mem_toFinset, List.mem_filter, decide_eq_true_eq]
  constructor
  · rintro ⟨found, hmem, htarget⟩
    split at htarget
    · rename_i hversion
      obtain rfl := Finset.mem_singleton.mp htarget
      exact ⟨hmem, hversion⟩
    · simp at htarget
  · rintro ⟨hmem, hversion⟩
    exact ⟨target, hmem, by simp [hversion]⟩

variable {original : OriginalRecipientAttribution} {record : RecipientAttributionCorrection}
  {state : RecipientReplay} {history : List RecipientAttributionCorrection}
  {current : AmendedRecipient}

theorem RecipientReplay.step_eq_ok {state' : RecipientReplay} :
    step original state record = .ok state' ↔ state.Accepts original record ∧
      state'.current = record.after ∧ state'.prior = some record.stamp.operation ∧
      state'.trail = state.trail.after record.stamp ∧
      ∀ target, target ∈ state'.required.targets ↔ target ∈ record.impact := by
  simp only [step, accepted, StampTrail.enter_eq_ok, passed,
    ImpactBuilder.collects_recipient _ _ _ _, RecipientReplay.collects_versions _ _ _ _,
    ImpactBuilder.finish_eq_ok, true_and]
  constructor
  · rintro ⟨trail, ⟨hcontinues, rfl⟩,
      ⟨horiginal, hprior, hbefore, hchanged, hdeparture, hpopulations, hversions⟩, hvalid, hdiffers,
      required, hrequired, required', hrequired', impact, himpact, heq, rfl⟩
    have htargets : ∀ target, target ∈ record.impact ↔ target ∈ required'.targets := heq ▸ himpact
    refine ⟨⟨hcontinues, horiginal, hprior, hbefore, hchanged, hdeparture, ?_, ?_, hvalid, hdiffers,
      fun target => ?_⟩, rfl, rfl, rfl, fun target => (htargets target).symm⟩
    · simpa using hpopulations
    · simpa using hversions
    · refine (htargets target).trans ?_
      rw [hrequired', hrequired]
      simp only [Finset.mem_union, List.mem_toFinset, List.mem_filter, decide_eq_true_eq, or_assoc]
      exact Iff.rfl
  · rintro ⟨haccepts, hcurrent, hprior, htrail, hrequired⟩
    have hsubset : state.required.targets ∪ record.after.entries original.operation ⊆
        state'.required.targets := by
      intro target hmem
      rw [hrequired, haccepts.impact_iff]
      rcases Finset.mem_union.mp hmem with h | h
      · exact .inl h
      · exact .inr (.inl h)
    have hcard := (Finset.card_le_card hsubset).trans state'.required.bounded
    refine ⟨_, ⟨haccepts.continues, rfl⟩, ⟨haccepts.original_eq, haccepts.prior_eq,
      haccepts.before_eq, haccepts.changed, haccepts.departure_mem, ?_, ?_⟩, haccepts.valid,
      haccepts.differs, ⟨_, hcard⟩, rfl, state'.required, ?_, record.impact, ?_, rfl, ?_⟩
    · simpa using haccepts.population_mem
    · simpa using haccepts.version_mem
    · ext target
      refine ((hrequired target).trans (haccepts.impact_iff target)).trans ?_
      simp only [Finset.mem_union, List.mem_toFinset, List.mem_filter, decide_eq_true_eq, or_assoc]
      exact Iff.rfl
    · exact fun target => (hrequired target).symm
    · obtain ⟨current, prior, trail, required⟩ := state'
      simp_all

/-- What the replay knows after a history. -/
structure RecipientReplay.Follows (original : OriginalRecipientAttribution)
    (history : List RecipientAttributionCorrection) (state : RecipientReplay) : Prop where
  current_eq : state.current = (history.getLast?.map (·.after)).getD (.known original.recipient)
  prior_eq : state.prior = history.getLast?.map (·.stamp.operation)
  trail_eq : state.trail = original.trail.through (history.map (·.stamp))
  required_iff : ∀ target, target ∈ state.required.targets ↔
    target ∈ (original.affected (.known original.recipient :: history.map (·.after))).entries ∨
      ∃ record ∈ history, target ∈ record.impact ∧ target.IsIssuedVersion ∧
        original.family = .normal
  retained : ∀ record ∈ history, ∀ target ∈ record.impact, target ∈ state.required.targets

theorem replayRecipients_follows (h : replayRecipients original history = .ok state) :
    state.Follows original history := by
  simp only [replayRecipients, replay, RecipientReplay.start, accepted,
    AttributionAffectedDeparture.collects_impact _ _ _ _] at h
  obtain ⟨_, ⟨required, ⟨-, hrequired⟩, rfl⟩, hrun⟩ := h
  refine foldlM_invariant (fun done state => RecipientReplay.Follows original done state)
    ⟨rfl, rfl, rfl, fun target => ?_, by simp⟩ ?_ hrun
  · simp [hrequired, ImpactBuilder.new]
  · intro done record rest state state' hhistory hfollows hstep
    obtain ⟨haccepts, hcurrent, hprior, htrail, hrequired'⟩ := RecipientReplay.step_eq_ok.mp hstep
    refine ⟨by simp [hcurrent], by simp [hprior], by simp [htrail, hfollows.trail_eq],
      fun target => ?_, ?_⟩
    · have hrecipients : AmendedRecipient.known original.recipient ::
          (done ++ [record]).map (·.after) =
          (.known original.recipient :: done.map (·.after)) ++ [record.after] := by simp
      rw [hrequired', haccepts.impact_iff, hfollows.required_iff, hrecipients,
        OriginalRecipientAttribution.entries_affected_concat, Finset.mem_union]
      simp only [List.mem_append, List.mem_singleton, or_and_right, exists_or, exists_eq_left]
      exact or_or_or_comm
    · intro earlier hmem target htarget
      rw [hrequired']
      rcases List.mem_append.mp hmem with hold | hnew
      · exact (haccepts.impact_iff target).mpr
          (.inl (hfollows.retained earlier hold target htarget))
      · obtain rfl := List.mem_singleton.mp hnew
        exact htarget

/-- Corrects the recipient of a departure. -/
structure RecipientAttributionCommand where
  departureOperation : HubRecordId
  expectedStockRevision : HubRevision
  expectedCatalogRevision : HubRevision
  expectedPrior : Option HubRecordId
  /-- `none` is an explicitly unknown recipient. -/
  recipient : Option HubRecordId
  basis : SourceProvenance
  deriving DecidableEq, Repr

/-- What the hub reads for the correction. -/
structure RecipientAttributionContext where
  cut : AttributionCut
  original : OriginalRecipientAttribution
  history : List RecipientAttributionCorrection
  /-- Every paper issued for the departure so far. -/
  linkedIssuedVersions : List HubRecordId
  deriving DecidableEq, Repr

/-- What is affected as of now, with the papers that have been issued since. -/
def recipientImpactWithLinkedVersions (original : OriginalRecipientAttribution)
    (history : List RecipientAttributionCorrection) (linked : List HubRecordId) :
    Except AttributionError CorrectionImpactSet := do
  let _ ← currentRecipientAttribution original history
  refuse (linked.length > hubCorrectionImpacts) .capacity
  refuse (¬ linked.Nodup ∨ (original.family ≠ .normal ∧ linked ≠ []) ∨
    (∃ id ∈ original.issuedVersions, id ∉ linked) ∨
    (∃ record ∈ history, ∃ target ∈ record.impact.rows,
      target.IsIssuedVersion ∧ target ∉ linked.map CorrectionImpact.issuedVersion)) .invalidScope
  let recipients := .known original.recipient :: history.map (·.after)
  let catalog := (history.getLast?.map (·.stamp.catalogRevision)).getD original.catalogRevision
  let impact ← (original.affected recipients).impact .new catalog
  let impact ← linked.foldlM (fun impact id => impact.add (.issuedVersion id)) impact
  impact.finish

def RecipientAttributionCommand.plan (command : RecipientAttributionCommand)
    (context : RecipientAttributionContext) (operation : HubRecordId) (actor : PublicKey)
    (now : UnixTimestamp) : Except AttributionError RecipientAttributionCorrection := do
  let next ← context.cut.check command.expectedStockRevision command.expectedCatalogRevision now
  refuse (context.history.length ≥ hubCorrectionRows) .capacity
  refuse (command.departureOperation ≠ context.original.operation ∨
    context.original.hub ≠ context.cut.hub) .invalidScope
  let before ← currentRecipientAttribution context.original context.history
  let last := context.history.getLast?
  refuse (command.expectedPrior ≠ last.map (·.stamp.operation)) .staleRevision
  refuse (((last.map (·.stamp.stockRevision)).getD context.original.stockRevision).value >
      context.cut.stockRevision.value ∨
    ((last.map (·.stamp.catalogRevision)).getD context.original.catalogRevision).value >
      context.cut.catalog.revision.value ∨
    now < (last.map (·.stamp.recordedAt)).getD context.original.recordedAt ∨
    operation = context.original.operation ∨
    (∃ record ∈ context.history, record.stamp.operation = operation)) .invalidHistory
  let after ← (match command.recipient with
    | none => return .unknown
    | some id => do
      let record ← mapErr (fun _ => .invalidReference) (context.cut.catalog.requireKind id .party)
      return .known record)
  refuse ((before = .unknown ∧ after = .unknown) ∨ before.SameParty after) .noChange
  let current ← recipientImpactWithLinkedVersions context.original context.history
    context.linkedIssuedVersions
  -- the rows of the current impact are the start of a new one
  let impact ← (ImpactBuilder.ofSet current).recipient context.original.operation after
  let impact ← impact.finish
  return {
    stamp := {
      operation, hub := context.cut.hub, stockRevision := next
      catalogRevision := context.cut.catalog.revision, actor, recordedAt := now
      basis := command.basis }
    original := context.original, prior := command.expectedPrior, before, after, impact }

/-- What the impact with the linked papers holds. -/
theorem recipientImpactWithLinkedVersions_eq_ok {linked : List HubRecordId}
    {set : CorrectionImpactSet}
    (h : recipientImpactWithLinkedVersions original history linked = .ok set) :
    (original.family ≠ .normal → linked = []) ∧
    (∀ record ∈ history, ∀ target ∈ record.impact, target.IsIssuedVersion →
      target ∈ linked.map CorrectionImpact.issuedVersion) ∧
    ∀ target, target ∈ set ↔
      target ∈ (original.affected (.known original.recipient :: history.map (·.after))).entries ∨
        target ∈ linked.map CorrectionImpact.issuedVersion := by
  simp only [recipientImpactWithLinkedVersions, accepted, passed,
    AttributionAffectedDeparture.collects_impact _ _ _ _, ImpactBuilder.collects_addAll _ _ _ _,
    ImpactBuilder.finish_eq_ok, true_and] at h
  obtain ⟨current, -, -, ⟨-, hfamily, -, hversions⟩, impact, ⟨-, himpact⟩, impact', himpact',
    hset⟩ := h
  refine ⟨?_, ?_, fun target => ?_⟩
  · simpa using hfamily
  · intro record hrecord target htarget hversion
    by_contra hmissing
    exact hversions ⟨record, hrecord, target, htarget, hversion, hmissing⟩
  · rw [hset, himpact', himpact]
    simp [ImpactBuilder.new]

theorem AmendedRecipient.ne_of_differs {before after : AmendedRecipient}
    (hunknown : ¬ (before = .unknown ∧ after = .unknown)) (hdiffers : ¬ before.SameParty after) :
    after ≠ before := by
  rintro rfl
  cases after with
  | unknown => exact hunknown ⟨rfl, rfl⟩
  | known record => exact hdiffers rfl

theorem OriginalRecipientAttribution.mem_entries (original : OriginalRecipientAttribution)
    (recipients : List AmendedRecipient) :
    .departure original.operation ∈ (original.affected recipients).entries ∧
    (∀ id ∈ original.populations, .population id ∈ (original.affected recipients).entries) ∧
    (∀ id ∈ original.issuedVersions, .issuedVersion id ∈ (original.affected recipients).entries) ∧
    ∀ recipient ∈ recipients, ∀ target ∈ recipient.entries original.operation,
      target ∈ (original.affected recipients).entries := by
  simp only [affected, AttributionAffectedDeparture.entries, Finset.mem_union, Finset.mem_biUnion,
    List.mem_toFinset, List.mem_map, Finset.mem_singleton]
  refine ⟨.inl (.inl (.inl trivial)), fun id hid => .inl (.inl (.inr ⟨id, hid, rfl⟩)),
    fun id hid => .inr ⟨id, hid, rfl⟩, fun recipient hmem target htarget => ?_⟩
  exact .inl (.inr ⟨recipient, hmem, htarget⟩)

/-- What the replay of an accepted history leads to. -/
theorem currentRecipientAttribution_eq_ok :
    currentRecipientAttribution original history = .ok current ↔
      history.length ≤ hubCorrectionRows ∧ original.validate = .ok () ∧
        ∃ state, replayRecipients original history = .ok state ∧ state.current = current := by
  simp only [currentRecipientAttribution, accepted, passed]

/-- A correction that continues the replay is accepted at the end of the history. -/
theorem RecipientReplay.Accepts.current_concat (h : state.Accepts original record)
    (hlength : history.length < hubCorrectionRows) (hvalid : original.validate = .ok ())
    (hstate : replayRecipients original history = .ok state) :
    currentRecipientAttribution original (history ++ [record]) = .ok record.after := by
  have hrows : (history ++ [record]).length ≤ hubCorrectionRows := by
    rw [List.length_append, List.length_singleton]
    exact hlength
  refine currentRecipientAttribution_eq_ok.mpr ⟨hrows, hvalid, ⟨record.after,
    some record.stamp.operation, state.trail.after record.stamp, .ofSet record.impact⟩, ?_, rfl⟩
  exact replay_concat.mpr ⟨state, hstate, RecipientReplay.step_eq_ok.mpr
    ⟨h, rfl, rfl, rfl, fun target => List.mem_toFinset⟩⟩

variable {command : RecipientAttributionCommand} {context : RecipientAttributionContext}
  {correction : RecipientAttributionCorrection} {now : UnixTimestamp} {operation : HubRecordId}
  {earlier later : List RecipientAttributionCorrection}

/-- A recipient plan starts from the accepted history and names every paper it was shown. -/
theorem RecipientAttributionCommand.plan_eq_ok {actor : PublicKey}
    (h : command.plan context operation actor now = .ok correction) :
    context.history.length < hubCorrectionRows ∧ context.original.validate = .ok () ∧
    ∃ state, replayRecipients context.original context.history = .ok state ∧
      state.Accepts context.original correction ∧
      ∀ id ∈ context.linkedIssuedVersions, .issuedVersion id ∈ correction.impact := by
  simp only [plan, accepted, not_or, Decidable.not_not] at h
  obtain ⟨next, hnext, hlength, ⟨-, hhub⟩, before, hbefore, hprior, ⟨hrevision, hcatalog, htime,
    hoperation, hfresh⟩, after, hafter, ⟨hunknown, hdiffers⟩, current, hcurrent, impact, himpact,
    impact', himpact', rfl⟩ := h
  obtain ⟨-, hvalid, state, hstate, rfl⟩ := currentRecipientAttribution_eq_ok.mp hbefore
  have hfollows := replayRecipients_follows hstate
  obtain ⟨hfamily, hversions, hset⟩ := recipientImpactWithLinkedVersions_eq_ok hcurrent
  -- the impact of the plan: what is affected now, and the new recipient
  have hmem : ∀ target, target ∈ impact' ↔
      target ∈ (context.original.affected
        (.known context.original.recipient :: context.history.map (·.after))).entries ∨
      target ∈ context.linkedIssuedVersions.map CorrectionImpact.issuedVersion ∨
      target ∈ after.entries context.original.operation := by
    intro target
    have hadded := (ImpactBuilder.collects_recipient _ _ _ _).mp himpact
    rw [ImpactBuilder.finish_eq_ok.mp himpact' target, hadded.2, Finset.mem_union, ← or_assoc]
    exact or_congr_left ((List.mem_toFinset).trans (hset target))
  have hentries := context.original.mem_entries
    (.known context.original.recipient :: context.history.map (·.after))
  refine ⟨by omega, hvalid, state, hstate, ?_, fun id hid =>
    (hmem _).mpr (.inr (.inl (List.mem_map_of_mem hid)))⟩
  exact {
    continues := by
      rw [hfollows.trail_eq]
      refine StampTrail.continues_of_plan hhub.symm hnext (not_lt.mp hrevision)
        (not_lt.mp hcatalog) (not_lt.mp htime) ?_ hfresh
      exact fun hsame => hoperation (Finset.mem_singleton.mp hsame)
    original_eq := rfl
    prior_eq := hprior.trans hfollows.prior_eq.symm
    before_eq := rfl
    changed := AmendedRecipient.ne_of_differs hunknown hdiffers
    departure_mem := (hmem _).mpr (.inl hentries.1)
    population_mem := fun id hid => (hmem _).mpr (.inl (hentries.2.1 id hid))
    version_mem := fun id hid => (hmem _).mpr (.inl (hentries.2.2.1 id hid))
    valid := by
      cases hrecipient : command.recipient with
      | none =>
        rw [hrecipient] at hafter
        cases hafter
        rfl
      | some id =>
        rw [hrecipient] at hafter
        simp only [accepted] at hafter
        obtain ⟨record, hrecord, rfl⟩ := hafter
        obtain ⟨-, hkind, hrecordRevision⟩ := ReferenceCatalog.requireKind_spec hrecord
        simp [AmendedRecipient.validate, partyRecord, hkind, hrecordRevision]
    differs := hdiffers
    impact_iff := fun target => by
      dsimp only
      rw [hfollows.required_iff]
      constructor
      · intro htarget
        rcases (hmem target).mp htarget with h | h | h
        · exact .inl (.inl h)
        · by_cases hnormal : context.original.family = .normal
          · obtain ⟨id, -, rfl⟩ := List.mem_map.mp h
            exact .inr (.inr ⟨htarget, trivial, hnormal⟩)
          · simp [hfamily hnormal] at h
        · exact .inr (.inl h)
      · rintro ((h | ⟨record, hrecord, htarget, hversion, -⟩) | h | h)
        · exact (hmem target).mpr (.inl h)
        · exact (hmem target).mpr (.inr (.inl (hversions record hrecord target htarget hversion)))
        · exact (hmem target).mpr (.inr (.inr h))
        · exact h.1 }

/-- **A planned recipient correction is accepted at the end of its history.** -/
theorem RecipientAttributionCommand.plan_extends {actor : PublicKey}
    (h : command.plan context operation actor now = .ok correction) :
    currentRecipientAttribution context.original (context.history ++ [correction]) =
      .ok correction.after := by
  obtain ⟨hlength, hvalid, state, hstate, haccepts, -⟩ := plan_eq_ok h
  exact haccepts.current_concat hlength hvalid hstate

/-- In an accepted history every correction was accepted after those before it. -/
theorem accepts_of_replayRecipients
    (h : replayRecipients original (earlier ++ record :: later) = .ok state) :
    ∃ before, RecipientReplay.Follows original earlier before ∧ before.Accepts original record := by
  obtain ⟨before, _, hbefore, hstep⟩ := exists_of_replay h
  exact ⟨before, replayRecipients_follows hbefore, (RecipientReplay.step_eq_ok.mp hstep).1⟩

/-- No operation corrects a departure twice. -/
theorem recipient_operations_nodup
    (h : currentRecipientAttribution original history = .ok current) :
    (history.map (·.stamp.operation)).Nodup := by
  obtain ⟨-, -, state, hstate, -⟩ := currentRecipientAttribution_eq_ok.mp h
  rw [nodup_map_iff_fresh]
  rintro earlier record later rfl previous hprevious hsame
  obtain ⟨before, hfollows, haccepts⟩ := accepts_of_replayRecipients hstate
  have hfresh := haccepts.continues.fresh
  rw [hfollows.trail_eq, StampTrail.mem_through_operations] at hfresh
  exact hfresh (.inr ⟨previous.stamp, List.mem_map_of_mem hprevious, hsame⟩)

/-- An accepted correction names the whole departure: its populations, the papers issued when it
left and everyone it was ever said to have gone to. -/
theorem RecipientReplay.Accepts.covers (h : state.Accepts original record)
    (hfollows : state.Follows original history) {target : CorrectionImpact}
    (htarget : target ∈ (original.affected
      (.known original.recipient :: (history ++ [record]).map (·.after))).entries) :
    target ∈ record.impact := by
  rw [List.map_append, ← List.cons_append, List.map_singleton,
    OriginalRecipientAttribution.entries_affected_concat, Finset.mem_union] at htarget
  rw [h.impact_iff, hfollows.required_iff]
  rcases htarget with hold | hnew
  · exact .inl (.inl hold)
  · exact .inr (.inl hnew)

/-- **No recipient correction forgets an impact**: it names what every earlier one named, and the
whole departure with everyone it was ever said to have gone to. -/
theorem recipient_history_retains
    (h : currentRecipientAttribution original (earlier ++ record :: later) = .ok current) :
    (∀ previous ∈ earlier, ∀ target ∈ previous.impact, target ∈ record.impact) ∧
    ∀ target ∈ (original.affected
        (.known original.recipient :: (earlier ++ [record]).map (·.after))).entries,
      target ∈ record.impact := by
  obtain ⟨-, -, state, hstate, -⟩ := currentRecipientAttribution_eq_ok.mp h
  obtain ⟨before, hfollows, haccepts⟩ := accepts_of_replayRecipients hstate
  refine ⟨fun previous hprevious target htarget => ?_, fun target => haccepts.covers hfollows⟩
  exact (haccepts.impact_iff target).mpr
    (.inl (hfollows.retained previous hprevious target htarget))

end HarvestCircle
