import HarvestCircle.Attribution

/-! # Corrections of where a population came from

As for recipients, a history is replayed from the original and a plan appends to it.
The impact of a correction has to cover at least what the replay has found; a plan adds
to it what lies downstream of the population, its departures and its papers, as they are
when it is made.

One source identity stands for one source, over the whole history.
-/
namespace HarvestCircle
open Checked

/-- The source as first recorded. -/
structure OriginalSourceAttribution where
  hub : HubId
  operation : HubRecordId
  trace : HubRecordId
  stockRevision : HubRevision
  catalogRevision : HubRevision
  recordedAt : UnixTimestamp
  actor : PublicKey
  source : AmendedSource
  deriving DecidableEq, Repr

/-- Where the replay of its corrections starts. -/
def OriginalSourceAttribution.trail (original : OriginalSourceAttribution) : StampTrail :=
  ⟨original.stockRevision, original.catalogRevision, original.recordedAt, {original.operation}⟩

/-- One correction, with what it follows. -/
structure SourceAttributionCorrection where
  stamp : AttributionStamp
  original : OriginalSourceAttribution
  prior : Option HubRecordId
  before : AmendedSource
  after : AmendedSource
  impact : CorrectionImpactSet
  deriving DecidableEq, Repr

/-- What the replay of the corrections keeps. -/
structure SourceReplay where
  current : AmendedSource
  prior : Option HubRecordId
  trail : StampTrail
  /-- The references used so far; one identity stands for one of them. -/
  identities : List SourceReference
  required : ImpactBuilder

/-- The reference of a source that has one. -/
def SourceAttribution.reference : SourceAttribution → Option SourceReference
  | .unknown => none
  | .referenced source _ => some source

/-- One correction of a replayed history. -/
def SourceReplay.step (original : OriginalSourceAttribution) (state : SourceReplay)
    (record : SourceAttributionCorrection) : Except AttributionError SourceReplay := do
  let trail ← state.trail.enter original.hub record.stamp
  refuse (record.original ≠ original ∨ record.prior ≠ state.prior ∨
    record.before ≠ state.current ∨ record.after.source = record.before.source ∨
    .population original.trace ∉ record.impact) .invalidHistory
  record.after.validate record.stamp.catalogRevision
  mapErr (fun _ => .sourceIdentityConflict)
    (validateSourceReuse record.after.source [record.before.source, original.source.source])
  refuse (∃ source ∈ record.after.source.reference, ∃ old ∈ state.identities,
    old.id = source.id ∧ old ≠ source) .sourceIdentityConflict
  let required ← state.required.source original.trace record.after.source
  refuse (∃ target ∈ required.targets, target ∉ record.impact) .invalidHistory
  let required ← record.impact.rows.foldlM (fun required target => required.add target) required
  return ⟨record.after, some record.stamp.operation, trail,
    record.after.source.reference.toList ++ state.identities, required⟩

/-- Before the first correction. -/
def SourceReplay.start (original : OriginalSourceAttribution) :
    Except AttributionError SourceReplay := do
  let required ← ImpactBuilder.new.add (.population original.trace)
  let required ← required.source original.trace original.source.source
  return ⟨original.source, none, original.trail, original.source.source.reference.toList, required⟩

def replaySources (original : OriginalSourceAttribution)
    (history : List SourceAttributionCorrection) : Except AttributionError SourceReplay :=
  replay (SourceReplay.start original) (SourceReplay.step original) history

def currentSourceAttribution (original : OriginalSourceAttribution)
    (history : List SourceAttributionCorrection) : Except AttributionError AmendedSource := do
  refuse (history.length > hubCorrectionRows) .capacity
  original.source.validate original.catalogRevision
  refuse (original.stockRevision = .initial) .invalidHistory
  let state ← replaySources original history
  return state.current

/-! ## What the replay accepts -/

/-- A correction continues a replayed history. -/
structure SourceReplay.Accepts (original : OriginalSourceAttribution) (state : SourceReplay)
    (record : SourceAttributionCorrection) : Prop where
  continues : state.trail.Continues original.hub record.stamp
  original_eq : record.original = original
  prior_eq : record.prior = state.prior
  before_eq : record.before = state.current
  changed : record.after.source ≠ record.before.source
  population_mem : .population original.trace ∈ record.impact
  valid : record.after.validate record.stamp.catalogRevision = .ok ()
  reuse : validateSourceReuse record.after.source [record.before.source, original.source.source] =
    .ok ()
  identities : ∀ source ∈ record.after.source.reference, ∀ old ∈ state.identities,
    old.id = source.id → old = source
  covers : ∀ target ∈ state.required.targets ∪ record.after.source.entries original.trace,
    target ∈ record.impact

variable {original : OriginalSourceAttribution} {record : SourceAttributionCorrection}
  {state : SourceReplay} {history : List SourceAttributionCorrection} {current : AmendedSource}
  {context : SourceAttributionContext} {operation : HubRecordId}

theorem SourceReplay.step_eq_ok {state' : SourceReplay} :
    step original state record = .ok state' ↔ state.Accepts original record ∧
      state'.current = record.after ∧ state'.prior = some record.stamp.operation ∧
      state'.trail = state.trail.after record.stamp ∧
      state'.identities = record.after.source.reference.toList ++ state.identities ∧
      ∀ target, target ∈ state'.required.targets ↔ target ∈ record.impact := by
  simp only [step, accepted, StampTrail.enter_eq_ok, passed, ImpactBuilder.collects_source _ _ _ _,
    ImpactBuilder.collects_addAll (fun target => target) _ _ _, true_and, List.map_id']
  constructor
  · rintro ⟨trail, ⟨hcontinues, rfl⟩, ⟨horiginal, hprior, hbefore, hchanged, hpopulation⟩, hvalid,
      hreuse, hidentities, required, hrequired, hcovers, required', hrequired', rfl⟩
    have hall : ∀ target ∈ required.targets, target ∈ record.impact := by simpa using hcovers
    refine ⟨⟨hcontinues, horiginal, hprior, hbefore, hchanged, hpopulation, hvalid, hreuse, ?_,
      hrequired ▸ hall⟩, rfl, rfl, rfl, rfl, fun target => ?_⟩
    · intro source hsource old hold hid
      by_contra hne
      exact hidentities ⟨source, hsource, old, hold, hid, hne⟩
    · rw [hrequired', Finset.mem_union, List.mem_toFinset]
      exact or_iff_right_of_imp (hall target)
  · rintro ⟨haccepts, hcurrent, hprior, htrail, hids, hrequired⟩
    have hsubset : state.required.targets ∪ record.after.source.entries original.trace ⊆
        state'.required.targets := by
      intro target hmem
      rw [hrequired]
      exact haccepts.covers target hmem
    have hcard := (Finset.card_le_card hsubset).trans state'.required.bounded
    refine ⟨_, ⟨haccepts.continues, rfl⟩, ⟨haccepts.original_eq, haccepts.prior_eq,
      haccepts.before_eq, haccepts.changed, haccepts.population_mem⟩, haccepts.valid,
      haccepts.reuse, ?_, ⟨_, hcard⟩, rfl, ?_, state'.required, ?_, ?_⟩
    · rintro ⟨source, hsource, old, hold, hid, hne⟩
      exact hne (haccepts.identities source hsource old hold hid)
    · rintro ⟨target, hmem, hmissing⟩
      exact hmissing (haccepts.covers target hmem)
    · ext target
      rw [hrequired, Finset.mem_union, List.mem_toFinset]
      exact (or_iff_right_of_imp (haccepts.covers target)).symm
    · obtain ⟨current, prior, trail, identities, required⟩ := state'
      simp_all

/-- What the replay knows after a history. -/
structure SourceReplay.Follows (original : OriginalSourceAttribution)
    (history : List SourceAttributionCorrection) (state : SourceReplay) : Prop where
  current_eq : state.current = (history.getLast?.map (·.after)).getD original.source
  prior_eq : state.prior = history.getLast?.map (·.stamp.operation)
  trail_eq : state.trail = original.trail.through (history.map (·.stamp))
  identities_of : ∀ reference ∈ state.identities,
    ∃ source ∈ original.source.source :: history.map (·.after.source),
      source.reference = some reference
  required_of : ∀ target ∈ state.required.targets, target = .population original.trace ∨
    target ∈ original.source.source.entries original.trace ∨
    ∃ record ∈ history, target ∈ record.impact
  interpreted : ∀ source ∈ original.source.source :: history.map (·.after.source),
    ∀ target ∈ source.entries original.trace, target ∈ state.required.targets
  retained : ∀ record ∈ history, ∀ target ∈ record.impact, target ∈ state.required.targets

theorem replaySources_follows (h : replaySources original history = .ok state) :
    state.Follows original history := by
  simp only [replaySources, replay, SourceReplay.start, accepted,
    ImpactBuilder.collects_source _ _ _ _, ImpactBuilder.collects_add _ _ _, true_and] at h
  obtain ⟨_, ⟨required, hrequired, required', hrequired', rfl⟩, hrun⟩ := h
  refine foldlM_invariant (fun done state => SourceReplay.Follows original done state)
    ⟨rfl, rfl, rfl, ?_, ?_, ?_, by simp⟩ ?_ hrun
  · simp
  · intro target
    simp only [hrequired', hrequired, ImpactBuilder.new, Finset.empty_union, Finset.mem_union,
      Finset.mem_singleton]
    rintro (h | h)
    · exact .inl h
    · exact .inr (.inl h)
  · intro source hsource target htarget
    obtain rfl := List.mem_singleton.mp hsource
    simp [hrequired', htarget]
  · intro done record rest state state' hhistory hfollows hstep
    obtain ⟨haccepts, hcurrent, hprior, htrail, hids, hrequired⟩ := SourceReplay.step_eq_ok.mp hstep
    have hgrown : ∀ target ∈ state.required.targets, target ∈ state'.required.targets :=
      fun target htarget => (hrequired target).mpr (haccepts.covers target (by simp [htarget]))
    refine ⟨by simp [hcurrent], by simp [hprior], by simp [htrail, hfollows.trail_eq], ?_, ?_, ?_,
      ?_⟩
    · intro reference hreference
      rw [hids, List.mem_append, Option.mem_toList] at hreference
      rcases hreference with hnew | hold
      · exact ⟨record.after.source, by simp, hnew⟩
      · obtain ⟨source, hsource, heq⟩ := hfollows.identities_of reference hold
        refine ⟨source, ?_, heq⟩
        rw [List.map_append, ← List.cons_append, List.mem_append]
        exact .inl hsource
    · intro target htarget
      exact .inr (.inr ⟨record, by simp, (hrequired target).mp htarget⟩)
    · intro source hsource target htarget
      rw [List.map_append, ← List.cons_append, List.mem_append] at hsource
      rcases hsource with hold | hnew
      · exact hgrown target (hfollows.interpreted source hold target htarget)
      · obtain rfl := List.mem_singleton.mp hnew
        exact (hrequired target).mpr (haccepts.covers target (by simp [htarget]))
    · intro earlier hmem target htarget
      rcases List.mem_append.mp hmem with hold | hnew
      · exact hgrown target (hfollows.retained earlier hold target htarget)
      · obtain rfl := List.mem_singleton.mp hnew
        exact (hrequired target).mpr htarget

/-- The current source is one of those that were ever given. -/
theorem SourceReplay.Follows.current_mem (h : state.Follows original history) :
    state.current.source ∈ original.source.source :: history.map (·.after.source) := by
  rw [h.current_eq]
  cases hlast : history.getLast? with
  | none => simp
  | some record =>
    have hmem := List.mem_of_getLast? hlast
    exact List.mem_cons_of_mem _ (List.mem_map_of_mem hmem)

theorem SourceAttribution.reference_eq_some {source : SourceAttribution}
    {reference : SourceReference} (h : source.reference = some reference) :
    ∃ certainty, source = .referenced reference certainty := by
  cases source with
  | unknown => cases h
  | referenced found certainty =>
    cases h
    exact ⟨certainty, rfl⟩

theorem currentSourceAttribution_eq_ok :
    currentSourceAttribution original history = .ok current ↔
      history.length ≤ hubCorrectionRows ∧
        original.source.validate original.catalogRevision = .ok () ∧
        original.stockRevision ≠ .initial ∧
        ∃ state, replaySources original history = .ok state ∧ state.current = current := by
  simp only [currentSourceAttribution, accepted, passed]

/-- A correction that continues the replay is accepted at the end of the history. -/
theorem SourceReplay.Accepts.current_concat (h : state.Accepts original record)
    (hlength : history.length < hubCorrectionRows)
    (hcurrent : currentSourceAttribution original history = .ok current)
    (hstate : replaySources original history = .ok state) :
    currentSourceAttribution original (history ++ [record]) = .ok record.after := by
  obtain ⟨-, hvalid, hlater, -⟩ := currentSourceAttribution_eq_ok.mp hcurrent
  have hrows : (history ++ [record]).length ≤ hubCorrectionRows := by
    rw [List.length_append, List.length_singleton]
    exact hlength
  refine currentSourceAttribution_eq_ok.mpr ⟨hrows, hvalid, hlater, ⟨record.after,
    some record.stamp.operation, state.trail.after record.stamp,
    record.after.source.reference.toList ++ state.identities, .ofSet record.impact⟩, ?_, rfl⟩
  exact replay_concat.mpr ⟨state, hstate, SourceReplay.step_eq_ok.mpr
    ⟨h, rfl, rfl, rfl, rfl, fun target => List.mem_toFinset⟩⟩

variable {earlier later : List SourceAttributionCorrection} {impact : ImpactBuilder}
  {command : SourceAttributionCommand} {correction : SourceAttributionCorrection}
  {now : UnixTimestamp}

/-- In an accepted history every correction was accepted after those before it. -/
theorem accepts_of_replaySources
    (h : replaySources original (earlier ++ record :: later) = .ok state) :
    ∃ before, SourceReplay.Follows original earlier before ∧ before.Accepts original record := by
  obtain ⟨before, _, hbefore, hstep⟩ := exists_of_replay h
  exact ⟨before, replaySources_follows hbefore, (SourceReplay.step_eq_ok.mp hstep).1⟩

/-- **No source correction forgets an impact**: it names what every earlier one named, and every
source the population was ever said to have come from. -/
theorem source_history_retains
    (h : currentSourceAttribution original (earlier ++ record :: later) = .ok current) :
    (∀ previous ∈ earlier, ∀ target ∈ previous.impact, target ∈ record.impact) ∧
    ∀ source ∈ original.source.source :: (earlier ++ [record]).map (·.after.source),
      ∀ target ∈ source.entries original.trace, target ∈ record.impact := by
  obtain ⟨-, -, -, state, hstate, -⟩ := currentSourceAttribution_eq_ok.mp h
  obtain ⟨before, hfollows, haccepts⟩ := accepts_of_replaySources hstate
  refine ⟨fun previous hprevious target htarget => ?_, fun source hsource target htarget => ?_⟩
  · refine haccepts.covers target (Finset.mem_union_left _ ?_)
    exact hfollows.retained previous hprevious target htarget
  · rw [List.map_append, ← List.cons_append, List.mem_append] at hsource
    rcases hsource with hold | hnew
    · refine haccepts.covers target (Finset.mem_union_left _ ?_)
      exact hfollows.interpreted source hold target htarget
    · obtain rfl := List.mem_singleton.mp hnew
      exact haccepts.covers target (Finset.mem_union_right _ htarget)

/-- Corrects the source of a population. -/
structure SourceAttributionCommand where
  trace : HubRecordId
  expectedStockRevision : HubRevision
  expectedCatalogRevision : HubRevision
  expectedPrior : Option HubRecordId
  source : SourceAttribution
  basis : SourceProvenance
  deriving DecidableEq, Repr

/-- What the hub reads for the correction. -/
structure SourceAttributionContext where
  cut : AttributionCut
  original : OriginalSourceAttribution
  history : List SourceAttributionCorrection
  knownSources : List SourceAttribution
  /-- Every departure of the population. -/
  affected : List AttributionAffectedDeparture
  /-- Every paper that was issued with the population on it. -/
  issuedVersions : List AttributionAffectedIssuedVersion
  deriving DecidableEq, Repr

/-- What lies downstream of the population: its departures and its papers. -/
def SourceAttributionContext.downstream (context : SourceAttributionContext) (trace : HubRecordId)
    (operation : HubRecordId) : Except AttributionError ImpactBuilder := do
  let downstream ← ImpactBuilder.new.add (.population trace)
  let (_, downstream) ← context.affected.foldlM (fun (events, downstream) event => do
    refuse (trace ∉ event.populations ∨ event.operation ∈ events ∨ event.operation = operation)
      .invalidScope
    let downstream ← event.impact downstream context.cut.catalog.revision
    return (event.operation :: events, downstream)) ([], downstream)
  let (_, downstream) ← context.issuedVersions.foldlM (fun (versions, downstream) issued => do
    refuse (trace ∉ issued.populations ∨ issued.version = operation ∨ issued.version ∈ versions ∨
      issued.stockRevision.value > context.cut.stockRevision.value ∨
      issued.catalogRevision.value > context.cut.catalog.revision.value) .invalidScope
    let downstream ← issued.impact downstream
    return (issued.version :: versions, downstream)) ([], downstream)
  return downstream

/-- Every source the population was said to have come from, the new one included. -/
def SourceAttributionContext.interpreted (context : SourceAttributionContext) (trace : HubRecordId)
    (after : SourceAttribution) : Except AttributionError ImpactBuilder := do
  let impact ← ImpactBuilder.new.add (.population trace)
  let impact ← impact.source trace context.original.source.source
  let impact ← context.history.foldlM (fun impact record =>
    impact.source trace record.after.source) impact
  impact.source trace after

/-- What earlier corrections named, and what lies downstream now.  What an earlier one named
downstream has to be there still. -/
def SourceAttributionContext.retain (context : SourceAttributionContext)
    (downstream impact : ImpactBuilder) : Except AttributionError ImpactBuilder := do
  let impact ← context.history.foldlM (fun impact prior =>
    prior.impact.rows.foldlM (fun impact target => do
      refuse (target.IsDownstream ∧ target ∉ downstream.targets) .invalidScope
      impact.add target) impact) impact
  downstream.rows.foldlM (fun impact target => impact.add target) impact

def SourceAttributionCommand.plan (command : SourceAttributionCommand)
    (context : SourceAttributionContext) (operation : HubRecordId) (actor : PublicKey)
    (now : UnixTimestamp) : Except AttributionError SourceAttributionCorrection := do
  let next ← context.cut.check command.expectedStockRevision command.expectedCatalogRevision now
  refuse (context.history.length ≥ hubCorrectionRows ∨
    context.knownSources.length > hubReferenceHistoryCapacity ∨
    context.affected.length > hubCorrectionRows ∨
    context.issuedVersions.length > hubCorrectionImpacts) .capacity
  refuse (command.trace ≠ context.original.trace ∨ context.original.hub ≠ context.cut.hub)
    .invalidScope
  let before ← currentSourceAttribution context.original context.history
  let last := context.history.getLast?
  refuse (command.expectedPrior ≠ last.map (·.stamp.operation)) .staleRevision
  refuse (((last.map (·.stamp.stockRevision)).getD context.original.stockRevision).value >
      context.cut.stockRevision.value ∨
    ((last.map (·.stamp.catalogRevision)).getD context.original.catalogRevision).value >
      context.cut.catalog.revision.value ∨
    now < (last.map (·.stamp.recordedAt)).getD context.original.recordedAt ∨
    operation = context.original.operation ∨
    (∃ record ∈ context.history, record.stamp.operation = operation)) .invalidHistory
  let _ ← command.source.reference.mapM fun source =>
    mapErr (fun _ => AttributionError.invalidReference) (source.validate context.cut.catalog)
  mapErr (fun _ => .sourceIdentityConflict) (validateSourceReuse command.source
    (context.knownSources ++ context.original.source.source ::
      context.history.map (·.after.source)))
  let issuer ← (command.source.reference.bind (·.issuer)).mapM fun id =>
    mapErr (fun _ => AttributionError.invalidReference)
      (context.cut.catalog.requireKind id .party)
  let after : AmendedSource := { source := command.source, issuer }
  after.validate context.cut.catalog.revision
  refuse (before.source = after.source) .noChange
  let impact ← context.interpreted command.trace after.source
  let downstream ← context.downstream command.trace operation
  let impact ← context.retain downstream impact
  let impact ← impact.finish
  return {
    stamp := {
      operation, hub := context.cut.hub, stockRevision := next
      catalogRevision := context.cut.catalog.revision, actor, recordedAt := now
      basis := command.basis }
    original := context.original, prior := command.expectedPrior, before, after, impact }

open ImpactBuilder in
theorem SourceAttributionContext.interpreted_eq_ok {trace : HubRecordId} {after : SourceAttribution}
    (h : context.interpreted trace after = .ok impact) (target : CorrectionImpact) :
    target ∈ impact.targets ↔ target = .population trace ∨
      ∃ source ∈ context.original.source.source :: context.history.map (·.after.source) ++ [after],
        target ∈ source.entries trace := by
  have hcollects := (collects_add (.population trace)).bind
    ((collects_source trace context.original.source.source).bind
      ((Collects.foldlM (fun record : SourceAttributionCorrection =>
        collects_source trace record.after.source) context.history).bind
        (collects_source trace after)))
  rw [((hcollects _ _).mp h).2]
  simp only [ImpactBuilder.new, Finset.empty_union, Finset.mem_union, Finset.mem_singleton,
    Finset.mem_biUnion, List.mem_toFinset, List.mem_append, List.mem_cons, List.mem_map,
    List.not_mem_nil, or_false, or_and_right, exists_or, exists_eq_left, or_assoc,
    exists_exists_and_eq_and]

open ImpactBuilder in
theorem SourceAttributionContext.retain_eq_ok {downstream impact' : ImpactBuilder}
    (h : context.retain downstream impact = .ok impact') (target : CorrectionImpact) :
    target ∈ impact'.targets ↔ target ∈ impact.targets ∨
      (∃ record ∈ context.history, target ∈ record.impact) ∨ target ∈ downstream.targets := by
  have hprior := Collects.foldlM (fun prior : SourceAttributionCorrection =>
    Collects.foldlM (fun target : CorrectionImpact => (collects_add target).guard
      (refuse (target.IsDownstream ∧ target ∉ downstream.targets) .invalidScope))
      prior.impact.rows) context.history
  have hcollects := hprior.bind (collects_addAll (fun target => target) downstream.rows)
  rw [((hcollects _ _).mp h).2]
  simp only [Finset.mem_union, Finset.mem_biUnion, List.mem_toFinset, Finset.mem_singleton,
    List.map_id', ImpactBuilder.mem_rows, exists_eq_right']
  exact Iff.rfl

/-- The departures and papers a source plan was shown are in what lies downstream. -/
theorem SourceAttributionContext.downstream_eq_ok {trace : HubRecordId} {downstream : ImpactBuilder}
    (h : context.downstream trace operation = .ok downstream) :
    (∀ event ∈ context.affected, ∀ target ∈ event.entries, target ∈ downstream.targets) ∧
    ∀ issued ∈ context.issuedVersions, ∀ target ∈ issued.entries, target ∈ downstream.targets := by
  simp only [SourceAttributionContext.downstream, accepted] at h
  obtain ⟨start, -, ⟨events, middle⟩, hmiddle, ⟨versions, final⟩, hfinal, rfl⟩ := h
  have hevents : ∀ event ∈ context.affected, ∀ target ∈ event.entries, target ∈ middle.targets := by
    refine foldlM_invariant (fun done (state : List HubRecordId × ImpactBuilder) =>
      ∀ event ∈ done, ∀ target ∈ event.entries, target ∈ state.2.targets) (by simp) ?_ hmiddle
    intro done event rest state state' _ hdone hstep earlier hearlier target htarget
    simp only [accepted, AttributionAffectedDeparture.collects_impact _ _ _ _] at hstep
    obtain ⟨-, next, ⟨-, hnext⟩, rfl⟩ := hstep
    rw [hnext, Finset.mem_union]
    rcases List.mem_append.mp hearlier with hold | hnew
    · exact .inl (hdone earlier hold target htarget)
    · obtain rfl := List.mem_singleton.mp hnew
      exact .inr htarget
  have hversions : (∀ target ∈ middle.targets, target ∈ final.targets) ∧
      ∀ issued ∈ context.issuedVersions, ∀ target ∈ issued.entries, target ∈ final.targets := by
    refine foldlM_invariant (fun done (state : List HubRecordId × ImpactBuilder) =>
      (∀ target ∈ middle.targets, target ∈ state.2.targets) ∧
      ∀ issued ∈ done, ∀ target ∈ issued.entries, target ∈ state.2.targets)
      ⟨fun _ h => h, by simp⟩ ?_ hfinal
    intro done issued rest state state' _ hdone hstep
    simp only [accepted, AttributionAffectedIssuedVersion.collects_impact _ _ _] at hstep
    obtain ⟨-, next, ⟨-, hnext⟩, rfl⟩ := hstep
    simp only [hnext, Finset.mem_union]
    refine ⟨fun target htarget => .inl (hdone.1 target htarget), ?_⟩
    intro earlier hearlier target htarget
    rcases List.mem_append.mp hearlier with hold | hnew
    · exact .inl (hdone.2 earlier hold target htarget)
    · obtain rfl := List.mem_singleton.mp hnew
      exact .inr htarget
  exact ⟨fun event hevent target htarget =>
    hversions.1 target (hevents event hevent target htarget), hversions.2⟩

/-- A source plan starts from the accepted history and names everything it was shown. -/
theorem SourceAttributionCommand.plan_eq_ok {actor : PublicKey}
    (h : command.plan context operation actor now = .ok correction) :
    context.history.length < hubCorrectionRows ∧
    ∃ state, replaySources context.original context.history = .ok state ∧
      state.Accepts context.original correction ∧
    (∀ event ∈ context.affected, ∀ target ∈ event.entries, target ∈ correction.impact) ∧
    ∀ issued ∈ context.issuedVersions, ∀ target ∈ issued.entries, target ∈ correction.impact := by
  simp only [plan, accepted, not_or, Decidable.not_not] at h
  obtain ⟨next, hnext, ⟨hlength, -⟩, ⟨htrace, hhub⟩, before, hbefore, hprior, ⟨hrevision, hcatalog,
    htime, hoperation, hfresh⟩, reference, -, hreuse, issuer, -, hvalid, hchanged, first, hfirst,
    downstream, hdownstream, second, hsecond, impact, himpact, rfl⟩ := h
  obtain ⟨-, -, -, state, hstate, rfl⟩ := currentSourceAttribution_eq_ok.mp hbefore
  have hfollows := replaySources_follows hstate
  rw [htrace] at hfirst hdownstream
  have hmem : ∀ target, target ∈ impact ↔ target ∈ first.targets ∨
      (∃ record ∈ context.history, target ∈ record.impact) ∨ target ∈ downstream.targets :=
    fun target => (ImpactBuilder.finish_eq_ok.mp himpact target).trans
      (SourceAttributionContext.retain_eq_ok hsecond target)
  have hown := SourceAttributionContext.interpreted_eq_ok hfirst
  obtain ⟨hevents, hversions⟩ := SourceAttributionContext.downstream_eq_ok hdownstream
  refine ⟨by omega, state, hstate, ?_, fun event hevent target htarget =>
    (hmem target).mpr (.inr (.inr (hevents event hevent target htarget))),
    fun issued hissued target htarget =>
    (hmem target).mpr (.inr (.inr (hversions issued hissued target htarget)))⟩
  have hexisting := validateSourceReuse_eq_ok.mp hreuse
  exact {
    continues := by
      rw [hfollows.trail_eq]
      refine StampTrail.continues_of_plan hhub.symm hnext (not_lt.mp hrevision)
        (not_lt.mp hcatalog) (not_lt.mp htime) ?_ hfresh
      exact fun hsame => hoperation (Finset.mem_singleton.mp hsame)
    original_eq := rfl
    prior_eq := hprior.trans hfollows.prior_eq.symm
    before_eq := rfl
    changed := fun hsame => hchanged hsame.symm
    population_mem := (hmem _).mpr (.inl ((hown _).mpr (.inl rfl)))
    valid := hvalid
    reuse := by
      refine validateSourceReuse_eq_ok.mpr fun source certainty heq previous hprevious => ?_
      refine hexisting source certainty heq previous (List.mem_append_right _ ?_)
      rcases List.mem_cons.mp hprevious with rfl | horiginal
      · exact hfollows.current_mem
      · rw [List.mem_singleton.mp horiginal]
        exact List.mem_cons_self
    identities := by
      intro source hsource old hold hid
      obtain ⟨certainty, heq⟩ := SourceAttribution.reference_eq_some hsource
      obtain ⟨previous, hprevious, href⟩ := hfollows.identities_of old hold
      obtain ⟨certainty', rfl⟩ := SourceAttribution.reference_eq_some href
      by_contra hne
      exact hexisting source certainty heq _ (List.mem_append_right _ hprevious) ⟨hid, hne⟩
    covers := by
      intro target htarget
      rcases Finset.mem_union.mp htarget with hrequired | hafter
      · rcases hfollows.required_of target hrequired with rfl | horiginal | hrecord
        · exact (hmem _).mpr (.inl ((hown _).mpr (.inl rfl)))
        · exact (hmem _).mpr (.inl ((hown _).mpr (.inr ⟨_, by simp, horiginal⟩)))
        · exact (hmem _).mpr (.inr (.inl hrecord))
      · exact (hmem _).mpr (.inl ((hown _).mpr (.inr ⟨_, by simp, hafter⟩))) }

/-- **A planned source correction is accepted at the end of its history.** -/
theorem SourceAttributionCommand.plan_extends {actor : PublicKey}
    (h : command.plan context operation actor now = .ok correction) :
    currentSourceAttribution context.original (context.history ++ [correction]) =
      .ok correction.after := by
  obtain ⟨hlength, state, hstate, haccepts, -⟩ := plan_eq_ok h
  simp only [plan, bind_eq_ok] at h
  obtain ⟨_, -, _, -, _, -, before, hbefore, -⟩ := h
  exact haccepts.current_concat hlength hbefore hstate

end HarvestCircle
