import HarvestCircle.CountReturns
import HarvestCircle.InventoryOrder

/-! # No population is its own origin

The audit of a new association passes exactly if the edges so far are sound and the new one
closes no circle (`auditProvenance_ends`).  Its last loop has no guard of its own; it ends
because the first loop has found no cycle.  So in every history of established returns and
associations each population came from at most one other, and going back from any of them
comes to an end.
-/
namespace HarvestCircle
open Checked Chains Codes

/-! ## The audit -/

/-- The populations of the edges, with the two that are asked about. -/
def provenanceNodes (edges : List (HubRecordId × HubRecordId)) (population source : HubRecordId) :
    Finset HubRecordId :=
  {population, source} ∪ (edges.map Prod.fst).toFinset ∪ (edges.map Prod.snd).toFinset

theorem provenanceNodes_concat (edges : List (HubRecordId × HubRecordId))
    (edge : HubRecordId × HubRecordId) (population source : HubRecordId) :
    provenanceNodes (edges ++ [edge]) population source =
      insert edge.2 (insert edge.1 (provenanceNodes edges population source)) := by
  ext id
  simp only [provenanceNodes, List.map_append, List.map_cons, List.map_nil, List.toFinset_append,
    List.toFinset_cons, List.toFinset_nil, insert_empty_eq, Finset.mem_union, Finset.mem_insert,
    Finset.mem_singleton]
  tauto

/-- The first loop collects the edges if no two have one start and the populations are not too
many. -/
theorem foldlM_enterEdge_tests (edges : List (HubRecordId × HubRecordId))
    (population source : HubRecordId) :
    Tests (edges.foldlM enterEdge ([], {population, source}))
      (Functional edges ∧ (provenanceNodes edges population source).card ≤ hubTraceCapacity)
      (· = (edges, provenanceNodes edges population source)) := by
  refine foldlM_tests
    (fun done => Functional done ∧
      (provenanceNodes done population source).card ≤ hubTraceCapacity)
    (fun done (entered : List (HubRecordId × HubRecordId) × Finset HubRecordId) =>
      entered = (done, provenanceNodes done population source)) ?_ ?_ ?_ ?_
  · rintro done rest ⟨hfunctional, hcard⟩
    refine ⟨?_, (Finset.card_le_card fun id hid => ?_).trans hcard⟩
    · rw [Functional, List.map_append] at hfunctional
      exact hfunctional.of_append_left
    · simp only [provenanceNodes, List.map_append, List.toFinset_append, Finset.mem_union] at hid ⊢
      tauto
  · rintro done edge rest _ - ⟨hfunctional, -⟩ rfl
    simp only [tests_iff, enterEdge, accepted, passed, ← provenanceNodes_concat]
    constructor
    · constructor
      · rintro ⟨-, hnew, hcard, -⟩
        refine ⟨?_, hcard⟩
        rw [Functional, List.map_append, List.map_singleton, List.nodup_append]
        refine ⟨hfunctional, List.nodup_singleton _, fun a ha b hb => ?_⟩
        rw [List.mem_singleton.mp hb]
        rintro rfl
        exact hnew ha
      · rintro ⟨hconcat, hcard⟩
        rw [Functional, List.map_append, List.map_singleton, List.nodup_append] at hconcat
        exact ⟨_, fun hmem => hconcat.2.2 _ hmem _ (List.mem_singleton_self _) rfl, hcard, rfl⟩
    · rintro entered ⟨-, -, rfl⟩
      rfl
  · refine ⟨List.nodup_nil, (Finset.card_le_card (t := {population, source}) ?_).trans ?_⟩
    · simp [provenanceNodes]
    · exact Finset.card_le_two.trans (by decide)
  · simp [provenanceNodes]

/-- A new edge from the population to the source can be added. -/
structure MayComeFrom (edges : List (HubRecordId × HubRecordId)) (population source : HubRecordId) :
    Prop where
  functional : Functional edges
  nodes_le : (provenanceNodes edges population source).card ≤ hubTraceCapacity
  acyclic : Acyclic edges
  fresh : population ∉ edges.map Prod.fst
  not_reaches : ¬ Reaches edges source population

variable {edges : List (HubRecordId × HubRecordId)}

/-- The second loop, in any order of the starts. -/
theorem survey_starts_iff (hfunctional : Functional edges) :
    (survey edges ((edges.map Prod.fst).insertionSort (· ≤ ·))).isSome ↔ Acyclic edges :=
  survey_isSome_iff hfunctional fun _ => (List.perm_insertionSort _ _).mem_iff

variable {counts : List CountReturnAssociation} {normal : List NormalReturnProvenance}
  {population source : HubRecordId}

/-- What the audit comes to, once the edges are collected. -/
theorem auditProvenanceWithin_eq (hfunctional : Functional (provenanceEdges counts normal))
    (hnodes : (provenanceNodes (provenanceEdges counts normal) population source).card ≤
      hubTraceCapacity) (hacyclic : Acyclic (provenanceEdges counts normal))
    (hfresh : population ∉ (provenanceEdges counts normal).map Prod.fst) (fuel : Nat) :
    auditProvenanceWithin fuel counts normal population source =
      (follow (provenanceEdges counts normal) population fuel source).map fun found =>
        if found then .error .invalidFacts else .ok () := by
  obtain ⟨htest, hentered⟩ :=
    foldlM_enterEdge_tests (provenanceEdges counts normal) population source
  obtain ⟨entered, hloop⟩ := htest.mpr ⟨hfunctional, hnodes⟩
  obtain ⟨complete, hcomplete⟩ :=
    Option.isSome_iff_exists.mp ((survey_starts_iff hfunctional).mpr hacyclic)
  rw [auditProvenanceWithin, hloop, hentered entered hloop]
  dsimp only
  rw [hcomplete]
  dsimp only
  rw [if_neg hfresh]

/-- Otherwise the audit fails before its last loop. -/
theorem auditProvenanceWithin_error (h : ¬ (Functional (provenanceEdges counts normal) ∧
      (provenanceNodes (provenanceEdges counts normal) population source).card ≤ hubTraceCapacity ∧
      Acyclic (provenanceEdges counts normal) ∧
      population ∉ (provenanceEdges counts normal).map Prod.fst)) :
    ∃ error, ∀ fuel, auditProvenanceWithin fuel counts normal population source =
      some (.error error) := by
  obtain ⟨htest, hentered⟩ :=
    foldlM_enterEdge_tests (provenanceEdges counts normal) population source
  unfold auditProvenanceWithin
  cases hloop : (provenanceEdges counts normal).foldlM enterEdge ([], {population, source}) with
  | error error => exact ⟨error, fun _ => rfl⟩
  | ok entered =>
    obtain ⟨hfunctional, hnodes⟩ := htest.mp ⟨_, hloop⟩
    rw [hentered entered hloop]
    dsimp only
    cases hsurvey : survey (provenanceEdges counts normal)
        (((provenanceEdges counts normal).map Prod.fst).insertionSort (· ≤ ·)) with
    | none => exact ⟨_, fun _ => rfl⟩
    | some complete =>
      have hacyclic := (survey_starts_iff hfunctional).mp (by simp [hsurvey])
      have hstart : population ∈ (provenanceEdges counts normal).map Prod.fst := by
        by_contra hfresh
        exact h ⟨hfunctional, hnodes, hacyclic, hfresh⟩
      exact ⟨.alreadyAssociated, fun _ => if_pos hstart⟩

/-- **The audit ends, and it passes exactly if the edge can be added.** -/
theorem auditProvenance_ends (counts : List CountReturnAssociation)
    (normal : List NormalReturnProvenance) (population source : HubRecordId) :
    (∀ fuel, counts.length + normal.length < fuel →
      auditProvenanceWithin fuel counts normal population source =
        some (auditProvenance counts normal population source)) ∧
    (auditProvenance counts normal population source = .ok () ↔
      MayComeFrom (provenanceEdges counts normal) population source) := by
  have hlength : (provenanceEdges counts normal).length = counts.length + normal.length := by
    simp [provenanceEdges]
  by_cases h : Functional (provenanceEdges counts normal) ∧
      (provenanceNodes (provenanceEdges counts normal) population source).card ≤ hubTraceCapacity ∧
      Acyclic (provenanceEdges counts normal) ∧
      population ∉ (provenanceEdges counts normal).map Prod.fst
  · obtain ⟨hfunctional, hnodes, hacyclic, hfresh⟩ := h
    have hfollow := @auditProvenanceWithin_eq _ _ _ source hfunctional hnodes hacyclic hfresh
    obtain ⟨found, hfound⟩ := @follow_stops _ _ _ hacyclic population
      (counts.length + normal.length + 1) source (by omega)
    have hreaches := follow_eq_some hfunctional hfound
    have haudit : auditProvenance counts normal population source =
        if found then .error .invalidFacts else .ok () := by
      rw [auditProvenance, hfollow, hfound]
      rfl
    constructor
    · intro fuel hfuel
      rw [hfollow fuel, haudit, follow_congr hfunctional hacyclic (by omega)
        (Nat.lt_succ_self (provenanceEdges counts normal).length), hlength, hfound]
      rfl
    · rw [haudit]
      cases found with
      | true => exact iff_of_false (by simp) fun h => h.not_reaches (hreaches.mp rfl)
      | false =>
        refine iff_of_true rfl ⟨hfunctional, hnodes, hacyclic, hfresh, fun hback => ?_⟩
        exact absurd (hreaches.mpr hback) (by simp)
  · obtain ⟨error, herror⟩ := auditProvenanceWithin_error h
    have haudit : auditProvenance counts normal population source = .error error := by
      rw [auditProvenance, herror]
      rfl
    refine ⟨fun fuel _ => by rw [herror, haudit], ?_⟩
    rw [haudit]
    exact iff_of_false (by simp) fun hmay =>
      h ⟨hmay.functional, hmay.nodes_le, hmay.acyclic, hmay.fresh⟩

/-! ## Histories of returns -/

/-- One more return is established, or associated with an explained shortage.  The context of an
association lists every edge there is. -/
inductive ProvenanceStep [Sha256] :
    List CountReturnAssociation × List NormalReturnProvenance →
    List CountReturnAssociation × List NormalReturnProvenance → Prop where
  | established {counts : List CountReturnAssociation} {normal : List NormalReturnProvenance}
      {hub : HubId} {returned : ReturnPlan} {digest : BitVec 256} {row : NormalReturnProvenance}
      (horiginal : NormalReturnProvenance.fromOriginal hub returned digest = .ok row)
      (hfresh : ∀ edge ∈ provenanceEdges counts normal,
        edge.1 ≠ row.population ∧ edge.2 ≠ row.population) :
      ProvenanceStep (counts, normal) (counts, normal ++ [row])
  | associated {counts : List CountReturnAssociation} {normal : List NormalReturnProvenance}
      {command : CountReturnAssociationCommand} {context : CountReturnAssociationContext}
      {operation : HubRecordId} {actor : PublicKey} {now : UnixTimestamp}
      {plan : CountReturnAssociationPlan}
      (hlists : ∀ edge ∈ provenanceEdges counts normal,
        edge ∈ provenanceEdges context.associations context.normalReturns)
      (hplan : command.plan context operation actor now = .ok plan) :
      ProvenanceStep (counts, normal) (counts ++ [plan.association], normal)

/-- The edges of a history. -/
def edgesOf (history : List CountReturnAssociation × List NormalReturnProvenance) :
    List (HubRecordId × HubRecordId) :=
  provenanceEdges history.1 history.2

/-- Each population has one origin at most, and going back ends. -/
structure SoundProvenance (edges : List (HubRecordId × HubRecordId)) : Prop where
  functional : Functional edges
  ends : ∀ n, Ends edges n

theorem SoundProvenance.of_perm {edges' : List (HubRecordId × HubRecordId)}
    (h : SoundProvenance edges) (hperm : edges'.Perm edges) : SoundProvenance edges' := by
  refine ⟨(hperm.map _).nodup_iff.mpr h.functional, fun n => ?_⟩
  have hleads : (fun b a => Leads edges' a b) = fun b a => Leads edges a b := by
    funext b a
    exact propext hperm.mem_iff
  rw [Ends, hleads]
  exact h.ends n

/-- One more edge, from a population that has none to one that does not come from it. -/
theorem SoundProvenance.cons (h : SoundProvenance edges) {a b : HubRecordId}
    (hfresh : a ∉ edges.map Prod.fst) (hreaches : ¬ Reaches edges b a) :
    SoundProvenance ((a, b) :: edges) :=
  ⟨List.nodup_cons.mpr ⟨hfresh, h.functional⟩, ends_cons h.ends hreaches⟩

section
variable [Sha256]

theorem NormalReturnProvenance.population_ne {hub : HubId} {returned : ReturnPlan}
    {digest : BitVec 256} {row : NormalReturnProvenance}
    (h : fromOriginal hub returned digest = .ok row) : row.population ≠ row.sourceTrace := by
  simp only [fromOriginal, validate, accepted, not_or] at h
  obtain ⟨departure, -, source, -, claim, -, -, -, ids, -, -, ⟨derived, -, -, hne, -⟩, rfl⟩ := h
  exact hne

/-- An association adds the edge that was audited. -/
theorem CountReturnAssociationCommand.mayComeFrom_of_plan {command : CountReturnAssociationCommand}
    {context : CountReturnAssociationContext} {operation : HubRecordId} {actor : PublicKey}
    {now : UnixTimestamp} {plan : CountReturnAssociationPlan}
    (h : command.plan context operation actor now = .ok plan) :
    MayComeFrom (provenanceEdges context.associations context.normalReturns)
      plan.association.returnedPopulation plan.association.explanationTrace := by
  simp only [CountReturnAssociationCommand.plan, checkHistory, accepted] at h
  obtain ⟨-, -, -, -, -, _, -, -, -, -, -, -, _, -, -, _, ⟨-, _, -, _, -, -, _, -, -, haudit, -⟩, -,
    _, -, _, -, _, -, _, -, _, -, -, rfl⟩ := h
  exact (auditProvenance_ends _ _ _ _).2.mp haudit

/-- One step keeps the history sound. -/
theorem ProvenanceStep.sound
    {before after : List CountReturnAssociation × List NormalReturnProvenance}
    (hstep : ProvenanceStep before after) (h : SoundProvenance (edgesOf before)) :
    SoundProvenance (edgesOf after) := by
  cases hstep with
  | @established counts normal hub returned digest row horiginal hfresh =>
    have hperm : (provenanceEdges counts (normal ++ [row])).Perm
        ((row.population, row.sourceTrace) :: provenanceEdges counts normal) := by
      rw [provenanceEdges, List.map_append, ← List.append_assoc]
      exact List.perm_append_singleton _ _
    refine (h.cons ?_ ?_).of_perm hperm
    · intro hmem
      obtain ⟨edge, hedge, heq⟩ := List.mem_map.mp hmem
      exact (hfresh edge hedge).1 heq
    · -- nothing leads to the returned population yet
      intro hreaches
      rcases Relation.ReflTransGen.cases_tail hreaches with heq | ⟨last, -, hlast⟩
      · exact NormalReturnProvenance.population_ne horiginal heq
      · exact (hfresh _ hlast).2 rfl
  | @associated counts normal command context operation actor now plan hlists hplan =>
    have haudit := CountReturnAssociationCommand.mayComeFrom_of_plan hplan
    have hperm : (provenanceEdges (counts ++ [plan.association]) normal).Perm
        ((plan.association.returnedPopulation, plan.association.explanationTrace) ::
          provenanceEdges counts normal) := by
      rw [provenanceEdges, List.map_append, List.append_assoc]
      exact List.perm_middle
    refine (h.cons (fun hmem => haudit.fresh ?_) fun hreaches => haudit.not_reaches ?_).of_perm
      hperm
    · obtain ⟨edge, hedge, heq⟩ := List.mem_map.mp hmem
      exact List.mem_map.mpr ⟨edge, hlists edge hedge, heq⟩
    · exact Relation.ReflTransGen.mono (fun a b hleads => hlists (a, b) hleads) _ _ hreaches

/-- **Provenance never becomes circular.** -/
theorem provenance_never_circular :
    (∀ (counts : List CountReturnAssociation) (normal : List NormalReturnProvenance)
      (population source : HubRecordId),
      (∀ fuel, counts.length + normal.length < fuel →
        auditProvenanceWithin fuel counts normal population source =
          some (auditProvenance counts normal population source)) ∧
      (auditProvenance counts normal population source = .ok () ↔
        Functional (provenanceEdges counts normal) ∧
        (provenanceNodes (provenanceEdges counts normal) population source).card ≤
          hubTraceCapacity ∧
        Acyclic (provenanceEdges counts normal) ∧
        population ∉ (provenanceEdges counts normal).map Prod.fst ∧
        ¬ Reaches (provenanceEdges counts normal) source population)) ∧
    ∀ history, Relation.ReflTransGen ProvenanceStep ([], []) history →
      Functional (edgesOf history) ∧ ∀ population, Ends (edgesOf history) population := by
  refine ⟨fun counts normal population source => ⟨fun fuel hfuel => ?_, ?_⟩, fun history hrun => ?_⟩
  · exact (auditProvenance_ends counts normal population source).1 fuel hfuel
  · rw [(auditProvenance_ends counts normal population source).2]
    exact ⟨fun h => ⟨h.functional, h.nodes_le, h.acyclic, h.fresh, h.not_reaches⟩,
      fun ⟨hfunctional, hnodes, hacyclic, hfresh, hreaches⟩ =>
        ⟨hfunctional, hnodes, hacyclic, hfresh, hreaches⟩⟩
  · have hsound : SoundProvenance (edgesOf history) := by
      induction hrun with
      | refl => exact ⟨List.nodup_nil, fun n => ⟨n, fun m hm => by cases hm⟩⟩
      | tail _ hstep ih => exact hstep.sound ih
    exact ⟨hsound.functional, hsound.ends⟩

end

/-! ### A pack of the crate comes back twice -/

/-- Where the packs that the count missed had been. -/
def crateCountSource : ResolvedActualSource where
  historical :=
    ⟨.of 40, crateActor, .of 1, .of 3, .initial,
      ⟨.of 10, .of 2, .of 3, none, .of 6, .of 10, .initial⟩,
      crateDock, .known crateTime, crateTime⟩
  balancingGroup := crate.id

/-- A pack that the count missed had gone to the kitchen. -/
def crateExplanation : CountExplanationPlan where
  operation := .of 51
  actor := crateActor
  recordedAt := crateTime
  report := {
    id := .of 0x4201fceebd3488d0520c73bf8f70dd02, operation := .of 43
    hub := .of 1, stockRevision := .of 4, catalogRevision := .initial
    actor := crateActor, recordedAt := crateTime
    report := ⟨none, none, none, .unknown, .unknown, crateNote⟩ }
  facts := {
    report := .of 0x4201fceebd3488d0520c73bf8f70dd02
    countReconciliation := CountLedger.cratePost.id, expectedStockRevision := .of 7
    expectedCatalogRevision := .initial, expectedPrior := none, packs := .of 1
    recipient := crateRecipient.id, occurred := .known crateTime, sourceEvidence := crateNote
    quantityEvidence := crateNote, recipientEvidence := crateNote, timingEvidence := crateNote }
  count := CountLedger.cratePost
  explanation := ⟨.of 51, .of 8, .of 1⟩
  historicalSource := crateCountSource
  knownEvent := (crateTaken (.of 51) (.of 8)).original
  unexplainedAfter := .of 1
  potentialHistoricalHolds := []

/-- A pack came back; nothing says from where. -/
def crateReturned : ReturnPlan where
  identities := {
    operation := .of 60, returned := .of 0x897f6d220a5d055a7c49ad69adec538e
    population := .of 0xed20b9758c88d97c5a207534f0eb8332
    group := .of 0xea9cbe53d43277b6875101de573c4abd
    source := .of 0x896c0f5b0a78989cb882833d27acc842
    requirement := .of 0x5991528fff92aab2f2d89840c975753e }
  stockRevision := .of 10
  catalogRevision := .initial
  intake := {
    population := .of 0xed20b9758c88d97c5a207534f0eb8332, product := crateProduct
    variant := crateVariant, location := crateDock, returnedBy := none, source := .unknown
    sourceIssuer := none, packs := .of 1, plannedLocation := none
    occurred := .known crateTime, actor := crateActor, recordedAt := crateTime
    observation := crateNote }
  group := {
    crate with
    id := .of 0xea9cbe53d43277b6875101de573c4abd
    trace := .of 0xed20b9758c88d97c5a207534f0eb8332
    identification := some ⟨⟨"R", Eq.refl true⟩, crateNote⟩, packs := .of 1, work := [] }
  intakeWork := none
  acceptance := .reviewRequired
  linkage := ⟨none, none, none, [], .uncertain, .unknown⟩
  currentAllowances := none

/-- The pack went out again and came back from there. -/
def crateReturnedAgain : ReturnPlan :=
  let identities : ReturnIdentities := {
    operation := .of 61, returned := .of 0x84d86816c5260845df576454e873ce48
    population := .of 0x46134aa6372686b58db4bc61ffed62ea
    group := .of 0xc9bbd251ddf85a905d52b4d4b02e7c4a
    source := .of 0x7e8dcdd2f81479fa2e40444977e275fa
    requirement := .of 0x39695b06999847426b3191e6cff5a7b5 }
  let line : DispatchLineSnapshot :=
    ⟨crateReturned.group.id, .initial, .of 1, crateReturned.group.identification, crateDock,
      crateProduct, crateVariant, { cratePopulation with
        id := crateReturned.identities.population, originalPacks := .of 1
        origin := .returned crateReturned.identities.returned, plannedLocation := none }⟩
  { crateReturned with
    identities, stockRevision := .of 12
    intake := { crateReturned.intake with population := identities.population }
    group := { crateReturned.group with id := identities.group, trace := identities.population }
    linkage := {
      claim := some ⟨crateIdentities.departure, some line.group⟩
      departure := some {
        departure := crateIdentities.departure, operation := crateIdentities.operation
        hub := .of 1, stockRevision := .of 11, catalogRevision := .initial
        identification := .of 0x087b66d0ac487eb0862bccaa18772b23
        recipient := crateRecipient, actor := crateActor, recordedAt := crateTime
        occurred := .known crateTime }
      claimedSource := some ⟨line, .zero⟩
      plausibleSources := [⟨line, .zero⟩]
      timing := .afterOrSame
      resolution := .establishedScope } }

/-- SHA-256 on the identities of the two returns and of what is associated. -/
def crateReturnHashes : List (List UInt8 × BitVec 256) :=
  let identity := fun purpose operation =>
    utf8 "harvestcircle.hub.return.identity.v1\x00" ++ utf8 purpose ++ bigEndian 16 operation
  [(identity "return\x00" 60, 0x897f6d220a5d055a7c49ad69adec538e908489eaba19672c35023dfdebf82c7f),
    (identity "population\x00" 60,
      0xed20b9758c88d97c5a207534f0eb83327a8364c6d7424f082de7fc4af92a7277),
    (identity "group\x00" 60, 0xea9cbe53d43277b6875101de573c4abdc467e8d3cdeb5fefd2937fe01830e311),
    (identity "source\x00" 60, 0x896c0f5b0a78989cb882833d27acc842c581447fa1d984db60e368b728fad831),
    (identity "work\x00" 60, 0x5991528fff92aab2f2d89840c975753eef4f68dfa7edab98bd4ea4e1a3a33cae),
    (identity "return\x00" 61, 0x84d86816c5260845df576454e873ce48eb88a6808f4cef9832dc92efac6814f7),
    (identity "population\x00" 61,
      0x46134aa6372686b58db4bc61ffed62eaefbd5213e603cb284a9cf98fc52953ab),
    (identity "group\x00" 61, 0xc9bbd251ddf85a905d52b4d4b02e7c4a6e89d86578f1f138b75a23390ce0743f),
    (identity "source\x00" 61, 0x7e8dcdd2f81479fa2e40444977e275fa1324c4d599f12d1791b0017856f3dbf1),
    (identity "work\x00" 61, 0x39695b06999847426b3191e6cff5a7b5f2232e8320fd628c34c4cef94162c923),
    (utf8 "harvestcircle.hub.actual.report.identity.v1\x00" ++ bigEndian 16 43,
      0x4201fceebd3488d0520c73bf8f70dd021ac9a596a5072febac8bef1be6d7ecc5),
    (utf8 "harvestcircle.hub.correction.count.explanation.record.v1\x00" ++ bigEndian 16 51,
      0x2aeaecabafdf0f7b147a6842b058dd534d14425a4378937a469c78ccb613b7fe),
    (utf8 "harvestcircle.hub.count-return.association.identity.v1\x00" ++ bigEndian 16 62,
      0x49341711655a17bf92181f0a8dd288790a6a927fdfb36d4afb9436e326b152ac)]

/-- SHA-256 on these identities, and on what is hashed of the count and of its explanation. -/
@[reducible] def crateReturnDigest : Sha256 where
  digest bytes :=
    let count := CountLedger.crateCount
    let observe := 0x7875e8d7dbe5f1df429e99b6ffc5fe29245f9aa6d3d1e60649e7e3941ef5703c
    let observed := 0x38ec868a488c4d3468f37f63931a066c108b5928f0b1d9bbefeb620ad926b485
    let posted := 0x170bd972b2f08060cc5a177706429d14ee343b2a2fa5f359890a13cd20429026
    let known := 0x8957f5e39c6be2df8fe06ce19eb4ce3cc6f8f3ecb71634402c0e94973cf74f0c
    match crateReturnHashes.find? fun row => row.1 = bytes with
    | some row => row.2
    | none =>
      if bytes = count.command.preimage count.scope.hub count.actor count.operation then observe
      else if bytes = @CountObservation.resultPreimage crateReferenceDigest count
        observe then observed
      else if bytes = @CountPostPlan.resultPreimage crateReferenceDigest CountLedger.cratePost 0
          observed then posted
      else if bytes = @ActualKnownDeparture.originalPreimage crateReferenceDigest
          crateExplanation.knownEvent then known
      else if bytes = @CountExplanationSourceWitness.preimage crateReferenceDigest
          ⟨known, posted, crateCountSource⟩ then
        0x5c0390ba8264f2a7a741c85a80461fa13aca59ace14457efc72417aa7e301af9
      else if CountLedger.crateCountDigest.digest bytes ≠ 0 then CountLedger.crateCountDigest.digest
        bytes
      else crateReferenceDigest.digest bytes

def crateCameAgain : NormalReturnProvenance where
  hub := .of 1
  returnOperation := .of 61
  stockRevision := .of 12
  catalogRevision := .initial
  recordedAt := crateTime
  population := crateReturnedAgain.identities.population
  sourceTrace := crateReturned.identities.population
  departureOperation := crateIdentities.operation
  departureStockRevision := .of 11
  originalDigest := 61

def crateAssociation : CountReturnAssociationContext where
  hub := .of 1
  stockRevision := .of 12
  catalog := crateCatalog
  latestRecordedAt := crateTime
  returned := crateReturned
  returnHub := .of 1
  returnOriginalDigest := 60
  explanation := crateExplanation
  account := crateExplained.account
  recipientOriginal := (crateTaken (.of 51) (.of 8)).recipientOriginal
  recipientHistory := []
  associations := []
  normalReturns := [crateCameAgain]
  priorTraceCorrectionRows := 2
  priorAssociationForReturn := none
  uncertainSubmissions := false

def crateAssociate : CountReturnAssociationCommand where
  returnOperation := .of 60
  explanationOperation := .of 51
  expectedStockRevision := .of 12
  expectedCatalogRevision := .initial
  expectedAccountPrior := some (.of 52)
  expectedReturnsPrior := none
  sourceOperation := .of 40
  sourceGroup := .of 10
  sourceEvidence := crateNote
  quantityEvidence := crateNote
  timingEvidence := crateNote

/-- The pack that came back again was the one that had come back, and that one was of the crate. -/
theorem provenance_never_circular_crate : ∃ association,
    (@CountReturnAssociationCommand.plan crateReturnDigest crateAssociate crateAssociation
      (.of 62) crateActor crateTime).map (·.association) = .ok association ∧
    edgesOf ([association], [crateCameAgain]) =
      [(crateReturned.identities.population, .of 2),
        (crateReturnedAgain.identities.population, crateReturned.identities.population)] ∧
    Relation.ReflTransGen (@ProvenanceStep crateReturnDigest) ([], [])
      ([association], [crateCameAgain]) ∧
    ∀ population, Ends (edgesOf ([association], [crateCameAgain])) population := by
  let _ : Sha256 := crateReturnDigest
  have horiginal : NormalReturnProvenance.fromOriginal (.of 1) crateReturnedAgain 61 =
      .ok crateCameAgain := by decide +kernel
  have hedge : (crateAssociate.plan crateAssociation (.of 62) crateActor crateTime).map
      (fun plan => (plan.association.returnedPopulation, plan.association.explanationTrace)) =
        .ok (crateReturned.identities.population, .of 2) := by decide +kernel
  obtain ⟨plan, hplan, hpair⟩ := map_eq_ok.mp hedge
  have hrun : Relation.ReflTransGen ProvenanceStep ([], [])
      ([plan.association], [crateCameAgain]) :=
    .tail (.single (.established horiginal (by simp [provenanceEdges])))
      (.associated (fun edge hmem => hmem) hplan)
  refine ⟨plan.association, by rw [hplan]; rfl, ?_, hrun, (provenance_never_circular.2 _ hrun).2⟩
  rw [edgesOf, provenanceEdges, List.map_singleton, hpair]
  rfl

end HarvestCircle
