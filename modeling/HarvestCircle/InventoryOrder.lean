import HarvestCircle.CountRuns
import HarvestCircle.Interpretations

/-! # The order of the inventory does not matter

`validateInventory` meets the records one after the other: it fills its maps as it goes, and
checks the account of a count only with the first record that explains it.  What it accepts
is nevertheless a property of the records alone (`Consistent`).  The maps only ever refuse
a second value for a key, so what they have refused does not depend on the order.  And what
the short check leaves out of a later record was established of the first one, whose
count, cut and account are the same; that no operation comes twice in the later record
follows from the roles, which keep apart what different operations did.
-/
namespace HarvestCircle
open Checked Registers

/-! ## Revisions -/

/-- One revision to an operation and one operation to a revision. -/
structure OneToOne (pairs : List (HubRecordId × Nat)) : Prop where
  revision : Functional pairs
  owner : Functional (pairs.map Prod.swap)

variable {pairs : List (HubRecordId × Nat)} {record : ActualKnownInterpretation}
  {value : ActualKnownCountExplanation} {view : ActualKnownInterpretationView}
  {pairs' : List (HubRecordId × Nat)}

theorem OneToOne.mono (h : OneToOne pairs') (hsub : ∀ x ∈ pairs, x ∈ pairs') : OneToOne pairs where
  revision := h.revision.mono hsub
  owner := h.owner.mono fun x hx => by
    obtain ⟨y, hy, rfl⟩ := List.mem_map.mp hx
    exact List.mem_map_of_mem (hsub y hy)

theorem oneToOne_congr (hmem : ∀ x, x ∈ pairs ↔ x ∈ pairs') : OneToOne pairs ↔ OneToOne pairs' :=
  ⟨fun h => h.mono fun x hx => (hmem x).mpr hx, fun h => h.mono fun x hx => (hmem x).mp hx⟩

namespace RevisionRegister

/-- The register has exactly these operations and revisions. -/
structure Keeps (register : RevisionRegister) (pairs : List (HubRecordId × Nat)) : Prop where
  revisions : Holds register.revisions pairs
  owners : Holds register.owners (pairs.map Prod.swap)

theorem keeps_empty : empty.Keeps [] := ⟨holds_empty, holds_empty⟩

variable {register : RevisionRegister} {pairs : List (HubRecordId × Nat)}

theorem Keeps.oneToOne (h : register.Keeps pairs) : OneToOne pairs :=
  ⟨h.revisions.functional, h.owners.functional⟩

theorem Keeps.congr (h : register.Keeps pairs) (hmem : ∀ x, x ∈ pairs ↔ x ∈ pairs') :
    register.Keeps pairs' where
  revisions := h.revisions.congr hmem
  owners := h.owners.congr fun x => by
    rw [List.mem_map, List.mem_map]
    exact exists_congr fun y => and_congr_left fun _ => hmem y

theorem Keeps.observe (h : register.Keeps pairs) (operation : HubRecordId)
    (revision : HubRevision) :
    Tests (register.observe operation revision)
      (OneToOne (pairs ++ [(operation, revision.value)]))
      (Keeps · (pairs ++ [(operation, revision.value)])) := by
  obtain ⟨hownerTest, hownerKept⟩ := h.owners.enter (k := revision.value) (v := operation)
    (e := ActualReportError.invalidHistory)
  obtain ⟨htest, hkept⟩ := h.revisions.enter (k := operation) (v := revision.value)
    (e := ActualReportError.invalidHistory)
  simp only [tests_iff, RevisionRegister.observe, accepted]
  constructor
  · constructor
    · rintro ⟨register', owners, howners, revisions, hrevisions, -⟩
      refine ⟨htest.mp ⟨revisions, hrevisions⟩, ?_⟩
      rw [List.map_append]
      exact hownerTest.mp ⟨owners, howners⟩
    · intro hone
      obtain ⟨owners, howners⟩ := hownerTest.mpr (by simpa using hone.owner)
      obtain ⟨revisions, hrevisions⟩ := htest.mpr hone.revision
      exact ⟨_, owners, howners, revisions, hrevisions, rfl⟩
  · rintro register' ⟨owners, howners, revisions, hrevisions, rfl⟩
    refine ⟨hkept revisions hrevisions, ?_⟩
    rw [List.map_append]
    exact hownerKept owners howners

end RevisionRegister

/-- Operations with their revisions as numbers. -/
def pairsOf (operations : List (HubRecordId × HubRevision)) : List (HubRecordId × Nat) :=
  operations.map fun operation => (operation.1, operation.2.value)

/-- The operations of one record pass exactly if none comes twice and revisions are their own. -/
theorem observeOperation_tests {operations : List (HubRecordId × HubRevision)} :
    (∃ seen, operations.foldlM ActualKnownInterpretation.observeOperation
      (∅, RevisionRegister.empty) = .ok seen) ↔
      (operations.map (·.1)).Nodup ∧ OneToOne (pairsOf operations) := by
  refine (foldlM_tests
    (fun done => (done.map (·.1)).Nodup ∧ OneToOne (pairsOf done))
    (fun done (seen : Finset HubRecordId × RevisionRegister) =>
      (∀ id, id ∈ seen.1 ↔ id ∈ done.map (·.1)) ∧ seen.2.Keeps (pairsOf done)) ?_ ?_ ?_ ?_).1
  · rintro done rest ⟨hnodup, hone⟩
    rw [List.map_append] at hnodup
    exact ⟨hnodup.of_append_left, hone.mono fun x hx => by simp_all [pairsOf]⟩
  · rintro done ⟨operation, revision⟩ rest ⟨ids, register⟩ - ⟨hnodup, -⟩ ⟨hids, hkeeps⟩
    obtain ⟨htest, hkept⟩ := hkeeps.observe operation revision
    have hpairs : pairsOf (done ++ [(operation, revision)]) =
        pairsOf done ++ [(operation, revision.value)] := by simp [pairsOf]
    simp only [tests_iff, ActualKnownInterpretation.observeOperation, accepted, hpairs, hids]
    constructor
    · rw [← htest, List.map_append, List.map_singleton, List.nodup_append]
      constructor
      · rintro ⟨seen, hfresh, register', hregister, -⟩
        refine ⟨⟨hnodup, List.nodup_singleton _, fun a ha b hb => ?_⟩, register', hregister⟩
        rw [List.mem_singleton.mp hb]
        rintro rfl
        exact hfresh ha
      · rintro ⟨⟨-, -, hdisjoint⟩, register', hregister⟩
        exact ⟨_, fun hmem => hdisjoint _ hmem _ (List.mem_singleton_self _) rfl, register',
          hregister, rfl⟩
    · rintro seen ⟨-, register', hregister, rfl⟩
      refine ⟨fun id => ?_, hkept register' hregister⟩
      simp only [Finset.mem_insert, hids, List.map_append, List.map_singleton, List.mem_append,
        List.mem_singleton]
      exact or_comm
  · exact ⟨List.nodup_nil, RevisionRegister.keeps_empty.oneToOne⟩
  · exact ⟨by simp, RevisionRegister.keeps_empty⟩

/-! ## The full check and the short one -/

section
variable [Sha256] {record : ActualKnownInterpretation} {value : ActualKnownCountExplanation}
  {view : ActualKnownInterpretationView}

open CorrectionKnownDeparture

/-- What both checks establish of a record that explains a count. -/
structure ExplainsCount (record : ActualKnownInterpretation) (value : ActualKnownCountExplanation)
    (view : ActualKnownInterpretationView) : Prop where
  lines_le : record.original.lines.length ≤ hubDispatchLines
  rows_le : record.recipientHistory.length +
    (value.account.explanations.length + value.account.amendments.length) ≤ hubCorrectionRows
  quantities_eq : record.quantities = []
  family_eq : record.recipientOriginal.family = .explainedCountLoss
  recipients_eq : (record.known (.countExplanation value.count value.account)
    ).recipientAssociationsThrough record.original.hub record.stockRevision record.catalogRevision
      record.latestRecordedAt = .ok view.recipients
  row : ∃ row, explained value.account record.original.operation = some row ∧
    Explains record.original value.count value.account row ∧ view.effectivePacks = row.packs
  packs_eq : record.original.packs = .ok view.originalPacks

/-- The full check: the count and its account besides, and the operations of the record. -/
theorem view_eq_ok_of_count (hcount : record.countExplanation = some value) :
    record.view = .ok view ↔ ExplainsCount record value view ∧ value.count.validate = .ok () ∧
      CountAccount value.count value.account record.original.hub record.stockRevision
        record.catalogRevision record.latestRecordedAt ∧
      (record.operations.map (·.1)).Nodup ∧ OneToOne (pairsOf record.operations) := by
  rw [← observeOperation_tests]
  simp only [ActualKnownInterpretation.view, ActualKnownInterpretation.knownQuantity,
    ActualKnownInterpretation.effectivePacks, ActualKnownInterpretation.rows, hcount, accepted,
    associationsThrough, passed, Option.map_some, Option.getD_some]
  constructor
  · rintro ⟨⟨hlines, -, -⟩, hrows, quantity, ⟨hquantities, rfl⟩, recipients,
      ⟨result, hresult, hcheck, rfl⟩, seen, hseen, effective, ⟨row, hrow, rfl⟩, packs, hpacks, rfl⟩
    obtain ⟨hvalid, haccount, hfamily, row', hrow', hexplains⟩ :=
      checkQuantity_countExplanation.mp hcheck
    obtain rfl := Option.some.inj (hrow.symm.trans hrow')
    refine ⟨⟨hlines, ?_, hquantities, hfamily, hresult, ⟨row, hrow, hexplains, rfl⟩, hpacks⟩,
      hvalid, haccount, seen, hseen⟩
    simpa [hquantities] using hrows
  · rintro ⟨h, hvalid, haccount, seen, hseen⟩
    obtain ⟨row, hrow, hexplains, hpacks⟩ := h.row
    have hrows := h.rows_le
    refine ⟨⟨h.lines_le, by simp [h.quantities_eq], by omega⟩,
      by simpa [h.quantities_eq] using hrows, _, ⟨h.quantities_eq, rfl⟩, view.recipients,
      ⟨view.recipients, h.recipients_eq, checkQuantity_countExplanation.mpr
        ⟨hvalid, haccount, h.family_eq, row, hrow, hexplains⟩, rfl⟩,
      seen, hseen, row.packs, ⟨row, hrow, rfl⟩, view.originalPacks, h.packs_eq, ?_⟩
    obtain ⟨recipients, originalPacks, effectivePacks⟩ := view
    exact congrArg _ hpacks.symm

end

/-- The explanations of an account by their operations, whichever way they are looked up. -/
theorem CountInventoryProof.new_effective (snapshot : ActualKnownCountExplanation)
    (operation : HubRecordId) : (CountInventoryProof.new snapshot).effective[operation]? =
      CorrectionKnownDeparture.explained snapshot.account operation := by
  have hkeys : (snapshot.account.effective.map fun row => row.original.operation).Nodup := by
    have hnodup := snapshot.account.operations_nodup
    rw [CountLossQuantityAccount.operations, ← snapshot.account.effective_originals] at hnodup
    simpa [Function.comp_def] using (List.nodup_cons.mp hnodup).2.of_append_left
  rw [CountInventoryProof.new, getElem?_foldl_insert hkeys, CorrectionKnownDeparture.explained]
  simp

/-- The short check. -/
theorem CountInventoryProof.view_eq_ok [Sha256] :
    (CountInventoryProof.new value).view record = .ok view ↔ ExplainsCount record value view := by
  simp only [CountInventoryProof.view, new_effective, accepted, passed]
  constructor
  · rintro ⟨⟨hlines, -, hrows⟩, row, hrow,
      ⟨hquantities, hfamily, htrace, hvariant, hrevision, hline, hrecorded, hcatalog⟩, recipients,
      hrecipients, packs, hpacks, rfl⟩
    exact ⟨hlines, hrows, hquantities, hfamily, hrecipients,
      ⟨row, hrow, ⟨htrace.symm, hvariant.symm, hrevision.symm, hline, hrecorded, hcatalog⟩, rfl⟩,
      hpacks⟩
  · intro h
    obtain ⟨row, hrow, hexplains, hpacks⟩ := h.row
    refine ⟨⟨h.lines_le, by simp [h.quantities_eq], h.rows_le⟩, row, hrow, ⟨h.quantities_eq,
      h.family_eq, hexplains.trace_eq.symm, hexplains.variant_eq.symm, hexplains.revision_eq.symm,
      hexplains.lines_eq, hexplains.recorded_le, hexplains.catalog_le⟩, view.recipients,
      h.recipients_eq, view.originalPacks, h.packs_eq, ?_⟩
    obtain ⟨recipients, originalPacks, effectivePacks⟩ := view
    exact congrArg _ hpacks.symm

/-! ## Rows -/

def rowPairs (rows : List OperationRow) : List (HubRecordId × Nat) :=
  rows.map fun row => (row.id, row.revision.value)

def rowRoles (rows : List OperationRow) : List (HubRecordId × OperationRole) :=
  rows.map fun row => (row.id, row.role)

/-- The corrections among the rows. -/
def rowChanges (rows : List OperationRow) : Finset HubRecordId :=
  ((rows.filter fun row => row.role.IsChange).map OperationRow.id).toFinset

theorem mem_rowChanges {rows : List OperationRow} {id : HubRecordId} :
    id ∈ rowChanges rows ↔ ∃ row ∈ rows, row.role.IsChange ∧ row.id = id := by
  simp [rowChanges, and_assoc]

/-- Every row of a record, with those of the count it explains. -/
def ActualKnownInterpretation.allRows (record : ActualKnownInterpretation) : List OperationRow :=
  record.ownRows ++ record.countRows

namespace ActualKnownCountExplanation
variable {value : ActualKnownCountExplanation}

theorem explanation_mem_rows {item : CountLossExplanation}
    (h : item ∈ value.account.explanations) : (⟨item.operation, item.stockRevision,
      ⟨.explanation, value.count.operation, none⟩⟩ : OperationRow) ∈ value.rows := by
  simp only [rows, List.mem_cons, List.mem_append, List.mem_map]
  exact .inr (.inr (.inl ⟨item, h, rfl⟩))

theorem amendment_mem_rows {item : CountExplanationAmendment}
    (h : item ∈ value.account.amendments) : (⟨item.operation, item.stockRevision,
      ⟨.amendment, value.count.operation, some item.explanation⟩⟩ : OperationRow) ∈ value.rows := by
  simp only [rows, List.mem_cons, List.mem_append, List.mem_map]
  exact .inr (.inr (.inr ⟨item, h, rfl⟩))

/-- The operations of the count and its account are those of its rows. -/
theorem exists_row {own : HubRecordId} {operation : HubRecordId × HubRevision}
    (h : operation ∈ value.operations own) :
    ∃ row ∈ value.rows, row.id = operation.1 ∧ row.revision = operation.2 := by
  simp only [operations, List.mem_cons, List.mem_append, List.mem_map, List.mem_filter] at h
  rcases h with rfl | rfl | ⟨item, ⟨hitem, -⟩, rfl⟩ | ⟨item, hitem, rfl⟩
  · exact ⟨_, List.mem_cons_self, rfl, rfl⟩
  · exact ⟨_, List.mem_cons_of_mem _ List.mem_cons_self, rfl, rfl⟩
  · exact ⟨_, explanation_mem_rows hitem, rfl, rfl⟩
  · exact ⟨_, amendment_mem_rows hitem, rfl, rfl⟩

end ActualKnownCountExplanation

/-- The departure is one of the explanations. -/
theorem ExplainsCount.exists_explanation (h : ExplainsCount record value view) :
    ∃ item ∈ value.account.explanations, item.operation = record.original.operation := by
  obtain ⟨row, hrow, -⟩ := h.row
  refine ⟨row.original, ?_, by simpa using List.find?_some hrow⟩
  rw [← value.account.effective_originals]
  exact List.mem_map_of_mem (List.mem_of_find?_eq_some hrow)

/-- A record that passes the short check has no operation twice, where all rows have a revision and
a role of their own. -/
theorem ExplainsCount.operations_distinct (h : ExplainsCount record value view)
    (hcount : record.countExplanation = some value) {roles : List (HubRecordId × OperationRole)}
    (hpairs : OneToOne pairs) (hroles : Functional roles)
    (horiginal : (record.original.operation, record.original.stockRevision.value) ∈ pairs)
    (hrowPairs : ∀ row ∈ record.allRows, (row.id, row.revision.value) ∈ pairs)
    (hrowRoles : ∀ row ∈ record.allRows, (row.id, row.role) ∈ roles) :
    (record.operations.map (·.1)).Nodup ∧ OneToOne (pairsOf record.operations) := by
  have hrows : record.allRows = record.recipientHistory.map (fun r => ⟨r.stamp.operation,
      r.stamp.stockRevision, ⟨.recipient, record.original.operation, none⟩⟩) ++ value.rows := by
    simp [ActualKnownInterpretation.allRows, ActualKnownInterpretation.ownRows,
      ActualKnownInterpretation.countRows, h.quantities_eq, hcount]
  have hoperations :
      record.operations = (record.original.operation, record.original.stockRevision) ::
      (record.recipientHistory.map (fun r => (r.stamp.operation, r.stamp.stockRevision)) ++
        value.operations record.original.operation) := by
    simp [ActualKnownInterpretation.operations, h.quantities_eq, hcount]
  rw [hrows, List.forall_mem_append, List.forall_mem_map] at hrowPairs hrowRoles
  constructor
  · obtain ⟨own, hown, hoperation⟩ := h.exists_explanation
    have hself := (List.nodup_cons.mp value.account.operations_nodup).2
    rw [CountLossQuantityAccount.operations] at hself
    obtain ⟨-, -, -, current, hcurrent⟩ :=
      CorrectionKnownDeparture.recipientAssociationsThrough_eq_ok h.recipients_eq
    let others := (value.account.explanations.filter fun row =>
      row.operation ≠ record.original.operation).map fun row => row.operation
    -- the operations by the kind of their role
    let segments : List (OperationKind × List HubRecordId) := [
      (.explanation, record.original.operation :: others),
      (.recipient, record.recipientHistory.map (·.stamp.operation)),
      (.count, [value.count.operation]), (.observation, [value.count.count.operation]),
      (.amendment, value.account.amendments.map fun row => row.operation)]
    have hkinds : (segments.map (·.1)).Nodup := by
      show [OperationKind.explanation, .recipient, .count, .observation, .amendment].Nodup
      decide
    have hperm : (record.operations.map (·.1)).Perm (segments.map (·.2)).flatten := by
      rw [List.perm_iff_count]
      intro id
      simp only [hoperations, segments, others, ActualKnownCountExplanation.operations,
        List.map_cons, List.map_append, List.map_map, List.map_nil, List.flatten_cons,
        List.flatten_nil,
        List.count_cons, List.count_append, List.count_nil, Function.comp_def]
      omega
    have hexplanation : ∀ item ∈ value.account.explanations, ∃ role,
        (item.operation, role) ∈ roles ∧ role.kind = .explanation := fun item hitem =>
      ⟨_, hrowRoles.2 _ (ActualKnownCountExplanation.explanation_mem_rows hitem), rfl⟩
    rw [hperm.nodup_iff]
    refine nodup_flatten_of_kinds OperationRole.kind hroles hkinds ?_ ?_
    · simp only [segments, List.forall_mem_cons, List.not_mem_nil, false_implies, implies_true,
        and_true]
      refine ⟨List.nodup_cons.mpr ⟨by simp [others], ?_⟩, recipient_operations_nodup hcurrent,
        List.nodup_singleton _, List.nodup_singleton _, hself.of_append_right⟩
      exact hself.of_append_left.sublist (List.Sublist.map _ List.filter_sublist)
    · simp only [segments, List.forall_mem_cons, List.not_mem_nil, false_implies, implies_true,
        and_true, List.forall_mem_map, others, List.mem_filter]
      refine ⟨⟨?_, fun item hitem => hexplanation item hitem.1⟩,
        fun r hr => ⟨_, hrowRoles.1 r hr, rfl⟩, ⟨_, hrowRoles.2 _ List.mem_cons_self, rfl⟩,
        ⟨_, hrowRoles.2 _ (List.mem_cons_of_mem _ List.mem_cons_self), rfl⟩, fun item hitem =>
        ⟨_, hrowRoles.2 _ (ActualKnownCountExplanation.amendment_mem_rows hitem), rfl⟩⟩
      exact hoperation ▸ hexplanation own hown
  · refine hpairs.mono fun x hx => ?_
    rw [pairsOf, hoperations, List.map_cons, List.map_append, List.mem_cons, List.mem_append,
      List.map_map, List.mem_map, List.mem_map] at hx
    rcases hx with rfl | ⟨r, hr, rfl⟩ | ⟨operation, hoperation, rfl⟩
    · exact horiginal
    · exact hrowPairs.1 r hr
    · obtain ⟨row, hmem, hid, hrevision⟩ := ActualKnownCountExplanation.exists_row hoperation
      rw [← hid, ← hrevision]
      exact hrowPairs.2 row hmem

/-! ## What the register and the groups test -/

namespace OperationRegister
variable {protects : ProtectedOperations} {register : OperationRegister}

/-- The register has exactly these operations, roles and corrections. -/
structure Keeps (register : OperationRegister) (pairs : List (HubRecordId × Nat))
    (roles : List (HubRecordId × OperationRole)) (changes : Finset HubRecordId) : Prop where
  revisions : register.revisions.Keeps pairs
  roles : Holds register.roles roles
  changes : register.changes = changes

/-- Rows can be added to what the register has. -/
structure Admits (protects : ProtectedOperations) (pairs : List (HubRecordId × Nat))
    (roles : List (HubRecordId × OperationRole)) (changes : Finset HubRecordId)
    (rows : List OperationRow) : Prop where
  unprotected : ∀ row ∈ rows, ¬ Protects protects row.id
  revisions : OneToOne (pairs ++ rowPairs rows)
  roles : Functional (roles ++ rowRoles rows)
  changes : (changes ∪ rowChanges rows).card ≤ hubCorrectionRows

variable {changes : Finset HubRecordId} {roles : List (HubRecordId × OperationRole)}

/-- Fewer rows can be added to less. -/
theorem Admits.mono {roles' : List (HubRecordId × OperationRole)} {rows rows' : List OperationRow}
    (h : Admits protects pairs' roles' changes rows') (hpairs : ∀ x ∈ pairs, x ∈ pairs')
    (hroles : ∀ x ∈ roles, x ∈ roles') (hrows : ∀ row ∈ rows, row ∈ rows') :
    Admits protects pairs roles changes rows where
  unprotected row hrow := h.unprotected row (hrows row hrow)
  revisions := h.revisions.mono fun x hx => by
    rcases List.mem_append.mp hx with hold | hnew
    · exact List.mem_append_left _ (hpairs x hold)
    · obtain ⟨row, hrow, rfl⟩ := List.mem_map.mp hnew
      exact List.mem_append_right _ (List.mem_map_of_mem (hrows row hrow))
  roles := h.roles.mono fun x hx => by
    rcases List.mem_append.mp hx with hold | hnew
    · exact List.mem_append_left _ (hroles x hold)
    · obtain ⟨row, hrow, rfl⟩ := List.mem_map.mp hnew
      exact List.mem_append_right _ (List.mem_map_of_mem (hrows row hrow))
  changes := by
    refine (Finset.card_le_card (Finset.union_subset_union_right fun id hid => ?_)).trans h.changes
    obtain ⟨row, hrow, hchange⟩ := mem_rowChanges.mp hid
    exact mem_rowChanges.mpr ⟨row, hrows row hrow, hchange⟩

theorem rowChanges_concat (rows : List OperationRow) (row : OperationRow) :
    rowChanges (rows ++ [row]) =
      if row.role.IsChange then insert row.id (rowChanges rows) else rowChanges rows := by
  ext id
  split
  · rename_i hchange
    simp only [mem_rowChanges, Finset.mem_insert, List.mem_append, List.mem_singleton, or_and_right,
      exists_or, exists_eq_left, hchange, true_and, eq_comm (a := id), or_comm]
  · rename_i hchange
    simp only [mem_rowChanges, List.mem_append, List.mem_singleton, or_and_right, exists_or,
      exists_eq_left, hchange, false_and, or_false]

/-- Entering rows tests whether they can be added. -/
theorem Keeps.enter (h : register.Keeps pairs roles changes)
    (hcard : changes.card ≤ hubCorrectionRows) (rows : List OperationRow)
    (protects : ProtectedOperations) :
    Tests (rows.foldlM (OperationRegister.enter protects) register)
      (Admits protects pairs roles changes rows)
      (Keeps · (pairs ++ rowPairs rows) (roles ++ rowRoles rows) (changes ∪ rowChanges rows)) := by
  refine foldlM_tests (Admits protects pairs roles changes)
    (fun done (register : OperationRegister) => register.Keeps (pairs ++ rowPairs done)
      (roles ++ rowRoles done) (changes ∪ rowChanges done)) ?_ ?_ ?_ ?_
  · intro done rest h
    exact h.mono (fun _ hx => hx) (fun _ hx => hx) fun row hrow => List.mem_append_left _ hrow
  · rintro done row rest register - hdone ⟨hrevisions, hroles, hchanges⟩
    obtain ⟨hrevisionTest, hrevisionKept⟩ := hrevisions.observe row.id row.revision
    obtain ⟨hroleTest, hroleKept⟩ := hroles.enter (k := row.id) (v := row.role)
      (e := ActualReportError.invalidHistory)
    have hpairs : pairs ++ rowPairs (done ++ [row]) =
        pairs ++ rowPairs done ++ [(row.id, row.revision.value)] := by simp [rowPairs]
    have hrowRoles : roles ++ rowRoles (done ++ [row]) =
        roles ++ rowRoles done ++ [(row.id, row.role)] := by simp [rowRoles]
    have hrowChanges : changes ∪ rowChanges (done ++ [row]) =
        if row.role.IsChange then insert row.id register.changes else register.changes := by
      rw [rowChanges_concat, hchanges]
      split
      · rw [Finset.union_insert]
      · rfl
    simp only [tests_iff, OperationRegister.enter, accepted, passed, ← hrowChanges]
    constructor
    · constructor
      · rintro ⟨register', hunprotected, revisions, hobserve, roles', henter, hcard', -⟩
        refine ⟨?_, hpairs ▸ hrevisionTest.mp ⟨revisions, hobserve⟩,
          hrowRoles ▸ hroleTest.mp ⟨roles', henter⟩, hcard'⟩
        intro other hother
        rcases List.mem_append.mp hother with hold | hnew
        · exact hdone.unprotected other hold
        · exact List.mem_singleton.mp hnew ▸ hunprotected
      · rintro ⟨hunprotected, hone, hfunctional, hcard'⟩
        obtain ⟨revisions, hobserve⟩ := hrevisionTest.mpr (hpairs ▸ hone)
        obtain ⟨roles', henter⟩ := hroleTest.mpr (hrowRoles ▸ hfunctional)
        exact ⟨_, hunprotected row (by simp), revisions, hobserve, roles', henter, hcard', rfl⟩
    · rintro register' ⟨-, revisions, hobserve, roles', henter, -, rfl⟩
      exact ⟨hpairs ▸ hrevisionKept revisions hobserve, hrowRoles ▸ hroleKept roles' henter, rfl⟩
  · refine ⟨by simp, ?_, ?_, by simpa [rowChanges] using hcard⟩
    · simpa [rowPairs] using h.revisions.oneToOne
    · simpa [rowRoles] using h.roles.functional
  · simpa [rowPairs, rowRoles, rowChanges] using h

section
variable {base : List (HubRecordId × Nat)} {roles : List (HubRecordId × OperationRole)}
  {before entered all : List OperationRow}

theorem mem_rows_congr {β : Type} (f : OperationRow → β) (base : List β)
    (hmem : ∀ row, row ∈ before ++ entered ↔ row ∈ before ++ all) (x : β) :
    x ∈ base ++ before.map f ++ entered.map f ↔ x ∈ base ++ (before ++ all).map f := by
  rw [List.append_assoc, ← List.map_append, List.mem_append, List.mem_append, List.mem_map,
    List.mem_map]
  simp only [hmem]

theorem rowChanges_congr (hmem : ∀ row, row ∈ before ++ entered ↔ row ∈ before ++ all) :
    rowChanges before ∪ rowChanges entered = rowChanges (before ++ all) := by
  ext id
  simp only [Finset.mem_union, mem_rowChanges, ← exists_or, ← or_and_right, ← List.mem_append, hmem]

/-- Rows that were entered before need not be entered again. -/
theorem admits_iff (hbefore : Admits protects base roles ∅ before)
    (hmem : ∀ row, row ∈ before ++ entered ↔ row ∈ before ++ all) :
    Admits protects (base ++ rowPairs before) (roles ++ rowRoles before) (rowChanges before)
      entered ↔ Admits protects base roles ∅ (before ++ all) := by
  have hpairs := oneToOne_congr (mem_rows_congr (fun row => (row.id, row.revision.value)) base hmem)
  have hroles := functional_congr (mem_rows_congr (fun row => (row.id, row.role)) roles hmem)
  have hchanges := rowChanges_congr hmem
  constructor
  · rintro ⟨hunprotected, hrevisions, hfunctional, hcard⟩
    refine ⟨fun row hrow => ?_, hpairs.mp hrevisions, hroles.mp hfunctional, ?_⟩
    · rcases List.mem_append.mp ((hmem row).mpr hrow) with hold | hnew
      · exact hbefore.unprotected row hold
      · exact hunprotected row hnew
    · rwa [Finset.empty_union, ← hchanges]
  · rintro ⟨hunprotected, hrevisions, hfunctional, hcard⟩
    refine ⟨fun row hrow => ?_, hpairs.mpr hrevisions, hroles.mpr hfunctional, ?_⟩
    · exact hunprotected row ((hmem row).mp (List.mem_append_right _ hrow))
    · rwa [hchanges, ← Finset.empty_union (rowChanges _)]

end

end OperationRegister

/-- The groups of a record, each with its operation. -/
def ActualKnownInterpretation.lineKeys (record : ActualKnownInterpretation) :
    List (HubRecordId × HubRecordId) :=
  record.original.lines.map fun line => (record.original.operation, line.group)

theorem enterLine_tests {groups : Finset (HubRecordId × HubRecordId)}
    {prior : List (HubRecordId × HubRecordId)} (hprior : prior.Nodup)
    (hgroups : ∀ k, k ∈ groups ↔ k ∈ prior) (record : ActualKnownInterpretation) :
    Tests (record.original.lines.foldlM (InventoryScan.enterLine record.original.operation) groups)
      (prior ++ record.lineKeys).Nodup
      fun groups' => ∀ k, k ∈ groups' ↔ k ∈ prior ++ record.lineKeys := by
  let keyOf (line : ActualKnownDepartureLine) := (record.original.operation, line.group)
  refine foldlM_tests (fun done => (prior ++ done.map keyOf).Nodup)
    (fun done (groups : Finset _) => ∀ k, k ∈ groups ↔ k ∈ prior ++ done.map keyOf) ?_ ?_ ?_ ?_
  · intro done rest hnodup
    rw [List.map_append, ← List.append_assoc] at hnodup
    exact hnodup.of_append_left
  · rintro done line rest groups - hnodup hgroups
    simp only [tests_iff, InventoryScan.enterLine, accepted, hgroups]
    rw [List.map_append, List.map_singleton, ← List.append_assoc, List.nodup_append]
    constructor
    · constructor
      · rintro ⟨groups', hfresh, -⟩
        refine ⟨hnodup, List.nodup_singleton _, fun a ha b hb => ?_⟩
        rw [List.mem_singleton.mp hb]
        rintro rfl
        exact hfresh ha
      · rintro ⟨-, -, hdisjoint⟩
        exact ⟨_, fun hmem => hdisjoint _ hmem _ (List.mem_singleton_self _) rfl, rfl⟩
    · rintro groups' ⟨-, rfl⟩ k
      rw [Finset.mem_insert, hgroups, List.mem_append (t := [keyOf line]), List.mem_singleton]
      exact or_comm
  · simpa using hprior
  · simpa using hgroups

/-- The rows of the records. -/
def rowsOf (records : List ActualKnownInterpretation) : List OperationRow :=
  records.flatMap ActualKnownInterpretation.allRows

theorem rowsOf_concat (done : List ActualKnownInterpretation) (record : ActualKnownInterpretation) :
    rowsOf (done ++ [record]) = rowsOf done ++ record.allRows := by
  simp [rowsOf]

/-! ## What the loop tests -/

section
variable [Sha256] {set : ActualKnownInterpretations} {protects : ProtectedOperations}
  {base : List (HubRecordId × Nat)} {roles : List (HubRecordId × OperationRole)}

/-- The record is of the set's cut. -/
def OfCut (set : ActualKnownInterpretations) (record : ActualKnownInterpretation) : Prop :=
  record.original.hub = set.hub ∧ record.stockRevision = set.stockRevision ∧
  record.catalogRevision = set.catalogRevision ∧ record.latestRecordedAt = set.latestRecordedAt

variable (set protects base roles) in
/-- What makes records an inventory of one cut, in whatever order. -/
structure Consistent (records : List ActualKnownInterpretation) : Prop where
  cut : ∀ r ∈ records, OfCut set r
  keys : (records.map ActualKnownInterpretation.key).Nodup
  events : ∀ a ∈ records, ∀ b ∈ records, a.original.operation = b.original.operation → a.SameEvent b
  counts : ∀ a ∈ records, ∀ b ∈ records, ∀ v ∈ a.countExplanation, ∀ w ∈ b.countExplanation,
    v.count.operation = w.count.operation → v = w
  viewed : ∀ r ∈ records, ∃ view, r.view = .ok view
  admits : OperationRegister.Admits protects base roles ∅ (rowsOf records)
  groups : (records.flatMap ActualKnownInterpretation.lineKeys).Nodup

variable (base roles) in
/-- What the loop knows of the records it has met. -/
structure Scans (done : List ActualKnownInterpretation) (scan : InventoryScan) : Prop where
  keys : ∀ k, k ∈ scan.keys ↔ k ∈ done.map ActualKnownInterpretation.key
  event : ∀ operation r, scan.events[operation]? = some r →
    r ∈ done ∧ r.original.operation = operation
  events : ∀ r ∈ done, ∃ prior, scan.events[r.original.operation]? = some prior
  groups : ∀ k, k ∈ scan.groups ↔ k ∈ done.flatMap ActualKnownInterpretation.lineKeys
  count : ∀ operation proof, scan.counts[operation]? = some proof →
    ∃ r ∈ done, ∃ v ∈ r.countExplanation, v.count.operation = operation ∧ proof = .new v
  counts : ∀ r ∈ done, ∀ v ∈ r.countExplanation, ∃ proof,
    scan.counts[v.count.operation]? = some proof
  register : scan.register.Keeps (base ++ rowPairs (rowsOf done)) (roles ++ rowRoles (rowsOf done))
    (rowChanges (rowsOf done))
  views : List.Forall₂ (fun r v => r.view = .ok v) done scan.views

theorem Consistent.of_append {done rest : List ActualKnownInterpretation}
    (h : Consistent set protects base roles (done ++ rest)) :
    Consistent set protects base roles done where
  cut r hr := h.cut r (List.mem_append_left _ hr)
  keys := by
    have hkeys := h.keys
    rw [List.map_append] at hkeys
    exact hkeys.of_append_left
  events a ha b hb := h.events a (List.mem_append_left _ ha) b (List.mem_append_left _ hb)
  counts a ha b hb := h.counts a (List.mem_append_left _ ha) b (List.mem_append_left _ hb)
  viewed r hr := h.viewed r (List.mem_append_left _ hr)
  admits := by
    have hsub : ∀ row ∈ rowsOf done, row ∈ rowsOf (done ++ rest) := fun row hrow => by
      rw [rowsOf, List.flatMap_append]
      exact List.mem_append_left _ hrow
    exact h.admits.mono (fun _ hx => hx) (fun _ hx => hx) hsub
  groups := by
    have hgroups := h.groups
    rw [List.flatMap_append] at hgroups
    exact hgroups.of_append_left

variable {done : List ActualKnownInterpretation} {scan : InventoryScan}
  {record : ActualKnownInterpretation}

/-- The record agrees with the earlier ones on the count it explains. -/
def AgreesOnCount (done : List ActualKnownInterpretation) (record : ActualKnownInterpretation) :
    Prop :=
  ∀ r ∈ done, ∀ v ∈ r.countExplanation, ∀ w ∈ record.countExplanation,
    v.count.operation = w.count.operation → v = w

/-- The record is viewed in full with its rows, or it is checked against an earlier one. -/
inductive ViewedAs (done : List ActualKnownInterpretation) (record : ActualKnownInterpretation)
    (view : ActualKnownInterpretationView) : Option ActualKnownCountExplanation → Prop where
  | full (hfirst : ∀ r ∈ done, ∀ v ∈ r.countExplanation, ∀ w ∈ record.countExplanation,
      v.count.operation ≠ w.count.operation) (hview : record.view = .ok view) :
      ViewedAs done record view record.countExplanation
  | shared {r : ActualKnownInterpretation} {w : ActualKnownCountExplanation} (hr : r ∈ done)
      (hw : r.countExplanation = some w) (hrecord : record.countExplanation = some w)
      (hexplains : ExplainsCount record w view) : ViewedAs done record view none

variable {new : Option ActualKnownCountExplanation} {register : OperationRegister}
  {records : List ActualKnownInterpretation}

theorem viewRecord_eq_ok (hdone : Consistent set protects base roles done)
    (hscan : Scans base roles done scan)
    (h : InventoryScan.viewRecord scan.counts record = .ok (view, new)) :
    AgreesOnCount done record ∧ ViewedAs done record view new := by
  rw [InventoryScan.viewRecord] at h
  cases hcount : record.countExplanation with
  | none =>
    simp only [hcount, accepted, Prod.mk.injEq] at h
    obtain ⟨own, hview, rfl, rfl⟩ := h
    refine ⟨by simp [AgreesOnCount, hcount], ?_⟩
    have hfull : ViewedAs done record own record.countExplanation :=
      .full (by simp [hcount]) hview
    rwa [hcount] at hfull
  | some value =>
    cases hproof : scan.counts[value.count.operation]? with
    | none =>
      simp only [hcount, hproof, accepted, Prod.mk.injEq] at h
      obtain ⟨_, hview, rfl, rfl⟩ := h
      have hfirst : ∀ r ∈ done, ∀ v ∈ r.countExplanation, ∀ w ∈ record.countExplanation,
          v.count.operation ≠ w.count.operation := by
        intro r hr v hv w hw hsame
        obtain rfl := Option.some.inj (hcount.symm.trans hw)
        obtain ⟨proof, hsome⟩ := hscan.counts r hr v hv
        rw [hsame, hproof] at hsome
        cases hsome
      have hfull := ViewedAs.full hfirst hview
      rw [hcount] at hfull
      exact ⟨fun r hr v hv w hw hsame => absurd hsame (hfirst r hr v hv w hw), hfull⟩
    | some proof =>
      obtain ⟨r, hr, v, hv, hoperation, rfl⟩ := hscan.count _ _ hproof
      simp only [hcount, hproof, accepted, Prod.mk.injEq, passed] at h
      obtain ⟨rfl, _, hview, rfl, rfl⟩ := h
      refine ⟨fun r' hr' v' hv' w hw hsame => ?_,
        .shared hr hv hcount (CountInventoryProof.view_eq_ok.mp hview)⟩
      obtain rfl := Option.some.inj (hcount.symm.trans hw)
      exact hdone.counts r' hr' r hr v' hv' _ hv hsame

theorem viewRecord_succeeds (hscan : Scans base roles done scan)
    (hagrees : AgreesOnCount done record) (hview : record.view = .ok view) :
    ∃ new, InventoryScan.viewRecord scan.counts record = .ok (view, new) := by
  rw [InventoryScan.viewRecord]
  cases hcount : record.countExplanation with
  | none => exact ⟨none, by simp [hview]⟩
  | some value =>
    cases hproof : scan.counts[value.count.operation]? with
    | none => exact ⟨some value, by simp [hproof, hview]⟩
    | some proof =>
      obtain ⟨r, hr, v, hv, hoperation, rfl⟩ := hscan.count _ _ hproof
      obtain rfl := hagrees r hr v hv value hcount hoperation
      have hexplains := CountInventoryProof.view_eq_ok.mpr ((view_eq_ok_of_count hcount).mp hview).1
      refine ⟨none, ?_⟩
      simp only [hproof, accepted]
      exact ⟨not_not.mpr rfl, view, hexplains, rfl⟩

/-- What was entered covers the rows of the record. -/
theorem ViewedAs.mem_entered (h : ViewedAs done record view new) (row : OperationRow) :
    row ∈ rowsOf done ++ (record.ownRows ++ (new.map ActualKnownCountExplanation.rows).getD []) ↔
      row ∈ rowsOf done ++ record.allRows := by
  cases h with
  | full _ _ => rfl
  | @shared r w hr hw hrecord _ =>
    have hrows : ∀ row ∈ record.countRows, row ∈ rowsOf done := by
      intro row hrow
      refine List.mem_flatMap.mpr ⟨r, hr, List.mem_append_right _ ?_⟩
      simpa [ActualKnownInterpretation.countRows, hrecord, hw] using hrow
    simp only [ActualKnownInterpretation.allRows, Option.map_none, Option.getD_none,
      List.append_nil, List.mem_append]
    constructor
    · rintro (h | h)
      · exact .inl h
      · exact .inr (.inl h)
    · rintro (h | h | h)
      · exact .inl h
      · exact .inr h
      · exact .inl (hrows row h)

/-- However it was checked, the record passes the full check. -/
theorem ViewedAs.view_eq_ok (hdone : Consistent set protects base roles done)
    (h : ViewedAs done record view new) (hcut : OfCut set record)
    (hbase : (record.original.operation, record.original.stockRevision.value) ∈ base)
    (hadmits : OperationRegister.Admits protects base roles ∅ (rowsOf done ++ record.allRows)) :
    record.view = .ok view := by
  cases h with
  | full _ hview => exact hview
  | @shared r w hr hw hrecord hexplains =>
    obtain ⟨first, hfirst⟩ := hdone.viewed r hr
    obtain ⟨-, hvalid, haccount, -⟩ := (view_eq_ok_of_count hw).mp hfirst
    -- the first record is of the same cut
    obtain ⟨hhub, hstock, hcatalog, hlatest⟩ := hdone.cut r hr
    rw [hhub, hstock, hcatalog, hlatest] at haccount
    obtain ⟨hhub', hstock', hcatalog', hlatest'⟩ := hcut
    rw [← hhub', ← hstock', ← hcatalog', ← hlatest'] at haccount
    refine (view_eq_ok_of_count hrecord).mpr ⟨hexplains, hvalid, haccount, ?_⟩
    refine hexplains.operations_distinct hrecord hadmits.revisions hadmits.roles
      (List.mem_append_left _ hbase) (fun row hrow => ?_) fun row hrow => ?_
    · exact List.mem_append_right _ (List.mem_map.mpr ⟨row, List.mem_append_right _ hrow, rfl⟩)
    · exact List.mem_append_right _ (List.mem_map.mpr ⟨row, List.mem_append_right _ hrow, rfl⟩)

/-- The record agrees with the earlier ones on the event it is a part of. -/
theorem Scans.sameEvent_iff (hdone : Consistent set protects base roles done)
    (hscan : Scans base roles done scan) :
    (∀ prior ∈ scan.events[record.original.operation]?, prior.SameEvent record) ↔
      ∀ r ∈ done, r.original.operation = record.original.operation → r.SameEvent record := by
  constructor
  · intro h r hr hsame
    obtain ⟨prior, hprior⟩ := hscan.events r hr
    rw [hsame] at hprior
    obtain ⟨hmem, hoperation⟩ := hscan.event _ _ hprior
    have hevent := h prior hprior
    -- the earlier records agree among themselves
    obtain ⟨h₁, h₂, h₃, h₄, h₅, h₆, h₇, h₈⟩ :=
      hdone.events r hr prior hmem (hsame.trans hoperation.symm)
    unfold ActualKnownInterpretation.SameEvent
    rw [h₁, h₂, h₃, h₄, h₅, h₆, h₇, h₈]
    exact hevent
  · intro h prior hprior
    obtain ⟨hmem, hoperation⟩ := hscan.event _ _ hprior
    exact h prior hmem hoperation

omit [Sha256] in
theorem sameEvent_refl (record : ActualKnownInterpretation) : record.SameEvent record :=
  ⟨rfl, rfl, rfl, rfl, rfl, rfl, rfl, rfl⟩

variable {a b : ActualKnownInterpretation} {records' : List ActualKnownInterpretation}

omit [Sha256] in
theorem sameEvent_symm (h : a.SameEvent b) : b.SameEvent a := by
  obtain ⟨h₁, h₂, h₃, h₄, h₅, h₆, h₇, h₈⟩ := h
  exact ⟨h₁.symm, h₂.symm, h₃.symm, h₄.symm, h₅.symm, h₆.symm, h₇.symm, h₈.symm⟩

/-- What one more record needs. -/
theorem consistent_concat_iff (hdone : Consistent set protects base roles done) :
    Consistent set protects base roles (done ++ [record]) ↔
      OfCut set record ∧ record.key ∉ done.map ActualKnownInterpretation.key ∧
      (∀ r ∈ done, r.original.operation = record.original.operation → r.SameEvent record) ∧
      AgreesOnCount done record ∧ (∃ view, record.view = .ok view) ∧
      OperationRegister.Admits protects base roles ∅ (rowsOf done ++ record.allRows) ∧
      (done.flatMap ActualKnownInterpretation.lineKeys ++ record.lineKeys).Nodup := by
  have hlast : record ∈ done ++ [record] := by simp
  have hearlier : ∀ r ∈ done, r ∈ done ++ [record] := fun r hr => List.mem_append_left _ hr
  constructor
  · intro h
    refine ⟨h.cut record hlast, ?_, fun r hr => h.events r (hearlier r hr) record hlast,
      fun r hr => h.counts r (hearlier r hr) record hlast, h.viewed record hlast,
      rowsOf_concat done record ▸ h.admits, by simpa using h.groups⟩
    have hkeys := h.keys
    rw [List.map_append, List.map_singleton, List.nodup_append] at hkeys
    exact fun hmem => hkeys.2.2 _ hmem _ (List.mem_singleton_self _) rfl
  · rintro ⟨hcut, hkey, hevent, hcount, hview, hadmits, hgroups⟩
    refine ⟨?_, ?_, ?_, ?_, ?_, (rowsOf_concat done record).symm ▸ hadmits, by simpa using hgroups⟩
    · intro r hr
      rcases List.mem_append.mp hr with hr | hr
      · exact hdone.cut r hr
      · exact List.mem_singleton.mp hr ▸ hcut
    · rw [List.map_append, List.map_singleton, List.nodup_append]
      refine ⟨hdone.keys, List.nodup_singleton _, fun a ha b hb => ?_⟩
      rw [List.mem_singleton.mp hb]
      rintro rfl
      exact hkey ha
    · intro a ha b hb hsame
      rw [List.mem_append, List.mem_singleton] at ha hb
      rcases ha with ha | rfl
      · rcases hb with hb | rfl
        · exact hdone.events a ha b hb hsame
        · exact hevent a ha hsame
      · rcases hb with hb | rfl
        · exact sameEvent_symm (hevent b hb hsame.symm)
        · exact sameEvent_refl _
    · intro a ha b hb v hv w hw hsame
      rw [List.mem_append, List.mem_singleton] at ha hb
      rcases ha with ha | rfl
      · rcases hb with hb | rfl
        · exact hdone.counts a ha b hb v hv w hw hsame
        · exact hcount a ha v hv w hw hsame
      · rcases hb with hb | rfl
        · exact (hcount b hb w hw v hv hsame.symm).symm
        · exact Option.mem_unique hv hw
    · intro r hr
      rcases List.mem_append.mp hr with hr | hr
      · exact hdone.viewed r hr
      · exact List.mem_singleton.mp hr ▸ hview

omit [Sha256] in
/-- The register after a record has the rows of all records. -/
theorem OperationRegister.Keeps.after_rows {before entered all : List OperationRow}
    (h : register.Keeps (base ++ rowPairs before ++ rowPairs entered)
      (roles ++ rowRoles before ++ rowRoles entered) (rowChanges before ∪ rowChanges entered))
    (hmem : ∀ row, row ∈ before ++ entered ↔ row ∈ before ++ all) :
    register.Keeps (base ++ rowPairs (before ++ all)) (roles ++ rowRoles (before ++ all))
      (rowChanges (before ++ all)) where
  revisions := h.revisions.congr (mem_rows_congr _ base hmem)
  roles := h.roles.congr (mem_rows_congr _ roles hmem)
  changes := h.changes.trans (rowChanges_congr hmem)

namespace InventoryScan

/-- What one step checks and what it leaves. -/
theorem observe_eq_ok {scan' : InventoryScan} : observe set protects scan record = .ok scan' ↔
    OfCut set record ∧ record.key ∉ scan.keys ∧
    (∀ prior ∈ scan.events[record.original.operation]?, prior.SameEvent record) ∧
    ∃ view new, viewRecord scan.counts record = .ok (view, new) ∧
    ∃ register, (record.ownRows ++ (new.map ActualKnownCountExplanation.rows).getD []).foldlM
      (OperationRegister.enter protects) scan.register = .ok register ∧
    ∃ groups, record.original.lines.foldlM (enterLine record.original.operation) scan.groups =
      .ok groups ∧
    scan' = {
      keys := insert record.key scan.keys
      events := scan.events.insert record.original.operation record
      groups, register
      counts := new.elim scan.counts fun value =>
        scan.counts.insert value.count.operation (.new value)
      views := scan.views ++ [view] } := by
  simp only [observe, accepted, passed, not_exists, not_and, Prod.exists, eq_comm (b := scan'),
    OfCut, and_assoc]

end InventoryScan

/-- **One step tests one more record.** -/
theorem observe_tests (hdone : Consistent set protects base roles done)
    (hscan : Scans base roles done scan)
    (hbase : (record.original.operation, record.original.stockRevision.value) ∈ base) :
    (∃ scan', InventoryScan.observe set protects scan record = .ok scan') ↔
      Consistent set protects base roles (done ++ [record]) := by
  have hcard : (rowChanges (rowsOf done)).card ≤ hubCorrectionRows := by
    simpa using hdone.admits.changes
  have hlines := (enterLine_tests hdone.groups hscan.groups record).1
  simp only [InventoryScan.observe_eq_ok, consistent_concat_iff hdone]
  constructor
  · rintro ⟨scan', hcut, hkey, hevent, view, new, hview, register, hregister, groups, hgroups, -⟩
    obtain ⟨hagrees, hviewed⟩ := viewRecord_eq_ok hdone hscan hview
    have hadmits := (OperationRegister.admits_iff hdone.admits hviewed.mem_entered).mp
      ((hscan.register.enter hcard _ _).1.mp ⟨register, hregister⟩)
    exact ⟨hcut, fun hmem => hkey ((hscan.keys _).mpr hmem), (hscan.sameEvent_iff hdone).mp hevent,
      hagrees, ⟨view, hviewed.view_eq_ok hdone hcut hbase hadmits⟩, hadmits,
      hlines.mp ⟨groups, hgroups⟩⟩
  · rintro ⟨hcut, hkey, hevent, hagrees, ⟨view, hview⟩, hadmits, hnodup⟩
    obtain ⟨new, hnew⟩ := viewRecord_succeeds hscan hagrees hview
    obtain ⟨-, hviewed⟩ := viewRecord_eq_ok hdone hscan hnew
    obtain ⟨register, hregister⟩ := (hscan.register.enter hcard _ _).1.mpr
      ((OperationRegister.admits_iff hdone.admits hviewed.mem_entered).mpr hadmits)
    obtain ⟨groups, hgroups⟩ := hlines.mpr hnodup
    exact ⟨_, hcut, fun hmem => hkey ((hscan.keys _).mp hmem),
      (hscan.sameEvent_iff hdone).mpr hevent, view, new, hnew, register, hregister, groups, hgroups,
      rfl⟩

/-- The map of the counts after a record, whether or not it was the first to explain one. -/
theorem ViewedAs.getElem?_counts (h : ViewedAs done record view new)
    (hscan : Scans base roles done scan) :
    (∀ operation proof, (new.elim scan.counts fun value =>
        scan.counts.insert value.count.operation (.new value))[operation]? = some proof →
      ∃ r ∈ done ++ [record], ∃ v ∈ r.countExplanation, v.count.operation = operation ∧
        proof = .new v) ∧
    ∀ r ∈ done ++ [record], ∀ v ∈ r.countExplanation, ∃ proof,
      (new.elim scan.counts fun value =>
        scan.counts.insert value.count.operation (.new value))[v.count.operation]? =
          some proof := by
  have hold : ∀ operation proof, scan.counts[operation]? = some proof →
      ∃ r ∈ done ++ [record], ∃ v ∈ r.countExplanation, v.count.operation = operation ∧
        proof = .new v := by
    intro operation proof hproof
    obtain ⟨r, hr, hv⟩ := hscan.count operation proof hproof
    exact ⟨r, List.mem_append_left _ hr, hv⟩
  cases h with
  | full hfirst hview =>
    cases hcount : record.countExplanation with
    | none =>
      refine ⟨hold, fun r hr v hv => ?_⟩
      rcases List.mem_append.mp hr with hr | hr
      · exact hscan.counts r hr v hv
      · rw [List.mem_singleton.mp hr, hcount] at hv
        cases hv
    | some value =>
      simp only [Option.elim_some, Std.TreeMap.getElem?_insert]
      constructor
      · intro operation proof hproof
        split at hproof
        · rename_i heq
          exact ⟨record, by simp, value, hcount, Std.LawfulEqCmp.compare_eq_iff_eq.mp heq,
            (Option.some.inj hproof).symm⟩
        · exact hold operation proof hproof
      · intro r hr v hv
        split
        · exact ⟨_, rfl⟩
        · rename_i hne
          rcases List.mem_append.mp hr with hr | hr
          · exact hscan.counts r hr v hv
          · rw [List.mem_singleton.mp hr, hcount] at hv
            obtain rfl := Option.some.inj hv
            exact absurd Std.ReflCmp.compare_self hne
  | @shared r w hr hw hrecord _ =>
    refine ⟨hold, fun r' hr' v hv => ?_⟩
    rcases List.mem_append.mp hr' with hr' | hr'
    · exact hscan.counts r' hr' v hv
    · rw [List.mem_singleton.mp hr', hrecord, ← hw] at hv
      exact hscan.counts r hr v hv

/-- After the step the loop knows of the record as well. -/
theorem Scans.observe {scan' : InventoryScan} (hdone : Consistent set protects base roles done)
    (hscan : Scans base roles done scan)
    (hbase : (record.original.operation, record.original.stockRevision.value) ∈ base)
    (hobserve : InventoryScan.observe set protects scan record = .ok scan') :
    Scans base roles (done ++ [record]) scan' := by
  obtain ⟨hcut, -, -, view, new, hview, register, hregister, groups, hgroups, rfl⟩ :=
    InventoryScan.observe_eq_ok.mp hobserve
  obtain ⟨-, hviewed⟩ := viewRecord_eq_ok hdone hscan hview
  have hcard : (rowChanges (rowsOf done)).card ≤ hubCorrectionRows := by
    simpa using hdone.admits.changes
  obtain ⟨htest, hkept⟩ := hscan.register.enter hcard
    (record.ownRows ++ (new.map ActualKnownCountExplanation.rows).getD []) protects
  have hadmits := (OperationRegister.admits_iff hdone.admits hviewed.mem_entered).mp
    (htest.mp ⟨register, hregister⟩)
  obtain ⟨hcount, hcounts⟩ := hviewed.getElem?_counts hscan
  refine ⟨fun k => ?_, fun operation r hr => ?_, fun r hr => ?_, fun k => ?_, hcount, hcounts,
    rowsOf_concat done record ▸ (hkept register hregister).after_rows hviewed.mem_entered, ?_⟩
  · rw [Finset.mem_insert, hscan.keys, List.map_append, List.mem_append, List.map_singleton,
      List.mem_singleton]
    exact or_comm
  · rw [Std.TreeMap.getElem?_insert] at hr
    split at hr
    · rename_i heq
      obtain rfl := Option.some.inj hr
      exact ⟨by simp, Std.LawfulEqCmp.compare_eq_iff_eq.mp heq⟩
    · obtain ⟨hmem, hoperation⟩ := hscan.event operation r hr
      exact ⟨List.mem_append_left _ hmem, hoperation⟩
  · rw [Std.TreeMap.getElem?_insert]
    split
    · exact ⟨_, rfl⟩
    · rename_i hne
      rcases List.mem_append.mp hr with hr | hr
      · exact hscan.events r hr
      · rw [List.mem_singleton.mp hr] at hne
        exact absurd Std.ReflCmp.compare_self hne
  · rw [(enterLine_tests hdone.groups hscan.groups record).2 groups hgroups k, List.flatMap_append,
      List.flatMap_singleton]
  · exact List.rel_append hscan.views
      (.cons (hviewed.view_eq_ok hdone hcut hbase hadmits) .nil)

/-- The loop over the records tests all of them. -/
theorem foldlM_observe_tests (hregister : register.Keeps base roles ∅)
    (hbase : ∀ r ∈ records, (r.original.operation, r.original.stockRevision.value) ∈ base) :
    Tests (records.foldlM (InventoryScan.observe set protects) ⟨∅, ∅, ∅, ∅, register, []⟩)
      (Consistent set protects base roles records) (Scans base roles records) := by
  refine foldlM_tests (Consistent set protects base roles) (Scans base roles) ?_ ?_ ?_ ?_
  · exact fun done rest h => h.of_append
  · intro done record rest scan hsplit hdone hscan
    have hmem := hbase record (by simp [hsplit])
    exact ⟨observe_tests hdone hscan hmem, fun scan' h => hscan.observe hdone hmem h⟩
  · refine ⟨by simp, by simp, by simp, by simp, by simp, ⟨by simp [rowsOf], ?_, ?_, ?_⟩, by simp⟩
    · simpa [rowsOf, rowPairs] using hregister.revisions.oneToOne
    · simpa [rowsOf, rowRoles] using hregister.roles.functional
    · simp [rowsOf, rowChanges]
  · refine ⟨by simp, by simp, by simp, by simp, by simp, by simp, ?_, .nil⟩
    simpa [rowsOf, rowPairs, rowRoles, rowChanges] using hregister

/-! ## The originals -/

/-- The originals of the records with their revisions. -/
def originalPairs (records : List ActualKnownInterpretation) : List (HubRecordId × Nat) :=
  records.map fun r => (r.original.operation, r.original.stockRevision.value)

def originalRoles (records : List ActualKnownInterpretation) : List (HubRecordId × OperationRole) :=
  records.map fun r => (r.original.operation, r.originalRole)

/-- The revision that the report under review took. -/
def protectedPairs (protects : ProtectedOperations) : List (HubRecordId × Nat) :=
  (protects.map fun p => (p.1, p.2.1.value)).toList

/-- What the register has of the originals: for every one of them the role of some record. -/
structure EntersOriginals (protects : ProtectedOperations) (done : List ActualKnownInterpretation)
    (register : OperationRegister) : Prop where
  revisions : register.revisions.Keeps (protectedPairs protects ++ originalPairs done)
  changes : register.changes = ∅
  role : ∀ operation role, register.roles[operation]? = some role →
    (operation, role) ∈ originalRoles done
  roles : ∀ r ∈ done, ∃ role, register.roles[r.original.operation]? = some role

omit [Sha256] in
theorem EntersOriginals.enterOriginal {register' : OperationRegister}
    (h : EntersOriginals protects done register)
    (henter : register.enterOriginal protects record = .ok register') :
    EntersOriginals protects (done ++ [record]) register' := by
  simp only [OperationRegister.enterOriginal, accepted] at henter
  obtain ⟨-, revisions, hobserve, rfl⟩ := henter
  refine ⟨?_, h.changes, fun operation role hrole => ?_, fun r hr => ?_⟩
  · have hkept := (h.revisions.observe _ _).2 revisions hobserve
    simpa [originalPairs] using hkept
  · rw [Std.TreeMap.getElem?_insert] at hrole
    rw [originalRoles, List.map_append, List.mem_append]
    split at hrole
    · rename_i heq
      rw [← Std.LawfulEqCmp.compare_eq_iff_eq.mp heq, ← Option.some.inj hrole]
      exact .inr (by simp)
    · exact .inl (h.role operation role hrole)
  · rw [Std.TreeMap.getElem?_insert]
    split
    · exact ⟨_, rfl⟩
    · rename_i hne
      rcases List.mem_append.mp hr with hr | hr
      · exact h.roles r hr
      · rw [List.mem_singleton.mp hr] at hne
        exact absurd Std.ReflCmp.compare_self hne

omit [Sha256] in
/-- The loop over the originals tests their revisions. -/
theorem foldlM_enterOriginal_tests (records : List ActualKnownInterpretation)
    {revisions : RevisionRegister} (hrevisions : revisions.Keeps (protectedPairs protects)) :
    Tests (records.foldlM (OperationRegister.enterOriginal protects) ⟨revisions, ∅, ∅⟩)
      ((∀ r ∈ records, ¬ Protects protects r.original.operation) ∧
        OneToOne (protectedPairs protects ++ originalPairs records))
      (EntersOriginals protects records) := by
  refine foldlM_tests (fun done => (∀ r ∈ done, ¬ Protects protects r.original.operation) ∧
    OneToOne (protectedPairs protects ++ originalPairs done)) (EntersOriginals protects) ?_ ?_ ?_ ?_
  · rintro done rest ⟨hunprotected, hone⟩
    refine ⟨fun r hr => hunprotected r (by simp [hr]), hone.mono fun x hx => ?_⟩
    rw [originalPairs, List.map_append, ← List.append_assoc]
    exact List.mem_append_left _ hx
  · rintro done record rest register - ⟨hunprotected, -⟩ h
    refine ⟨?_, fun register' => h.enterOriginal⟩
    have hpairs : protectedPairs protects ++ originalPairs (done ++ [record]) =
        protectedPairs protects ++ originalPairs done ++
          [(record.original.operation, record.original.stockRevision.value)] := by
      simp [originalPairs]
    simp only [OperationRegister.enterOriginal, accepted]
    rw [hpairs, ← (h.revisions.observe _ _).1]
    constructor
    · rintro ⟨-, hnot, revisions, hobserve, -⟩
      refine ⟨fun r hr => ?_, revisions, hobserve⟩
      rcases List.mem_append.mp hr with hr | hr
      · exact hunprotected r hr
      · exact List.mem_singleton.mp hr ▸ hnot
    · rintro ⟨hall, revisions, hobserve⟩
      exact ⟨_, hall record (by simp), revisions, hobserve, rfl⟩
  · exact ⟨by simp, by simpa [originalPairs] using hrevisions.oneToOne⟩
  · exact ⟨by simpa [originalPairs] using hrevisions, rfl, by simp, by simp⟩

omit [Sha256] in
theorem EntersOriginals.keeps (h : EntersOriginals protects done register) :
    register.Keeps (protectedPairs protects ++ originalPairs done) register.roles.toList ∅ :=
  ⟨h.revisions, fun _ _ => Std.TreeMap.mem_toList_iff_getElem?_eq_some.symm, h.changes⟩

/-! ## The originals have one role -/

omit [Sha256] in
/-- A departure that explains a count is an explanation of it. -/
theorem ExplainsCount.mem_rowRoles (h : ExplainsCount record value view)
    (hcount : record.countExplanation = some value) :
    (record.original.operation, record.originalRole) ∈ rowRoles record.allRows := by
  obtain ⟨item, hitem, hoperation⟩ := h.exists_explanation
  have hrow : (⟨item.operation, item.stockRevision,
      ⟨.explanation, value.count.operation, none⟩⟩ : OperationRow) ∈ record.countRows := by
    rw [ActualKnownInterpretation.countRows, hcount]
    exact ActualKnownCountExplanation.explanation_mem_rows hitem
  refine List.mem_map.mpr ⟨_, List.mem_append_right _ hrow, ?_⟩
  rw [ActualKnownInterpretation.originalRole, hcount, hoperation]

/-- A departure whose packs were measured does not explain a count. -/
theorem family_ne_of_view (hcount : record.countExplanation = none)
    (hview : record.view = .ok view) : record.recipientOriginal.family ≠ .explainedCountLoss := by
  simp only [ActualKnownInterpretation.view, ActualKnownInterpretation.knownQuantity, hcount,
    accepted, CorrectionKnownDeparture.associationsThrough, ActualKnownInterpretation.known]
      at hview
  obtain ⟨-, -, quantity, hquantity, recipients, ⟨result, -, hcheck, -⟩, -⟩ := hview
  cases hquantity
  simp only [CorrectionKnownDeparture.checkQuantity, refuse_eq_ok, not_or] at hcheck
  exact hcheck.1

/-- Records of one departure are entered with one role. -/
theorem Consistent.originalRole_eq (h : Consistent set protects base roles records)
    (ha : a ∈ records) (hb : b ∈ records) (hsame : a.original.operation = b.original.operation) :
    a.originalRole = b.originalRole := by
  obtain ⟨va, hva⟩ := h.viewed a ha
  obtain ⟨vb, hvb⟩ := h.viewed b hb
  have hfamily : a.recipientOriginal = b.recipientOriginal := (h.events a ha b hb hsame).1
  have hrow : ∀ r ∈ records, ∀ x ∈ rowRoles r.allRows, x ∈ roles ++ rowRoles (rowsOf records) := by
    intro r hr x hx
    obtain ⟨row, hrow, rfl⟩ := List.mem_map.mp hx
    exact List.mem_append_right _ (List.mem_map_of_mem (List.mem_flatMap.mpr ⟨r, hr, hrow⟩))
  cases hca : a.countExplanation with
  | none =>
    cases hcb : b.countExplanation with
    | none => rw [ActualKnownInterpretation.originalRole, ActualKnownInterpretation.originalRole,
        hca, hcb, hsame]
    | some w =>
      have hexplained := ((view_eq_ok_of_count hcb).mp hvb).1.family_eq
      exact absurd (hfamily ▸ hexplained) (family_ne_of_view hca hva)
  | some v =>
    have hexplains := ((view_eq_ok_of_count hca).mp hva).1
    cases hcb : b.countExplanation with
    | none => exact absurd (hfamily ▸ hexplains.family_eq) (family_ne_of_view hcb hvb)
    | some w =>
      -- the operation is an explanation of either count, and it has one role
      have hexplains' := ((view_eq_ok_of_count hcb).mp hvb).1
      exact h.admits.roles _ _ _ (hrow a ha _ (hexplains.mem_rowRoles hca))
        (hsame ▸ hrow b hb _ (hexplains'.mem_rowRoles hcb))

/-- Which record's role an original was entered with makes no difference. -/
theorem consistent_originalRoles_iff (hrole : ∀ x ∈ roles, x ∈ originalRoles records)
    (hroles : ∀ r ∈ records, ∃ role, (r.original.operation, role) ∈ roles) :
    Consistent set protects base roles records ↔
      Consistent set protects base (originalRoles records) records := by
  constructor
  · intro h
    refine { h with admits := h.admits.mono (fun _ hx => hx) (fun x hx => ?_) fun _ hrow => hrow }
    obtain ⟨r, hr, rfl⟩ := List.mem_map.mp hx
    obtain ⟨role, hmem⟩ := hroles r hr
    obtain ⟨r', hr', heq⟩ := List.mem_map.mp (hrole _ hmem)
    obtain ⟨hoperation, rfl⟩ := Prod.mk.inj heq
    rwa [h.originalRole_eq hr hr' hoperation.symm]
  · intro h
    exact { h with admits := h.admits.mono (fun _ hx => hx) hrole fun _ hrow => hrow }

/-! ## The whole check -/

/-- What is accepted, said without any order. -/
structure Accepts (set : ActualKnownInterpretations) (protects : ProtectedOperations) : Prop where
  length_le : set.records.length ≤ hubStockEventCapacity
  unprotected : ∀ r ∈ set.records, ¬ Protects protects r.original.operation
  consistent : Consistent set protects (protectedPairs protects ++ originalPairs set.records)
    (originalRoles set.records) set.records

omit [Sha256] in
/-- The report's own operation is always entered. -/
theorem exists_start (protects : ProtectedOperations) : ∃ revisions,
    RevisionRegister.start protects = .ok revisions ∧
      revisions.Keeps (protectedPairs protects) := by
  cases protects with
  | none => exact ⟨_, rfl, RevisionRegister.keeps_empty⟩
  | some p =>
    obtain ⟨raw, revision, planned⟩ := p
    obtain ⟨htest, hkept⟩ := RevisionRegister.keeps_empty.observe raw revision
    have hone : OneToOne ([] ++ [(raw, revision.value)]) := by
      constructor
      · intro k v v' hv hv'
        simp_all
      · intro k v v' hv hv'
        simp_all
    obtain ⟨revisions, hobserve⟩ := htest.mpr hone
    exact ⟨revisions, hobserve, hkept revisions hobserve⟩

theorem validateInventory_tests (set : ActualKnownInterpretations)
    (protects : ProtectedOperations) :
    Tests (validateInventory set protects) (Accepts set protects)
      (List.Forall₂ (fun r v => r.view = .ok v) set.records) := by
  obtain ⟨revisions, hrevisions, hkeeps⟩ := exists_start protects
  obtain ⟨horiginals, hentered⟩ := foldlM_enterOriginal_tests set.records hkeeps
  have hbase : ∀ r ∈ set.records, (r.original.operation, r.original.stockRevision.value) ∈
      protectedPairs protects ++ originalPairs set.records := fun r hr =>
    List.mem_append_right _ (List.mem_map_of_mem hr)
  have hroles : ∀ register, EntersOriginals protects set.records register →
      (Consistent set protects (protectedPairs protects ++ originalPairs set.records)
        register.roles.toList set.records ↔
      Consistent set protects (protectedPairs protects ++ originalPairs set.records)
        (originalRoles set.records) set.records) := by
    intro register h
    refine consistent_originalRoles_iff (fun x hx => ?_) fun r hr => ?_
    · exact h.role x.1 x.2 (Std.TreeMap.mem_toList_iff_getElem?_eq_some.mp hx)
    · obtain ⟨role, hrole⟩ := h.roles r hr
      exact ⟨role, Std.TreeMap.mem_toList_iff_getElem?_eq_some.mpr hrole⟩
  simp only [tests_iff, validateInventory, accepted, passed]
  constructor
  · constructor
    · rintro ⟨views, hlength, revisions', hrevisions', register, hregister, scan, hscan, -⟩
      obtain rfl := Except.ok.inj (hrevisions.symm.trans hrevisions')
      have h := hentered register hregister
      refine ⟨hlength, (horiginals.mp ⟨register, hregister⟩).1, (hroles register h).mp ?_⟩
      exact (foldlM_observe_tests h.keeps hbase).1.mp ⟨scan, hscan⟩
    · rintro ⟨hlength, hunprotected, hconsistent⟩
      have hone : OneToOne (protectedPairs protects ++ originalPairs set.records) :=
        hconsistent.admits.revisions.mono fun x hx => List.mem_append_left _ hx
      obtain ⟨register, hregister⟩ := horiginals.mpr ⟨hunprotected, hone⟩
      have h := hentered register hregister
      obtain ⟨scan, hscan⟩ := (foldlM_observe_tests h.keeps hbase).1.mpr
        ((hroles register h).mpr hconsistent)
      exact ⟨scan.views, hlength, revisions, hrevisions, register, hregister, scan, hscan, rfl⟩
  · rintro views ⟨-, revisions', hrevisions', register, hregister, scan, hscan, rfl⟩
    obtain rfl := Except.ok.inj (hrevisions.symm.trans hrevisions')
    exact ((foldlM_observe_tests (hentered register hregister).keeps hbase).2 scan hscan).views

theorem Consistent.perm {base' : List (HubRecordId × Nat)}
    {roles' : List (HubRecordId × OperationRole)} (h : Consistent set protects base roles records)
    (hperm : records'.Perm records) (hbase : ∀ x ∈ base', x ∈ base)
    (hroles : ∀ x ∈ roles', x ∈ roles) : Consistent set protects base' roles' records' where
  cut r hr := h.cut r (hperm.mem_iff.mp hr)
  keys := (hperm.map _).nodup_iff.mpr h.keys
  events a ha b hb := h.events a (hperm.mem_iff.mp ha) b (hperm.mem_iff.mp hb)
  counts a ha b hb := h.counts a (hperm.mem_iff.mp ha) b (hperm.mem_iff.mp hb)
  viewed r hr := h.viewed r (hperm.mem_iff.mp hr)
  admits := h.admits.mono hbase hroles fun _ hrow => (hperm.flatMap_right _).mem_iff.mp hrow
  groups := (hperm.flatMap_right _).nodup_iff.mpr h.groups

theorem Accepts.perm (h : Accepts set protects) (hperm : records.Perm set.records) :
    Accepts { set with records } protects where
  length_le := hperm.length_eq ▸ h.length_le
  unprotected r hr := h.unprotected r (hperm.mem_iff.mp hr)
  consistent := by
    have hall : ∀ {β : Type} {f : ActualKnownInterpretation → β}, ∀ x ∈ records.map f,
        x ∈ set.records.map f := fun x hx => (hperm.map _).mem_iff.mp hx
    refine { h.consistent.perm hperm (fun x hx => ?_) hall with }
    rcases List.mem_append.mp hx with hx | hx
    · exact List.mem_append_left _ hx
    · exact List.mem_append_right _ (hall x hx)

/-- Views that are computed record by record are permuted with the records. -/
theorem zip_views_perm {views views' : List ActualKnownInterpretationView}
    (hviews : List.Forall₂ (fun r v => r.view = .ok v) records views)
    (hviews' : List.Forall₂ (fun r v => r.view = .ok v) records' views')
    (hperm : records'.Perm records) : (records'.zip views').Perm (records.zip views) := by
  -- a record with its view is a function of the record
  have hzip : ∀ {records : List ActualKnownInterpretation}
      {views : List ActualKnownInterpretationView},
      List.Forall₂ (fun r v => r.view = .ok v) records views →
      records.zip views = records.filterMap fun r => r.view.toOption.map (r, ·) := by
    intro records views h
    induction h with
    | nil => rfl
    | cons hview _ ih => simp [hview, ih, Except.toOption]
  rw [hzip hviews, hzip hviews']
  exact hperm.filterMap _

/-- **The order of the records and the sharing of counts change nothing.**  A view that is
returned is the one the record has alone; the records are accepted in one order exactly if they
are in every other; and the views then go with them. -/
theorem shared_count_changes_nothing (set : ActualKnownInterpretations)
    (protects : ProtectedOperations) :
    (∀ views, validateInventory set protects = .ok views →
      views.length = set.records.length ∧
      List.Forall₂ (fun record view => record.view = .ok view) set.records views) ∧
    ∀ records, records.Perm set.records →
      ((∃ views, validateInventory set protects = .ok views) ↔
        ∃ views, validateInventory { set with records } protects = .ok views) ∧
      ∀ views views', validateInventory set protects = .ok views →
        validateInventory { set with records } protects = .ok views' →
        (records.zip views').Perm (set.records.zip views) := by
  obtain ⟨htest, hviews⟩ := validateInventory_tests set protects
  refine ⟨fun views h => ⟨(hviews views h).length_eq.symm, hviews views h⟩, fun records hperm => ?_⟩
  obtain ⟨htest', hviews'⟩ := validateInventory_tests { set with records } protects
  refine ⟨?_, fun views views' h h' => zip_views_perm (hviews views h) (hviews' views' h') hperm⟩
  rw [htest, htest']
  exact ⟨fun h => h.perm hperm, fun h => h.perm hperm.symm⟩

end

/-! ### The missing packs of the crate turn up at the kitchen -/

/-- Each of the two packs that the count missed is explained by a departure of its own. -/
def crateExplained : ActualKnownCountExplanation where
  count := CountLedger.cratePost
  account := {
    original := {
      reconciliation := CountLedger.cratePost.id, operation := .of 42, stockRevision := .of 7
      trace := .of 2, variant := .of 3, packs := .of 2 }
    explanations := [⟨.of 51, .of 8, .of 1⟩,
      ⟨.of 52, .of 9, .of 1⟩]
    amendments := []
    effective := [⟨⟨.of 51, .of 8, .of 1⟩, .of 1, .zero⟩,
      ⟨⟨.of 52, .of 9, .of 1⟩, .of 1, .zero⟩]
    unexplained := .zero
    explained := .of 2
    restored := ⟨[], by decide +kernel⟩ }

def crateTaken (operation : HubRecordId) (revision : HubRevision) : ActualKnownInterpretation where
  stockRevision := .of 9
  catalogRevision := .initial
  latestRecordedAt := crateTime
  original := {
    operation, actor := crateActor, hub := .of 1, stockRevision := revision
    catalogRevision := .initial, trace := .of 2, variant := crateVariant
    recipient := crateRecipient, occurred := .known crateTime, recordedAt := crateTime
    lines := [⟨crate.id, crateDock, .of 1⟩] }
  recipientOriginal := {
    hub := .of 1, family := .explainedCountLoss, operation, stockRevision := revision
    catalogRevision := .initial, recordedAt := crateTime, actor := crateActor
    recipient := crateRecipient, populations := [.of 2], issuedVersions := [] }
  recipientHistory := []
  quantities := []
  countExplanation := some crateExplained

def crateKnown : ActualKnownInterpretations where
  hub := .of 1
  stockRevision := .of 9
  catalogRevision := .initial
  latestRecordedAt := crateTime
  records := [crateTaken (.of 51) (.of 8), crateTaken (.of 52) (.of 9)]

/-- A pack for the kitchen. -/
def crateTakenView : ActualKnownInterpretationView :=
  ⟨⟨{crateRecipient.id}, false⟩, .of 1, .of 1⟩

/-- Whichever of the two comes first, both are viewed as they are alone. -/
theorem shared_count_changes_nothing_crate :
    @validateInventory CountLedger.crateCountDigest crateKnown none =
      .ok [crateTakenView, crateTakenView] ∧
    List.Forall₂ (fun record view => @ActualKnownInterpretation.view CountLedger.crateCountDigest
      record = .ok view) crateKnown.records [crateTakenView, crateTakenView] ∧
    ∃ views, @validateInventory CountLedger.crateCountDigest
        { crateKnown with records := crateKnown.records.reverse } none = .ok views ∧
      (crateKnown.records.reverse.zip views).Perm
        (crateKnown.records.zip [crateTakenView, crateTakenView]) := by
  let _ : Sha256 := CountLedger.crateCountDigest
  obtain ⟨hviews, hperm⟩ := shared_count_changes_nothing crateKnown none
  obtain ⟨haccepts, hzip⟩ := hperm crateKnown.records.reverse (List.reverse_perm _)
  have hfirst : validateInventory crateKnown none = .ok [crateTakenView, crateTakenView] := by
    decide +kernel
  obtain ⟨views, hreversed⟩ := haccepts.mp ⟨_, hfirst⟩
  exact ⟨hfirst, (hviews _ hfirst).2, views, hreversed, hzip _ views hfirst hreversed⟩

end HarvestCircle
