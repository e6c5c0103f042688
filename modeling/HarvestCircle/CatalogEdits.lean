import HarvestCircle.Edits
import HarvestCircle.Encoding
import HarvestCircle.Table

/-! # Editing the reference catalog

Products, packs, parties and locations are created and revised one command at a time, each
against the catalog revision its author saw.  A pack names a product, and paper is issued
with these references, so a pack is never changed, nothing changes kind or is removed, and
a location keeps its purpose.

One command does what `Edited` says or nothing; what a history of commands can do is read
off from that.
-/
namespace HarvestCircle
open Checked Edits

/-- What a command changed. -/
structure ReferenceChange where
  catalogRevision : HubRevision
  previous : Option ReferenceRecord
  current : ReferenceRecord
  deriving DecidableEq, Repr

theorem HubRevision.initial_le (revision : HubRevision) :
    HubRevision.initial.value ≤ revision.value := revision.nonzero

def nextRevision (revision : HubRevision) : Except HubReferenceError HubRevision :=
  mapErr (fun _ => .revisionExhausted) (HubRevision.fromValue (revision.value + 1))

theorem nextRevision_eq_ok {revision next : HubRevision} :
    nextRevision revision = .ok next ↔ next.value = revision.value + 1 := by
  rw [nextRevision, mapErr_eq_ok, HubRevision.fromValue_eq_ok]

namespace ReferenceCatalog

instance : Inhabited ReferenceCatalog where
  default := { revision := .initial, records := [], sorted := .nil, bounded := nofun }

/-- The record of an identity, as the map finds it. -/
def find? (catalog : ReferenceCatalog) (id : HubRecordId) : Option ReferenceRecord :=
  catalog.records.find? fun record => record.id = id

def requireRevision (catalog : ReferenceCatalog) (expected : HubRevision) :
    Except HubReferenceError Unit :=
  refuse (expected ≠ catalog.revision) .staleRevision

def validateValue (catalog : ReferenceCatalog) : ReferenceValue → Except HubReferenceError Unit
  | .pack product _ _ => do
    let _ ← catalog.requireKind product .product
    return ()
  | _ => .ok ()

/-- The catalog at a revision with one record put in. -/
def insert (catalog : ReferenceCatalog) (record : ReferenceRecord) (revision : HubRevision)
    (hcatalog : catalog.revision.value ≤ revision.value)
    (hrecord : record.revision.value ≤ revision.value) : ReferenceCatalog where
  revision := revision
  records := Table.upsert ReferenceRecord.id record catalog.records
  sorted := Table.pairwise_upsert catalog.sorted
  bounded := by
    intro other hother
    rcases (Table.mem_upsert catalog.sorted).mp hother with rfl | ⟨hother, -⟩
    · exact hrecord
    · exact (catalog.bounded other hother).trans hcatalog

/-- One record of a stored catalog. -/
def enter (catalog : ReferenceCatalog) (record : ReferenceRecord) :
    Except HubReferenceError ReferenceCatalog := do
  let known ← attach (refuse (record.revision.value > catalog.revision.value) .staleRevision)
  refuse (catalog.find? record.id).isSome .duplicateId
  return catalog.insert record catalog.revision le_rfl (not_lt.mp (refuse_eq_ok.mp known.property))

def restore (revision : HubRevision) (records : List ReferenceRecord) :
    Except HubReferenceError ReferenceCatalog := do
  refuse (records.length > hubReferenceCapacity) .capacity
  let catalog ← records.foldlM enter { revision, records := [], sorted := .nil, bounded := nofun }
  catalog.records.forM fun record => catalog.validateValue record.value
  return catalog

def create (expected : HubRevision) (id : HubRecordId) (value : ReferenceValue) :
    Edit ReferenceCatalog HubReferenceError ReferenceChange := do
  let catalog ← look
  check (catalog.requireRevision expected)
  check (refuse (catalog.find? id).isSome .duplicateId)
  check (refuse (catalog.records.length ≥ hubReferenceCapacity) .capacity)
  check (catalog.validateValue value)
  let next ← check (attach (nextRevision catalog.revision))
  let record := { id, revision := .initial, value }
  set (catalog.insert record next.val (nextRevision_eq_ok.mp next.property ▸ Nat.le_succ _)
    (HubRevision.initial_le next.val))
  return { catalogRevision := next, previous := none, current := record }

/-- What may not be revised. -/
def checkRevisable : ReferenceValue → ReferenceValue → Except HubReferenceError Unit
  | .pack .., _ => .error .immutablePack
  | .location _ old, .location _ new => refuse (old ≠ new) .immutableLocationPurpose
  | _, _ => .ok ()

theorem revised_le {catalog : ReferenceCatalog} {id : HubRecordId} {previous : ReferenceRecord}
    {recordRevision next revised : HubRevision} (hprevious : catalog.get id = .ok previous)
    (hsame : previous.revision = recordRevision) (hnext : nextRevision catalog.revision = .ok next)
    (hrevised : nextRevision recordRevision = .ok revised) : revised.value ≤ next.value := by
  rw [nextRevision_eq_ok] at hnext hrevised
  have hmem : previous ∈ catalog.records := List.mem_of_find?_eq_some (okOr_eq_ok.mp hprevious)
  have hbound := catalog.bounded previous hmem
  rw [hsame] at hbound
  omega

def revise (expected : HubRevision) (id : HubRecordId) (recordRevision : HubRevision)
    (value : ReferenceValue) : Edit ReferenceCatalog HubReferenceError ReferenceChange := do
  let catalog ← look
  check (catalog.requireRevision expected)
  let previous ← check (attach (catalog.get id))
  let same ← check (attach (refuse (previous.val.revision ≠ recordRevision) .staleRevision))
  check (refuse (previous.val.value.kind ≠ value.kind) .wrongReferenceKind)
  check (refuse (previous.val.value = value) .noChange)
  check (checkRevisable previous.val.value value)
  check (catalog.validateValue value)
  let next ← check (attach (nextRevision catalog.revision))
  let revised ← check (attach (nextRevision recordRevision))
  let record := { id, revision := revised.val, value }
  set (catalog.insert record next.val (nextRevision_eq_ok.mp next.property ▸ Nat.le_succ _)
    (revised_le previous.property (Decidable.not_not.mp (refuse_eq_ok.mp same.property))
      next.property revised.property))
  return { catalogRevision := next, previous := some previous, current := record }

end ReferenceCatalog

def ReferenceCommand.apply (command : ReferenceCommand) :
    Edit ReferenceCatalog HubReferenceError ReferenceChange :=
  match command.mutation with
  | .create id value => ReferenceCatalog.create command.expectedCatalogRevision id value
  | .revise id expectedRecordRevision value =>
    ReferenceCatalog.revise command.expectedCatalogRevision id expectedRecordRevision value

/-! ## What the catalog knows -/

/-- The product a pack is of. -/
def ReferenceValue.product? : ReferenceValue → Option HubRecordId
  | .pack item _ _ => some item
  | _ => none

def ReferenceValue.purpose? : ReferenceValue → Option LocationPurpose
  | .location _ purpose => some purpose
  | _ => none

namespace ReferenceCatalog
variable {catalog catalog' : ReferenceCatalog} {id : HubRecordId} {record : ReferenceRecord}

theorem find?_eq_some :
    catalog.find? id = some record ↔ record ∈ catalog.records ∧ record.id = id :=
  find?_key_eq_some (List.pairwise_map.mpr (catalog.sorted.imp fun hlt => hlt.ne))

theorem get_eq_ok : catalog.get id = .ok record ↔ catalog.find? id = some record := okOr_eq_ok

variable {revision : HubRevision}

theorem records_insert {hcatalog : catalog.revision.value ≤ revision.value}
    {hrecord : record.revision.value ≤ revision.value} :
    (catalog.insert record revision hcatalog hrecord).records =
      Table.upsert ReferenceRecord.id record catalog.records := rfl

theorem find?_insert {hcatalog : catalog.revision.value ≤ revision.value}
    {hrecord : record.revision.value ≤ revision.value} :
    (catalog.insert record revision hcatalog hrecord).find? id =
      if id = record.id then some record else catalog.find? id := by
  apply Option.ext
  intro other
  rw [find?_eq_some, records_insert, Table.mem_upsert catalog.sorted]
  split_ifs with hid
  · rw [Option.some.injEq]
    constructor
    · rintro ⟨rfl | ⟨-, hne⟩, hother⟩
      · rfl
      · exact absurd (hother.trans hid) hne
    · rintro rfl
      exact ⟨.inl rfl, hid.symm⟩
  · rw [find?_eq_some]
    constructor
    · rintro ⟨rfl | ⟨hmem, -⟩, hother⟩
      · exact absurd hother.symm hid
      · exact ⟨hmem, hother⟩
    · rintro ⟨hmem, hother⟩
      exact ⟨.inr ⟨hmem, fun heq => hid (hother.symm.trans heq)⟩, hother⟩

/-- A catalog is what it holds. -/
theorem eq_of_perm (hrevision : catalog.revision = catalog'.revision)
    (hperm : catalog.records.Perm catalog'.records) : catalog = catalog' := by
  have hrecords : catalog.records = catalog'.records :=
    eq_of_pairwise_lt ReferenceRecord.id catalog.sorted catalog'.sorted fun _ => hperm.mem_iff
  cases catalog
  cases catalog'
  cases hrevision
  cases hrecords
  rfl

theorem validateValue_eq_ok {value : ReferenceValue} {u : Unit} :
    catalog.validateValue value = .ok u ↔ ∀ product, value.product? = some product →
      ∃ item, catalog.find? product = some item ∧ item.value.kind = .product := by
  cases value with
  | pack product label grams =>
    simp only [validateValue, requireKind, accepted, get_eq_ok, passed, ReferenceValue.product?,
      Option.some.injEq]
    constructor
    · rintro ⟨_, ⟨item, hitem, hkind, -⟩, -⟩ _ rfl
      exact ⟨item, hitem, hkind⟩
    · intro h
      obtain ⟨item, hitem, hkind⟩ := h product rfl
      exact ⟨item, ⟨item, hitem, hkind, rfl⟩, trivial⟩
  | _ => simp [validateValue, ReferenceValue.product?]

theorem checkRevisable_eq_ok {old new : ReferenceValue} {u : Unit} (hkind : old.kind = new.kind) :
    checkRevisable old new = .ok u ↔ old.kind ≠ .pack ∧ old.purpose? = new.purpose? := by
  cases old <;> cases new <;>
    simp_all [checkRevisable, ReferenceValue.kind, ReferenceValue.purpose?]

/-! ## What was stored -/

/-- Every pack is of a product of the catalog, and there are not too many records. -/
structure Sound (catalog : ReferenceCatalog) : Prop where
  products : ∀ record ∈ catalog.records, catalog.validateValue record.value = .ok ()
  capacity : catalog.records.length ≤ hubReferenceCapacity

theorem enter_eq_ok : catalog.enter record = .ok catalog' ↔
    record.revision.value ≤ catalog.revision.value ∧
      (∀ other ∈ catalog.records, other.id ≠ record.id) ∧
      catalog'.revision = catalog.revision ∧ (record :: catalog.records).Perm catalog'.records := by
  have hfresh : ¬ (catalog.find? record.id).isSome ↔
      ∀ other ∈ catalog.records, other.id ≠ record.id := by
    simp [find?]
  rw [enter, attach_bind_eq_ok]
  simp only [accepted, hfresh]
  constructor
  · rintro ⟨hknown, hnew, rfl⟩
    exact ⟨not_lt.mp hknown, hnew, rfl, (Table.upsert_perm catalog.sorted hnew).symm⟩
  · rintro ⟨hknown, hnew, hrevision, hperm⟩
    refine ⟨not_lt.mpr hknown, hnew, eq_of_perm hrevision.symm ?_⟩
    exact (Table.upsert_perm catalog.sorted hnew).trans hperm

/-- What is restored is a sound catalog with the records given, and each of those is restored
from its records in any order. -/
theorem restore_eq_ok {records : List ReferenceRecord} :
    restore revision records = .ok catalog ↔
      catalog.revision = revision ∧ records.Perm catalog.records ∧ catalog.Sound := by
  simp only [restore, accepted, forM_eq_ok, passed]
  constructor
  · rintro ⟨hcapacity, loaded, hloop, hproducts, rfl⟩
    have hloaded : loaded.revision = revision ∧ records.Perm loaded.records := by
      refine foldlM_invariant (fun done catalog => catalog.revision = revision ∧
        done.Perm catalog.records) ⟨rfl, .nil⟩ ?_ hloop
      rintro done record rest before after - ⟨hrevision, hperm⟩ henter
      obtain ⟨-, -, hsame, hadded⟩ := enter_eq_ok.mp henter
      exact ⟨hsame.trans hrevision, (List.perm_append_singleton record done).trans
        ((hperm.cons record).trans hadded)⟩
    exact ⟨hloaded.1, hloaded.2, hproducts, hloaded.2.length_eq ▸ hcapacity⟩
  · rintro ⟨rfl, hperm, hsound⟩
    have hnodup : (records.map ReferenceRecord.id).Nodup :=
      (hperm.map _).nodup_iff.mpr (List.pairwise_map.mpr (catalog.sorted.imp fun hlt => hlt.ne))
    let empty : ReferenceCatalog :=
      { revision := catalog.revision, records := [], sorted := .nil, bounded := nofun }
    have hloads : ∃ loaded, records.foldlM enter empty = .ok loaded ∧
        loaded.revision = catalog.revision ∧ records.Perm loaded.records := by
      refine foldlM_succeeds (fun done (loaded : ReferenceCatalog) =>
        loaded.revision = catalog.revision ∧ done.Perm loaded.records) ⟨rfl, .nil⟩ ?_
      rintro done record rest before hsplit ⟨hrevision, hdone⟩
      have hmem : record ∈ catalog.records := hperm.mem_iff.mp (by simp [hsplit])
      have hfresh : ∀ other ∈ before.records, other.id ≠ record.id := fun other hother =>
        nodup_map_iff_fresh.mp hnodup done record rest hsplit other (hdone.mem_iff.mpr hother)
      have hknown : record.revision.value ≤ before.revision.value :=
        hrevision ▸ catalog.bounded record hmem
      have henter :
          before.enter record = .ok (before.insert record before.revision le_rfl hknown) :=
        enter_eq_ok.mpr ⟨hknown, hfresh, rfl, (Table.upsert_perm before.sorted hfresh).symm⟩
      refine ⟨_, henter, hrevision, ?_⟩
      exact (List.perm_append_singleton record done).trans
        ((hdone.cons record).trans (enter_eq_ok.mp henter).2.2.2)
    obtain ⟨loaded, hloop, hrevision, hloaded⟩ := hloads
    obtain rfl : loaded = catalog := eq_of_perm hrevision (hloaded.symm.trans hperm)
    exact ⟨hperm.length_eq ▸ hsound.capacity, loaded, hloop, hsound.products, rfl⟩

theorem sound_default : (default : ReferenceCatalog).Sound where
  products := nofun
  capacity := Nat.zero_le _

/-! ## What one command does -/

/-- The revision of a record, with none for a record that is not there. -/
def revisionOf (catalog : ReferenceCatalog) (id : HubRecordId) : Nat :=
  (catalog.find? id).elim 0 (·.revision.value)

/-- A success changes the record it names and that in few ways. -/
structure Edited (named : HubRecordId) (catalog : ReferenceCatalog) (change : ReferenceChange)
    (next : ReferenceCatalog) : Prop where
  reported : change.catalogRevision = next.revision
  revision : next.revision.value = catalog.revision.value + 1
  previous : change.previous = catalog.find? named
  current : next.find? named = some change.current
  others : ∀ id, id ≠ named → next.find? id = catalog.find? id
  counted : next.revisionOf named = catalog.revisionOf named + 1
  products : catalog.validateValue change.current.value = .ok ()
  capacity : catalog.records.length ≤ hubReferenceCapacity →
    next.records.length ≤ hubReferenceCapacity
  kept : ∀ old, catalog.find? named = some old → old.value.kind = change.current.value.kind ∧
    old.value.kind ≠ .pack ∧ old.value.purpose? = change.current.value.purpose?

theorem edited_insert (record : ReferenceRecord) {next : HubRevision}
    {hcatalog : catalog.revision.value ≤ next.value} {hrecord : record.revision.value ≤ next.value}
    {previous : Option ReferenceRecord} (hnext : next.value = catalog.revision.value + 1)
    (hprevious : previous = catalog.find? record.id)
    (hcounted : record.revision.value = catalog.revisionOf record.id + 1)
    (hproducts : catalog.validateValue record.value = .ok ())
    (hcapacity : catalog.records.length ≤ hubReferenceCapacity →
      (catalog.insert record next hcatalog hrecord).records.length ≤ hubReferenceCapacity)
    (hkept : ∀ old, catalog.find? record.id = some old → old.value.kind = record.value.kind ∧
      old.value.kind ≠ .pack ∧ old.value.purpose? = record.value.purpose?) :
    Edited record.id catalog ⟨next, previous, record⟩
      (catalog.insert record next hcatalog hrecord) where
  reported := rfl
  revision := hnext
  previous := hprevious
  current := by rw [find?_insert, if_pos rfl]
  others := fun id hid => by rw [find?_insert, if_neg hid]
  counted := by rw [← hcounted, revisionOf, find?_insert, if_pos rfl]; rfl
  products := hproducts
  capacity := hcapacity
  kept := hkept

theorem create_allOrNothing (expected : HubRevision) (id : HubRecordId) (value : ReferenceValue)
    (catalog : ReferenceCatalog) :
    AllOrNothing (create expected id value) catalog (Edited id catalog) := by
  refine allOrNothing_look (allOrNothing_check fun _ _ => allOrNothing_check fun _ hnew =>
    allOrNothing_check fun _ hroom => allOrNothing_check fun _ hproducts =>
    allOrNothing_check fun next _ => allOrNothing_set ?_)
  have hnone : catalog.find? id = none := by simpa using hnew
  have hroom : catalog.records.length < hubReferenceCapacity := by simpa using hroom
  have hfresh : ∀ other ∈ catalog.records, other.id ≠ id := by simpa [find?] using hnone
  refine edited_insert { id, revision := .initial, value } (nextRevision_eq_ok.mp next.property)
    hnone.symm ?_ hproducts (fun _ => ?_) ?_
  · rw [revisionOf, hnone]
    rfl
  · rw [records_insert, (Table.upsert_perm catalog.sorted hfresh).length_eq]
    exact hroom
  · intro old hold
    rw [hnone] at hold
    cases hold

theorem revise_allOrNothing (expected : HubRevision) (id : HubRecordId)
    (recordRevision : HubRevision) (value : ReferenceValue) (catalog : ReferenceCatalog) :
    AllOrNothing (revise expected id recordRevision value) catalog (Edited id catalog) := by
  refine allOrNothing_look (allOrNothing_check fun _ _ => allOrNothing_check fun previous _ =>
    allOrNothing_check fun same _ => allOrNothing_check fun _ hkind => allOrNothing_check fun _ _ =>
    allOrNothing_check fun _ hrevisable => allOrNothing_check fun _ hproducts =>
    allOrNothing_check fun next _ => allOrNothing_check fun revised _ => allOrNothing_set ?_)
  have hprevious : catalog.find? id = some previous.val := get_eq_ok.mp previous.property
  obtain ⟨hmem, hid⟩ := find?_eq_some.mp hprevious
  have hsame : previous.val.revision = recordRevision := by simpa using same.property
  have hkind : previous.val.value.kind = value.kind := by simpa using hkind
  refine edited_insert { id, revision := revised.val, value } (nextRevision_eq_ok.mp next.property)
    hprevious.symm ?_ hproducts (fun hcapacity => ?_) ?_
  · rw [revisionOf, hprevious, nextRevision_eq_ok.mp revised.property, ← hsame]
    rfl
  · rw [records_insert, Table.length_upsert_of_mem catalog.sorted hmem hid]
    exact hcapacity
  · intro old hold
    obtain rfl := Option.some.inj (hprevious.symm.trans hold)
    exact ⟨hkind, (checkRevisable_eq_ok hkind).mp hrevisable⟩

end ReferenceCatalog

theorem ReferenceCommand.apply_allOrNothing (command : ReferenceCommand)
    (catalog : ReferenceCatalog) :
    AllOrNothing command.apply catalog (ReferenceCatalog.Edited command.mutation.id catalog) := by
  obtain ⟨expected, _ | _⟩ := command
  · exact ReferenceCatalog.create_allOrNothing _ _ _ catalog
  · exact ReferenceCatalog.revise_allOrNothing _ _ _ _ catalog

/-! ## What a history of commands does -/

/-- The outcomes of commands applied in order, and the catalog they leave. -/
def ReferenceCommand.applyAll (commands : List ReferenceCommand) (catalog : ReferenceCatalog) :
    List (Except HubReferenceError ReferenceChange) × ReferenceCatalog :=
  runAll (commands.map ReferenceCommand.apply) catalog

/-- A success that changed the record of an identity. -/
def ReferenceChange.names (id : HubRecordId) : Except HubReferenceError ReferenceChange → Bool
  | .ok change => change.current.id = id
  | .error _ => false

/-- What no command changes of a record: its kind, a location's purpose, and all of a pack. -/
structure ReferenceRecord.Kept (before after : ReferenceRecord) : Prop where
  kind : after.value.kind = before.value.kind
  purpose : after.value.purpose? = before.value.purpose?
  pack : before.value.kind = .pack → after = before

theorem ReferenceRecord.Kept.refl (record : ReferenceRecord) : record.Kept record :=
  ⟨rfl, rfl, fun _ => rfl⟩

theorem ReferenceRecord.Kept.trans {a b c : ReferenceRecord} (hab : a.Kept b) (hbc : b.Kept c) :
    a.Kept c where
  kind := hbc.kind.trans hab.kind
  purpose := hbc.purpose.trans hab.purpose
  pack := fun h => (hbc.pack (hab.kind.trans h)).trans (hab.pack h)

namespace ReferenceCatalog
variable {named : HubRecordId} {catalog next : ReferenceCatalog} {change : ReferenceChange}

section
variable (h : Edited named catalog change next)
include h

theorem Edited.find?_kept {id : HubRecordId} {record : ReferenceRecord}
    (hrecord : catalog.find? id = some record) :
    ∃ after, next.find? id = some after ∧ record.Kept after := by
  by_cases hid : id = named
  · subst hid
    obtain ⟨hkind, hpack, hpurpose⟩ := h.kept record hrecord
    exact ⟨change.current, h.current, hkind.symm, hpurpose.symm, fun hp => absurd hp hpack⟩
  · exact ⟨record, (h.others id hid).trans hrecord, .refl record⟩

/-- A value that names a product of the catalog still does. -/
theorem Edited.validateValue {value : ReferenceValue}
    (hvalue : catalog.validateValue value = .ok ()) : next.validateValue value = .ok () := by
  rw [validateValue_eq_ok] at *
  intro product hproduct
  obtain ⟨item, hitem, hkind⟩ := hvalue product hproduct
  obtain ⟨after, hafter, hkept⟩ := h.find?_kept hitem
  exact ⟨after, hafter, hkept.kind.trans hkind⟩

theorem Edited.sound (hsound : catalog.Sound) : next.Sound where
  products := by
    intro record hrecord
    have hfind : next.find? record.id = some record := find?_eq_some.mpr ⟨hrecord, rfl⟩
    apply h.validateValue
    by_cases hid : record.id = named
    · rw [hid, h.current] at hfind
      obtain rfl := Option.some.inj hfind
      exact h.products
    · rw [h.others _ hid] at hfind
      exact hsound.products record (find?_eq_some.mp hfind).1
  capacity := h.capacity hsound.capacity

theorem Edited.revisionOf (id : HubRecordId) :
    next.revisionOf id =
      catalog.revisionOf id + if ReferenceChange.names id (.ok change) = true then 1 else 0 := by
  have hcurrent : change.current.id = named := (find?_eq_some.mp h.current).2
  simp only [ReferenceChange.names, hcurrent, decide_eq_true_eq]
  split_ifs with hid
  · exact hid ▸ h.counted
  · rw [ReferenceCatalog.revisionOf, h.others id (Ne.symm hid)]
    rfl

end

/-- What holds between the catalogs before and after some commands. -/
structure Evolved (catalog : ReferenceCatalog)
    (outcomes : List (Except HubReferenceError ReferenceChange)) (later : ReferenceCatalog) :
    Prop where
  sound : catalog.Sound → later.Sound
  revision : later.revision.value = catalog.revision.value + outcomes.countP Except.isOk
  counted : ∀ id, later.revisionOf id =
    catalog.revisionOf id + outcomes.countP (ReferenceChange.names id)
  kept : ∀ id record, catalog.find? id = some record →
    ∃ after, later.find? id = some after ∧ record.Kept after

theorem Evolved.nil (catalog : ReferenceCatalog) : Evolved catalog [] catalog where
  sound := id
  revision := rfl
  counted := fun _ => rfl
  kept := fun _ record h => ⟨record, h, .refl record⟩

variable {later : ReferenceCatalog} {outcomes : List (Except HubReferenceError ReferenceChange)}

theorem Evolved.cons_error (h : Evolved catalog outcomes later) (e : HubReferenceError) :
    Evolved catalog (.error e :: outcomes) later where
  sound := h.sound
  revision := by rw [List.countP_cons_of_neg (by simp [Except.isOk, Except.toBool]), h.revision]
  counted := fun id => by rw [List.countP_cons_of_neg (by simp [ReferenceChange.names]), h.counted]
  kept := h.kept

theorem Evolved.cons_ok (hedited : Edited named catalog change next)
    (h : Evolved next outcomes later) : Evolved catalog (.ok change :: outcomes) later where
  sound := fun hsound => h.sound (hedited.sound hsound)
  revision := by
    rw [List.countP_cons_of_pos rfl, h.revision, hedited.revision]
    omega
  counted := fun id => by
    rw [List.countP_cons, h.counted, hedited.revisionOf]
    omega
  kept := by
    intro id record hrecord
    obtain ⟨between, hbetween, hkept⟩ := hedited.find?_kept hrecord
    obtain ⟨after, hafter, hkept'⟩ := h.kept id between hbetween
    exact ⟨after, hafter, hkept.trans hkept'⟩

end ReferenceCatalog

/-- Commands applied one after the other, failed ones included. -/
theorem ReferenceCommand.applyAll_evolved (commands : List ReferenceCommand)
    (catalog : ReferenceCatalog) :
    catalog.Evolved (applyAll commands catalog).1 (applyAll commands catalog).2 := by
  refine runAll_induction (P := ReferenceCatalog.Evolved) .nil ?_ catalog
  intro edit hedit catalog outcomes later hlater
  obtain ⟨command, -, rfl⟩ := List.mem_map.mp hedit
  rcases command.apply_allOrNothing catalog with ⟨e, hrun⟩ | ⟨change, next, hrun, hedited⟩
  · rw [hrun] at hlater ⊢
    exact hlater.cons_error e
  · rw [hrun] at hlater ⊢
    exact .cons_ok hedited hlater

open ReferenceCatalog ReferenceCommand in
/-- The catalog keeps its promises along every history of edits: from the default catalog or a
restored one, after the commands `done` and any further ones. -/
theorem catalog_keeps_promises {start : ReferenceCatalog}
    (hstart : start = default ∨ ∃ revision records, restore revision records = .ok start)
    (done rest : List ReferenceCommand) :
    let catalog := (applyAll done start).2
    let outcomes := (applyAll rest catalog).1
    let later := (applyAll rest catalog).2
    applyAll (done ++ rest) start = ((applyAll done start).1 ++ outcomes, later) ∧
    (∀ command : ReferenceCommand,
      (∀ e next, run command.apply catalog = (.error e, next) → next = catalog) ∧
      ∀ change next, run command.apply catalog = (.ok change, next) →
        next.revision.value = catalog.revision.value + 1 ∧
        change = ⟨next.revision, catalog.find? command.mutation.id, change.current⟩ ∧
        next.find? command.mutation.id = some change.current ∧
        ∀ id, id ≠ command.mutation.id → next.find? id = catalog.find? id) ∧
    (∀ record ∈ catalog.records, ∀ product label grams, record.value = .pack product label grams →
      ∃ item ∈ catalog.records, item.id = product ∧ item.value.kind = .product) ∧
    (∀ record ∈ catalog.records, ∃ after ∈ later.records, after.id = record.id ∧
      after.value.kind = record.value.kind ∧ after.value.purpose? = record.value.purpose? ∧
      (record.value.kind = .pack → after = record)) ∧
    later.revision.value = catalog.revision.value + outcomes.countP Except.isOk ∧
    (∀ id, later.revisionOf id =
      catalog.revisionOf id + outcomes.countP (ReferenceChange.names id)) ∧
    (∀ record ∈ catalog.records, record.revision.value ≤ catalog.revision.value) ∧
    catalog.records.length ≤ hubReferenceCapacity ∧
    ∀ records, records.Perm catalog.records → restore catalog.revision records = .ok catalog := by
  intro catalog outcomes later
  have hsound : catalog.Sound := by
    apply (applyAll_evolved done start).sound
    rcases hstart with rfl | ⟨revision, records, hrestore⟩
    · exact sound_default
    · exact (restore_eq_ok.mp hrestore).2.2
  have hevolved : catalog.Evolved outcomes later := applyAll_evolved rest catalog
  refine ⟨?_, fun command => ⟨?_, ?_⟩, ?_, ?_, hevolved.revision, hevolved.counted, catalog.bounded,
    hsound.capacity, fun records hperm => restore_eq_ok.mpr ⟨rfl, hperm, hsound⟩⟩
  · rw [applyAll, List.map_append, runAll_append]
    rfl
  · intro e next hrun
    exact (command.apply_allOrNothing catalog).of_error hrun
  · intro change next hrun
    have hedited := (command.apply_allOrNothing catalog).of_ok hrun
    refine ⟨hedited.revision, ?_, hedited.current, hedited.others⟩
    rw [← hedited.reported, ← hedited.previous]
  · intro record hrecord product label grams hvalue
    have hproduct : record.value.product? = some product := by rw [hvalue]; rfl
    obtain ⟨item, hitem, hkind⟩ :=
      validateValue_eq_ok.mp (hsound.products record hrecord) product hproduct
    obtain ⟨hmem, hid⟩ := find?_eq_some.mp hitem
    exact ⟨item, hmem, hid, hkind⟩
  · intro record hrecord
    obtain ⟨after, hafter, hkept⟩ :=
      hevolved.kept record.id record (find?_eq_some.mpr ⟨hrecord, rfl⟩)
    obtain ⟨hmem, hid⟩ := find?_eq_some.mp hafter
    exact ⟨after, hmem, hid, hkept.kind, hkept.purpose, hkept.pack⟩

/-- Beans and a bag of them. -/
def beanCommands : List ReferenceCommand :=
  [⟨.of 1, .create (.of 1) (.product ⟨"Beans", Eq.refl true⟩)⟩,
    ⟨.of 2, .create (.of 2) (.pack (.of 1) ⟨"Bag", Eq.refl true⟩ none)⟩]

/-- The beans get another label; the bag cannot, and the third command comes too late. -/
def beanRelabels : List ReferenceCommand :=
  [⟨.of 3, .revise (.of 1) .initial (.product ⟨"Broad beans", Eq.refl true⟩)⟩,
    ⟨.of 4,
      .revise (.of 2) .initial (.pack (.of 1) ⟨"Sack", Eq.refl true⟩ none)⟩,
    ⟨.of 3, .revise (.of 1) .initial (.product ⟨"Peas", Eq.refl true⟩)⟩]

open ReferenceCatalog ReferenceCommand in
/-- The bag is found as it was created, and the catalog is restored from its records backwards. -/
theorem catalog_keeps_promises_beans :
    let catalog := (applyAll beanCommands default).2
    let later := (applyAll (beanCommands ++ beanRelabels) default).2
    (applyAll beanRelabels catalog).1.tail = [.error .immutablePack, .error .staleRevision] ∧
    later.revision.value = 4 ∧ later.revisionOf (.of 1) = 2 ∧
    (∃ bag ∈ catalog.records, bag.value.kind = .pack ∧ bag ∈ later.records) ∧
    restore later.revision later.records.reverse = .ok later := by
  intro catalog later
  obtain ⟨hboth, -, -, hkept, -⟩ := catalog_keeps_promises (.inl rfl) beanCommands beanRelabels
  have hlater : later = (applyAll beanRelabels catalog).2 := (Prod.ext_iff.mp hboth).2
  refine ⟨by decide +kernel, by decide +kernel, by decide +kernel, ?_, ?_⟩
  · obtain ⟨bag, hbag, hpack⟩ : ∃ bag ∈ catalog.records, bag.value.kind = .pack := by decide +kernel
    obtain ⟨after, hafter, -, -, -, hsame⟩ := hkept bag hbag
    exact ⟨bag, hbag, hpack, hlater ▸ hsame hpack ▸ hafter⟩
  · obtain ⟨-, -, -, -, -, -, -, -, hrestore⟩ :=
      catalog_keeps_promises (.inl rfl) (beanCommands ++ beanRelabels) []
    exact hrestore _ (List.reverse_perm _)

end HarvestCircle
