import Mathlib.Data.List.Nodup
import Mathlib.Logic.Relation
import HarvestCircle.LineageScope

/-! # A lineage over the history of its stock

Between two recorded revisions a population changes in three ways: a group is
separated into two, a group is depleted, or stock of an earlier depletion is found
again as a new child of the depleted group.  `Change` is one such change at the
current revision, and a `Step` advances the revision and then makes any number of
changes; a departure of several groups or a recovery of several debits is one step.
The order in which a lineage lists its nodes plays no part, so a change relates
lists up to permutation.  Depletions are kept in a ledger with what was recovered
from each.

Three things hold over any run from a lineage.  `PhysicalLineage::new` accepts what
was reached as long as the numbers fit (`new_accepts_iff`).  Every node keeps its
identity, parent, creation and origin (`Persists`), so whether it belongs to a scope
is settled when it is created.  And a scope's packs never leak: what it resolves to,
together with what its groups lost since and did not get back, is what was captured
(`Run.accounted`).
-/
namespace HarvestCircle
open Checked Relation

/-! ## Lineages up to order -/

/-- A new child of a group. -/
def PhysicalLineageNode.child (n : PhysicalLineageNode) (id : HubRecordId) (created : HubRevision)
    (packs : WholePacks) (recovery : Option PhysicalRecoveryOrigin) : PhysicalLineageNode where
  id := id
  parent := some n.id
  trace := n.trace
  variant := n.variant
  createdRevision := created
  packs := packs
  recovery := recovery

/-- What `PhysicalLineage::new` asks of nodes in any order, sizes apart. -/
structure Forest (trace variant : HubRecordId) (revision : HubRevision)
    (nodes : List PhysicalLineageNode) : Prop where
  unique : nodes.Pairwise fun a b => a.id ≠ b.id
  one_root : nodes.countP (fun node => node.parent.isNone) = 1
  trace_eq : ∀ n ∈ nodes, n.trace = trace
  variant_eq : ∀ n ∈ nodes, n.variant = variant
  created_le : ∀ n ∈ nodes, n.createdRevision.value ≤ revision.value
  parent_older : ∀ n ∈ nodes, ∀ p, n.parent = some p → ∃ m ∈ nodes, m.id = p ∧
    m.createdRevision.value < n.createdRevision.value ∧
    ∀ origin ∈ n.recovery, m.createdRevision.value < origin.debitRevision.value ∧
      origin.debitRevision.value < n.createdRevision.value
  root_not_recovered : ∀ n ∈ nodes, n.parent = none → n.recovery = none

namespace Forest
variable {trace variant : HubRecordId} {revision revision' : HubRevision}
  {nodes nodes' : List PhysicalLineageNode}

section
variable (h : Forest trace variant revision nodes)
include h

theorem perm (hperm : nodes'.Perm nodes) : Forest trace variant revision nodes' where
  unique := (hperm.pairwise_iff fun hne => Ne.symm hne).mpr h.unique
  one_root := (hperm.countP_eq _).trans h.one_root
  trace_eq n hn := h.trace_eq n (hperm.subset hn)
  variant_eq n hn := h.variant_eq n (hperm.subset hn)
  created_le n hn := h.created_le n (hperm.subset hn)
  parent_older n hn p hp := by
    obtain ⟨m, hm, hrest⟩ := h.parent_older n (hperm.subset hn) p hp
    exact ⟨m, hperm.symm.subset hm, hrest⟩
  root_not_recovered n hn := h.root_not_recovered n (hperm.subset hn)

theorem advance (hle : revision.value ≤ revision'.value) : Forest trace variant revision' nodes :=
  { h with created_le := fun n hn => (h.created_le n hn).trans hle }

theorem node_ext {a b : PhysicalLineageNode} (ha : a ∈ nodes) (hb : b ∈ nodes) (hid : a.id = b.id) :
    a = b :=
  List.inj_on_of_nodup_map (List.pairwise_map.mpr h.unique) ha hb hid

theorem closed : lineageFamily.Closed nodes := by
  intro n hn p hp
  obtain ⟨m, hm, hid, _⟩ := h.parent_older n hn p hp
  exact ⟨m, hm, hid⟩

end

variable {n : PhysicalLineageNode}

/-- The packs of a node play no part. -/
theorem setPacks {rest : List PhysicalLineageNode} (h : Forest trace variant revision (n :: rest))
    (packs : WholePacks) : Forest trace variant revision ({ n with packs } :: rest) where
  unique := List.pairwise_cons.mpr (List.pairwise_cons.mp h.unique)
  one_root := by simpa [List.countP_cons] using h.one_root
  trace_eq := by simpa using h.trace_eq
  variant_eq := by simpa using h.variant_eq
  created_le := by simpa using h.created_le
  parent_older := by simpa using h.parent_older
  root_not_recovered := by simpa using h.root_not_recovered

/-- A child of a node, with a new identity, created now and recovered, if at all, from a
debit between the two creations. -/
theorem child {id : HubRecordId} {packs : WholePacks} {recovery : Option PhysicalRecoveryOrigin}
    (h : Forest trace variant revision nodes) (hn : n ∈ nodes) (hfresh : ∀ m ∈ nodes, m.id ≠ id)
    (holder : n.createdRevision.value < revision.value)
    (horigin : ∀ origin ∈ recovery, n.createdRevision.value < origin.debitRevision.value ∧
      origin.debitRevision.value < revision.value) :
    Forest trace variant revision (n.child id revision packs recovery :: nodes) where
  unique := List.pairwise_cons.mpr ⟨fun m hm => (hfresh m hm).symm, h.unique⟩
  one_root := by simpa [List.countP_cons, PhysicalLineageNode.child] using h.one_root
  trace_eq := List.forall_mem_cons.mpr ⟨h.trace_eq n hn, h.trace_eq⟩
  variant_eq := List.forall_mem_cons.mpr ⟨h.variant_eq n hn, h.variant_eq⟩
  created_le := List.forall_mem_cons.mpr ⟨Nat.le_refl _, h.created_le⟩
  parent_older := by
    refine List.forall_mem_cons.mpr ⟨fun p hp => ?_, fun m hm p hp => ?_⟩
    · obtain rfl := Option.some.inj hp
      exact ⟨n, List.mem_cons_of_mem _ hn, rfl, holder, horigin⟩
    · obtain ⟨q, hq, hrest⟩ := h.parent_older m hm p hp
      exact ⟨q, List.mem_cons_of_mem _ hq, hrest⟩
  root_not_recovered := List.forall_mem_cons.mpr ⟨fun hp => (by cases hp), h.root_not_recovered⟩

end Forest

theorem PhysicalLineage.forest (L : PhysicalLineage) :
    Forest L.trace L.variant L.revision L.nodes where
  unique := L.wellFormed.sorted.imp fun h => h.ne
  one_root := L.wellFormed.one_root
  trace_eq := L.wellFormed.trace_eq
  variant_eq := L.wellFormed.variant_eq
  created_le := L.wellFormed.created_le
  parent_older := L.wellFormed.parent_older
  root_not_recovered := L.wellFormed.root_not_recovered

/-- A forest is accepted exactly when it is small enough. -/
theorem Forest.new_accepts_iff {trace variant : HubRecordId} {revision : HubRevision}
    {nodes : List PhysicalLineageNode} (h : Forest trace variant revision nodes) (hub : HubId) :
    (∃ L, PhysicalLineage.new hub trace variant revision nodes = .ok L) ↔
      nodes.length ≤ hubLineageGroups ∧ nodePacks nodes ≤ hubMaxWholePacks := by
  have hperm := sortNodes_perm nodes
  have hpacks : nodePacks (sortNodes nodes) = nodePacks nodes := (hperm.map _).sum_eq
  constructor
  · rintro ⟨L, hL⟩
    obtain ⟨-, -, -, -, hnodes⟩ := PhysicalLineage.new_eq_ok.mp hL
    have hlen := L.wellFormed.length_le
    have hle := L.wellFormed.packs_le
    rw [hnodes] at hlen hle
    exact ⟨hperm.length_eq ▸ hlen, hpacks ▸ hle⟩
  · rintro ⟨hlen, hle⟩
    have hsorted := h.perm hperm
    refine PhysicalLineage.new_succeeds {
      nonempty := fun he => ?_
      length_le := hperm.length_eq.symm ▸ hlen
      sorted := ?_
      one_root := hsorted.one_root
      trace_eq := hsorted.trace_eq
      variant_eq := hsorted.variant_eq
      created_le := hsorted.created_le
      parent_older := hsorted.parent_older
      root_not_recovered := hsorted.root_not_recovered
      packs_le := hpacks.symm ▸ hle }
    · have hroot := hsorted.one_root
      rw [he] at hroot
      cases hroot
    · exact (pairwise_sortNodes nodes).imp₂ (fun _ _ => lt_of_le_of_ne) hsorted.unique

/-! ## Histories -/

/-- A recorded depletion of a group, and what was found again of it. -/
structure Depletion where
  group : HubRecordId
  revision : HubRevision
  packs : WholePacks
  recovered : WholePacks
  recovered_le : recovered.value ≤ packs.value
  deriving DecidableEq

/-- What is still missing. -/
def Depletion.outstanding (d : Depletion) : Nat := d.packs.value - d.recovered.value

/-- The nodes of a population, with the depletions recorded so far. -/
structure StockHistory where
  revision : HubRevision
  nodes : List PhysicalLineageNode
  depletions : List Depletion

namespace StockHistory

/-- One change at the current revision, to groups that were there before it. -/
inductive Change : StockHistory → StockHistory → Prop where
  /-- A group keeps a part of its packs and a new child gets the others. -/
  | separate {s : StockHistory} {n : PhysicalLineageNode} {rest nodes' : List PhysicalLineageNode}
      {id : HubRecordId} {keep part : WholePacks} :
      s.nodes.Perm (n :: rest) → n.createdRevision.value < s.revision.value →
      (∀ m ∈ s.nodes, m.id ≠ id) → 0 < part.value → 0 < keep.value →
      keep.value + part.value = n.packs.value →
      nodes'.Perm (n.child id s.revision part none :: { n with packs := keep } :: rest) →
      Change s { s with nodes := nodes' }
  /-- A group loses some of its packs, or all. -/
  | deplete {s : StockHistory} {n : PhysicalLineageNode} {rest nodes' : List PhysicalLineageNode}
      {keep : WholePacks} {d : Depletion} {depletions' : List Depletion} :
      s.nodes.Perm (n :: rest) → n.createdRevision.value < s.revision.value →
      d.group = n.id → d.revision = s.revision → d.recovered = WholePacks.zero →
      keep.value + d.packs.value = n.packs.value →
      nodes'.Perm ({ n with packs := keep } :: rest) → depletions'.Perm (d :: s.depletions) →
      Change s { s with nodes := nodes', depletions := depletions' }
  /-- Packs of an earlier depletion are found, as a new child of the depleted group. -/
  | recover {s : StockHistory} {n : PhysicalLineageNode} {nodes' : List PhysicalLineageNode}
      {id operation : HubRecordId} {found : WholePacks} {d d' : Depletion}
      {others depletions' : List Depletion} :
      n ∈ s.nodes → (∀ m ∈ s.nodes, m.id ≠ id) →
      s.depletions.Perm (d :: others) → d.group = n.id → d.revision.value < s.revision.value →
      d'.group = d.group → d'.revision = d.revision → d'.packs = d.packs →
      d'.recovered.value = d.recovered.value + found.value →
      nodes'.Perm (n.child id s.revision found (some ⟨operation, d.revision⟩) :: s.nodes) →
      depletions'.Perm (d' :: others) →
      Change s { s with nodes := nodes', depletions := depletions' }

/-- The next recorded revision, with what changed at it. -/
def Step (s s' : StockHistory) : Prop :=
  ∃ revision, s.revision.value < revision.value ∧
    ReflTransGen Change { s with revision := revision } s'

/-- Any number of recorded revisions. -/
def Run : StockHistory → StockHistory → Prop := ReflTransGen Step

/-- The nodes form a lineage and every depletion is of one of them, after its creation. -/
structure Valid (trace variant : HubRecordId) (s : StockHistory) : Prop where
  forest : Forest trace variant s.revision s.nodes
  recorded : ∀ d ∈ s.depletions, ∃ n ∈ s.nodes, n.id = d.group ∧
    n.createdRevision.value < d.revision.value ∧ d.revision.value ≤ s.revision.value

/-- Nodes may change their packs, and nothing else. -/
def Persists (nodes nodes' : List PhysicalLineageNode) : Prop :=
  ∀ n ∈ nodes, ∃ n' ∈ nodes', n'.id = n.id ∧ n'.parent = n.parent ∧
    n'.createdRevision = n.createdRevision ∧ n'.recovery = n.recovery

theorem Persists.refl (nodes : List PhysicalLineageNode) : Persists nodes nodes :=
  fun n hn => ⟨n, hn, rfl, rfl, rfl, rfl⟩

variable {nodes nodes' : List PhysicalLineageNode}

theorem Persists.trans {nodes'' : List PhysicalLineageNode} (h : Persists nodes nodes')
    (h' : Persists nodes' nodes'') : Persists nodes nodes'' := by
  intro n hn
  obtain ⟨n', hn', hid, hparent, hcreated, horigin⟩ := h n hn
  obtain ⟨n'', hn'', hid', hparent', hcreated', horigin'⟩ := h' n' hn'
  exact ⟨n'', hn'', hid'.trans hid, hparent'.trans hparent, hcreated'.trans hcreated,
    horigin'.trans horigin⟩

theorem persists_of_setPacks {n : PhysicalLineageNode} {packs : WholePacks}
    {rest : List PhysicalLineageNode} (h : nodes.Perm (n :: rest))
    (h' : { n with packs := packs } :: rest ⊆ nodes') : Persists nodes nodes' := by
  intro m hm
  rcases List.mem_cons.mp (h.subset hm) with rfl | hm
  · exact ⟨_, h' List.mem_cons_self, rfl, rfl, rfl, rfl⟩
  · exact ⟨m, h' (List.mem_cons_of_mem _ hm), rfl, rfl, rfl, rfl⟩

variable {trace variant : HubRecordId} {s s' : StockHistory}

theorem Change.revision_eq (h : Change s s') : s'.revision = s.revision := by
  cases h <;> rfl

theorem Change.persists (h : Change s s') : Persists s.nodes s'.nodes := by
  cases h with
  | separate hn _ _ _ _ _ hnodes =>
    exact persists_of_setPacks hn fun m hm => hnodes.symm.subset (List.mem_cons_of_mem _ hm)
  | deplete hn _ _ _ _ _ hnodes _ => exact persists_of_setPacks hn hnodes.symm.subset
  | recover _ _ _ _ _ _ _ _ _ hnodes _ =>
    exact fun m hm => ⟨m, hnodes.symm.subset (List.mem_cons_of_mem _ hm), rfl, rfl, rfl, rfl⟩

/-- Ledger entries stay tied to their node. -/
theorem recorded_of_persists {revision : HubRevision} {d : Depletion}
    (hkept : Persists nodes nodes')
    (h : ∃ n ∈ nodes, n.id = d.group ∧ n.createdRevision.value < d.revision.value ∧
      d.revision.value ≤ revision.value) :
    ∃ n ∈ nodes', n.id = d.group ∧ n.createdRevision.value < d.revision.value ∧
      d.revision.value ≤ revision.value := by
  obtain ⟨n, hn, hid, hlt, hle⟩ := h
  obtain ⟨n', hn', hid', _, hcreated, _⟩ := hkept n hn
  exact ⟨n', hn', hid'.trans hid, hcreated ▸ hlt, hle⟩

/-- **One change keeps a history valid.** -/
theorem Change.valid (h : Change s s') (hs : Valid trace variant s) : Valid trace variant s' := by
  have hkept := h.persists
  cases h with
  | @separate n rest _ _ keep part hn holder hfresh hpart hkeep hsum hnodes =>
    refine ⟨?_, fun d hd => recorded_of_persists hkept (hs.recorded d hd)⟩
    have hforest := (hs.forest.perm hn.symm).setPacks keep
    refine (hforest.child (n := { n with packs := keep }) List.mem_cons_self ?_ holder ?_).perm
      hnodes
    · intro m hm
      rcases List.mem_cons.mp hm with rfl | hm
      · exact hfresh n (hn.symm.subset List.mem_cons_self)
      · exact hfresh m (hn.symm.subset (List.mem_cons_of_mem _ hm))
    · intro origin horigin
      cases horigin
  | @deplete n rest _ keep d _ hn holder hgroup hrevision hzero hsum hnodes hledger =>
    refine ⟨((hs.forest.perm hn.symm).setPacks _).perm hnodes, fun e he => ?_⟩
    refine recorded_of_persists hkept ?_
    rcases List.mem_cons.mp (hledger.subset he) with rfl | he
    · exact ⟨n, hn.symm.subset List.mem_cons_self, hgroup.symm, hrevision ▸ holder,
        hrevision ▸ Nat.le_refl _⟩
    · exact hs.recorded e he
  | @recover n _ id operation found d d' others _ hn hfresh hledger hgroup hearlier hg hr hp hfound
      hnodes hledger' =>
    have hd : ∃ m ∈ s.nodes, m.id = d.group ∧ m.createdRevision.value < d.revision.value ∧
        d.revision.value ≤ s.revision.value :=
      hs.recorded d (hledger.symm.subset List.mem_cons_self)
    refine ⟨?_, fun e he => recorded_of_persists hkept ?_⟩
    · obtain ⟨m, hm, hid, hlt, _⟩ := hd
      obtain rfl : m = n := hs.forest.node_ext hm hn (hid.trans hgroup)
      refine (hs.forest.child hn hfresh (hlt.trans hearlier) ?_).perm hnodes
      rintro origin horigin
      cases horigin
      exact ⟨hlt, hearlier⟩
    · rcases List.mem_cons.mp (hledger'.subset he) with rfl | he
      · rw [hg, hr]; exact hd
      · exact hs.recorded e (hledger.symm.subset (List.mem_cons_of_mem _ he))

/-! ## Runs -/

/-- One change at a new revision is a step. -/
theorem Step.single {r : HubRevision} (hlt : s.revision.value < r.value)
    (h : Change { s with revision := r } s') : Step s s' := ⟨r, hlt, .single h⟩

theorem Step.revision_lt (h : Step s s') : s.revision.value < s'.revision.value := by
  obtain ⟨r, hlt, hrun⟩ := h
  suffices ∀ t, ReflTransGen Change { s with revision := r } t → t.revision = r by
    rw [this s' hrun]; exact hlt
  intro t ht
  induction ht with
  | refl => rfl
  | tail _ hchange ih => exact hchange.revision_eq.trans ih

theorem Step.valid (h : Step s s') (hs : Valid trace variant s) : Valid trace variant s' := by
  obtain ⟨r, hlt, hrun⟩ := h
  induction hrun with
  | refl =>
    refine ⟨hs.forest.advance hlt.le, fun d hd => ?_⟩
    obtain ⟨n, hn, hid, hcreated, hle⟩ := hs.recorded d hd
    exact ⟨n, hn, hid, hcreated, hle.trans hlt.le⟩
  | tail _ hchange ih => exact hchange.valid ih

theorem Step.persists (h : Step s s') : Persists s.nodes s'.nodes := by
  obtain ⟨r, _, hrun⟩ := h
  induction hrun with
  | refl => exact .refl _
  | tail _ hchange ih => exact ih.trans hchange.persists

theorem Run.valid (h : Run s s') (hs : Valid trace variant s) : Valid trace variant s' := by
  induction h with
  | refl => exact hs
  | tail _ hstep ih => exact hstep.valid ih

theorem Run.persists (h : Run s s') : Persists s.nodes s'.nodes := by
  induction h with
  | refl => exact .refl _
  | tail _ hstep ih => exact ih.trans hstep.persists

theorem Run.revision_le (h : Run s s') : s.revision.value ≤ s'.revision.value := by
  induction h with
  | refl => exact Nat.le_refl _
  | tail _ hstep ih => exact ih.trans hstep.revision_lt.le

/-! ## Accounting for a scope -/

section Accounting
variable (P : HubRecordId → Prop) [DecidablePred P] (captured : HubRevision)

/-- The packs of the groups that satisfy `P`. -/
def held (nodes : List PhysicalLineageNode) : Nat := nodePacks (nodes.filter fun n => P n.id)

/-- The depletions of such groups recorded after the capture. -/
def lost (depletions : List Depletion) : List Depletion :=
  depletions.filter fun d => captured.value < d.revision.value ∧ P d.group

/-- What those depletions still miss. -/
def missing (depletions : List Depletion) : Nat :=
  ((lost P captured depletions).map Depletion.outstanding).sum

/-- `P` passes from parent to child as scope membership does. -/
def Hereditary (nodes : List PhysicalLineageNode) : Prop :=
  ∀ n ∈ nodes, ∀ p, n.parent = some p → captured.value < n.createdRevision.value →
    (P n.id ↔ n.inheritsAt captured ∧ P p)

variable {P captured}

omit [DecidablePred P] in
theorem Hereditary.of_persists (h : Hereditary P captured nodes') (hkept : Persists nodes nodes') :
    Hereditary P captured nodes := by
  intro n hn p hp hlt
  obtain ⟨n', hn', hid, hparent, hcreated, horigin⟩ := hkept n hn
  have := h n' hn' p (hparent.trans hp) (hcreated ▸ hlt)
  rwa [hid, PhysicalLineageNode.inheritsAt, hcreated, horigin] at this

theorem held_perm (h : nodes.Perm nodes') :
    held P nodes = held P nodes' := ((h.filter _).map _).sum_eq

variable {ds : List Depletion}

theorem missing_perm {ds' : List Depletion} (h : ds.Perm ds') :
    missing P captured ds = missing P captured ds' := ((h.filter _).map _).sum_eq

theorem held_cons (n : PhysicalLineageNode) (nodes : List PhysicalLineageNode) :
    held P (n :: nodes) = (if P n.id then n.packs.value else 0) + held P nodes := by
  by_cases h : P n.id <;> simp [held, nodePacks, h]

theorem missing_cons (d : Depletion) (ds : List Depletion) :
    missing P captured (d :: ds) =
      (if captured.value < d.revision.value ∧ P d.group then d.outstanding else 0) +
        missing P captured ds := by
  by_cases h : captured.value < d.revision.value ∧ P d.group <;>
    simp [missing, lost, h]

/-- Depletions recorded by the time of the capture are none of the scope's. -/
theorem missing_eq_zero (h : ∀ d ∈ ds, d.revision.value ≤ captured.value) :
    missing P captured ds = 0 := by
  have hnil : lost P captured ds = [] := by
    rw [lost, List.filter_eq_nil_iff]
    intro d hd
    have := h d hd
    simp only [decide_eq_true_eq, not_and]
    omega
  rw [missing, hnil]
  rfl

/-- What was lost is what is missing and what was found again. -/
theorem sum_lost (P : HubRecordId → Prop) [DecidablePred P] (captured : HubRevision)
    (ds : List Depletion) :
    ((lost P captured ds).map fun d => d.packs.value).sum =
      missing P captured ds + ((lost P captured ds).map fun d => d.recovered.value).sum := by
  rw [missing, ← List.sum_map_add]
  congr 1
  refine List.map_congr_left fun d _ => ?_
  have := d.recovered_le
  simp only [Depletion.outstanding]
  omega

/-- **One change after the capture moves packs between the scope and its missing
depletions, and loses none.** -/
theorem Change.accounted (h : Change s s') (hcaptured : captured.value < s.revision.value)
    (hP : Hereditary P captured s'.nodes) :
    held P s'.nodes + missing P captured s'.depletions =
      held P s.nodes + missing P captured s.depletions := by
  cases h with
  | @separate n rest _ id keep part hn holder hfresh hpart hkeep hsum hnodes =>
    have hchild : P id ↔ P n.id := by
      have := hP (n.child id s.revision part none) (hnodes.symm.subset List.mem_cons_self) n.id rfl
        hcaptured
      simpa [PhysicalLineageNode.child, PhysicalLineageNode.inheritsAt, hcaptured] using this
    rw [held_perm hnodes, held_perm hn, held_cons, held_cons, held_cons]
    dsimp only [PhysicalLineageNode.child]
    by_cases hp : P n.id
    · simp only [hchild.mpr hp, hp, if_true]; omega
    · simp only [mt hchild.mp hp, hp, if_false]; omega
  | @deplete n rest _ keep d _ hn holder hgroup hrevision hzero hsum hnodes hledger =>
    have hout : d.outstanding = d.packs.value := by simp [Depletion.outstanding, hzero]
    rw [held_perm hnodes, held_perm hn, missing_perm hledger, held_cons, held_cons, missing_cons,
      hgroup, hrevision, hout]
    dsimp only
    by_cases hp : P n.id
    · simp only [hcaptured, hp, and_self, if_true]; omega
    · simp only [hp, and_false, if_false]; omega
  | @recover n _ id operation found d d' others _ hn hfresh hledger hgroup hearlier hg hr hp hfound
      hnodes hledger' =>
    have hchild : P id ↔ captured.value < d.revision.value ∧ P d.group := by
      have := hP (n.child id s.revision found (some ⟨operation, d.revision⟩))
        (hnodes.symm.subset List.mem_cons_self) n.id rfl hcaptured
      simpa [PhysicalLineageNode.child, PhysicalLineageNode.inheritsAt, hcaptured,
        hgroup] using this
    have hout : d'.outstanding + found.value = d.outstanding := by
      have := d'.recovered_le
      simp only [Depletion.outstanding, hp, hfound] at this ⊢
      omega
    rw [held_perm hnodes, missing_perm hledger', missing_perm hledger, held_cons, missing_cons,
      missing_cons, hg, hr]
    dsimp only [PhysicalLineageNode.child]
    by_cases hc : captured.value < d.revision.value ∧ P d.group
    · simp only [hchild.mpr hc, hc, and_self, if_true]; omega
    · simp only [mt hchild.mp hc, hc, if_false, Nat.zero_add]

theorem Step.accounted (h : Step s s') (hcaptured : captured.value ≤ s.revision.value)
    (hP : Hereditary P captured s'.nodes) :
    held P s'.nodes + missing P captured s'.depletions =
      held P s.nodes + missing P captured s.depletions := by
  obtain ⟨r, hlt, hrun⟩ := h
  suffices ∀ t, ReflTransGen Change { s with revision := r } t → Hereditary P captured t.nodes →
      t.revision = r ∧ held P t.nodes + missing P captured t.depletions =
        held P s.nodes + missing P captured s.depletions from (this s' hrun hP).2
  intro t ht
  induction ht with
  | refl => exact fun _ => ⟨rfl, rfl⟩
  | tail _ hchange ih =>
    intro hP
    obtain ⟨hr, heq⟩ := ih (hP.of_persists hchange.persists)
    exact ⟨hchange.revision_eq.trans hr,
      (hchange.accounted (by rw [hr]; omega) hP).trans heq⟩

/-- **Over any run after the capture nothing leaks.** -/
theorem Run.accounted (h : Run s s') (hcaptured : captured.value ≤ s.revision.value)
    (hP : Hereditary P captured s'.nodes) :
    held P s'.nodes + missing P captured s'.depletions =
      held P s.nodes + missing P captured s.depletions := by
  induction h with
  | refl => rfl
  | tail hrun hstep ih =>
    have hle := hcaptured.trans (Run.revision_le hrun)
    exact (hstep.accounted hle hP).trans (ih (hP.of_persists hstep.persists))

end Accounting

end StockHistory

/-! ## Captured scopes over histories -/

namespace PhysicalLineage

/-- A group belongs to a scope when the walk from it reaches one of the anchors. -/
def InScope (L : PhysicalLineage) (S : CapturedPhysicalScope) (id : HubRecordId) : Prop :=
  ∃ a ∈ S.anchors, L.capturedMember a.group S.capturedRevision id = true

instance (L : PhysicalLineage) (S : CapturedPhysicalScope) : DecidablePred (L.InScope S) :=
  fun _ => inferInstanceAs (Decidable (∃ a ∈ S.anchors, _))

/-- The history a lineage starts, with the depletions recorded before. -/
def history (L : PhysicalLineage) (earlier : List Depletion) : StockHistory where
  revision := L.revision
  nodes := L.nodes
  depletions := earlier

/-- A depletion of a group of this lineage, recorded after the group's creation. -/
def Records (L : PhysicalLineage) (d : Depletion) : Prop :=
  ∃ n ∈ L.nodes, n.id = d.group ∧ n.createdRevision.value < d.revision.value ∧
    d.revision.value ≤ L.revision.value

variable {L L' : PhysicalLineage} {S : CapturedPhysicalScope} {s t : StockHistory}
  {earlier : List Depletion}

theorem history_valid (h : ∀ d ∈ earlier, L.Records d) :
    (L.history earlier).Valid L.trace L.variant := ⟨L.forest, h⟩

/-- The lineage of a later history admits what an earlier one admitted. -/
theorem Admits.of_persists (h : L.Admits S) (hhub : L'.hub = L.hub) (htrace : L'.trace = L.trace)
    (hvariant : L'.variant = L.variant) (hrevision : L.revision.value ≤ L'.revision.value)
    (hkept : StockHistory.Persists L.nodes L'.nodes) : L'.Admits S where
  hub_eq := h.hub_eq.trans hhub.symm
  trace_eq := h.trace_eq.trans htrace.symm
  variant_eq := h.variant_eq.trans hvariant.symm
  captured_le := h.captured_le.trans hrevision
  anchor_node a ha := by
    obtain ⟨n, hn, hid, hcreated⟩ := h.anchor_node a ha
    obtain ⟨n', hn', hid', _, hcreated', _⟩ := hkept n hn
    exact ⟨n', hn', hid'.trans hid, hcreated'.trans hcreated⟩

variable {n : PhysicalLineageNode} {hub : HubId} {nodes : List PhysicalLineageNode}
  {revision : HubRevision} {trace variant : HubRecordId}

/-- Membership of a node never changes after it exists. -/
theorem mem_members_of_persists (hkept : StockHistory.Persists L.nodes L'.nodes)
    (hn : n ∈ L.nodes) : n.id ∈ L'.members S ↔ n.id ∈ L.members S := by
  rw [mem_members, mem_members]
  refine Descent.Family.member_extend_iff L.forest.closed (fun a ha b hb => L'.node_ext ha hb)
    (fun m hm => ?_) hn
  obtain ⟨m', hm', hid, hparent, hcreated, horigin⟩ := hkept m hm
  refine ⟨m', hm', hid, hparent, ?_, ?_⟩
  · simp only [PhysicalLineageNode.inheritsAt, hcreated, horigin]
  · rw [hid]

/-- Membership is decided at the node: an anchor, or inherited from the parent. -/
theorem mem_members_iff (hn : n ∈ L.nodes) :
    n.id ∈ L.members S ↔ n.id ∈ S.groups ∨
      (n.inheritsAt S.capturedRevision ∧ ∃ p, n.parent = some p ∧ p ∈ L.members S) := by
  simp only [mem_members]
  exact Descent.Family.member_iff (fun a ha b hb => L.node_ext ha hb) hn

/-- Membership passes from parent to child by the rule `Hereditary` asks for. -/
theorem members_hereditary (h : L.Admits S) :
    StockHistory.Hereditary (· ∈ L.members S) S.capturedRevision L.nodes := by
  intro n hn p hp hlt
  have hanchor : n.id ∉ S.groups := by
    rw [CapturedPhysicalScope.mem_groups]
    rintro ⟨a, ha, hid⟩
    obtain ⟨m, hm, hmid, hcreated⟩ := h.anchor_node a ha
    obtain rfl : m = n := L.node_ext hm hn (hmid.trans hid)
    have := S.wellFormed.created_le a ha
    rw [← hcreated] at this
    omega
  dsimp only
  rw [mem_members_iff hn]
  simp only [hanchor, false_or, hp, Option.some.injEq, exists_eq_left']

/-- At the capture the members are the anchors. -/
theorem mem_members_of_created_le (hn : n ∈ L.nodes)
    (hle : n.createdRevision.value ≤ S.capturedRevision.value) :
    n.id ∈ L.members S ↔ n.id ∈ S.groups := by
  have hedge : ¬ n.inheritsAt S.capturedRevision := fun h => absurd h.1 (by omega)
  rw [mem_members_iff hn]
  simp only [hedge, false_and, or_false]

/-- The packs held by the anchors at the capture are the captured ones. -/
theorem held_capture {selected : List HubRecordId} (h : L.capture selected = .ok S)
    {P : HubRecordId → Prop} [DecidablePred P] (hP : ∀ n ∈ L.nodes, P n.id ↔ n.id ∈ S.groups) :
    StockHistory.held P L.nodes = (S.anchors.map fun a => a.capturedPacks.value).sum := by
  obtain ⟨_, _, _, _, hanchors⟩ := capture_eq_ok h
  -- both lists are in identity order, so the anchors are the selected nodes one by one
  have heq : S.anchors = (L.nodes.filter fun n => P n.id).map fun n =>
      (⟨n.id, n.createdRevision, n.packs⟩ : PhysicalScopeAnchor) := by
    refine eq_of_pairwise_lt PhysicalScopeAnchor.group S.wellFormed.sorted
      (List.pairwise_map.mpr (L.wellFormed.sorted.filter _)) fun a => ?_
    simp only [List.mem_map, List.mem_filter, decide_eq_true_eq]
    constructor
    · intro ha
      obtain ⟨n, hn, _, rfl⟩ := (hanchors a).mp ha
      exact ⟨n, ⟨hn, (hP n hn).mpr (CapturedPhysicalScope.mem_groups.mpr ⟨_, ha, rfl⟩)⟩, rfl⟩
    · rintro ⟨n, ⟨hn, hPn⟩, rfl⟩
      obtain ⟨a, ha, hid⟩ := CapturedPhysicalScope.mem_groups.mp ((hP n hn).mp hPn)
      obtain ⟨m, hm, _, rfl⟩ := (hanchors a).mp ha
      obtain rfl : m = n := L.node_ext hm hn hid
      exact ha
  rw [heq, List.map_map]
  rfl

theorem nodes_perm_of_new (h : new hub trace variant revision nodes = .ok L) :
    L.nodes.Perm nodes := (new_eq_ok.mp h).2.2.2.2 ▸ sortNodes_perm nodes

theorem mem_nodes_of_new (h : new hub trace variant revision nodes = .ok L) :
    n ∈ L.nodes ↔ n ∈ nodes := (nodes_perm_of_new h).mem_iff

theorem persists_of_new (h : new hub trace variant revision nodes = .ok L) :
    StockHistory.Persists nodes L.nodes :=
  fun n hn => ⟨n, (mem_nodes_of_new h).mpr hn, rfl, rfl, rfl, rfl⟩

/-- The lineage of every later history admits the scope. -/
theorem admits_of_run (h : L.Admits S) (hrun : (L.history earlier).Run s)
    (hnew : new L.hub L.trace L.variant s.revision s.nodes = .ok L') : L'.Admits S := by
  obtain ⟨hhub, htrace, hvariant, hrevision, _⟩ := new_eq_ok.mp hnew
  exact h.of_persists hhub htrace hvariant (hrevision ▸ hrun.revision_le)
    (hrun.persists.trans (persists_of_new hnew))

theorem inScope_iff (h : L.Admits S) {id : HubRecordId} : L.InScope S id ↔ id ∈ L.members S :=
  (mem_members_iff_capturedMember h).symm

/-- Groups without packs add nothing to a resolution. -/
theorem resolve_packs (h : L.Admits S) {r : ResolvedPhysicalScope} (hr : L.resolve S = .ok r) :
    r.packs.value = StockHistory.held (L.InScope S) L.nodes := by
  rw [(resolve_eq_ok.mp hr).2.2.2, unionGroups, StockHistory.held, nodePacks, nodePacks]
  simp only [List.mem_singleton, exists_eq_left, ← inScope_iff h, Bool.decide_and]
  induction L.nodes with
  | nil => rfl
  | cons n nodes ih =>
    by_cases hn : L.InScope S n.id
    · by_cases hpos : 0 < n.packs.value
      · simp [hn, hpos, ih]
      · have hzero : n.packs.value = 0 := by omega
        simp [hn, hzero, ih]
    · simp [hn, ih]

end PhysicalLineage

open PhysicalLineage in
/-- **No pack escapes a captured scope or is dragged into it.**  Whatever happened to the
stock since the capture, `new` accepts the nodes reached as soon as they are few enough
and fit the quantity bound; the scope resolves, to the groups with packs that belong;
membership is settled when a group is created, and was the selection at the capture; and
the packs found, with those its groups lost since, are the packs captured with those
found again. -/
theorem captured_scope_keeps_its_packs {L : PhysicalLineage} {selected : List HubRecordId}
    {S : CapturedPhysicalScope} (hcapture : L.capture selected = .ok S)
    {earlier : List Depletion} (hearlier : ∀ d ∈ earlier, L.Records d)
    {s : StockHistory} (hrun : (L.history earlier).Run s) :
    ((∃ L', PhysicalLineage.new L.hub L.trace L.variant s.revision s.nodes = .ok L') ↔
      s.nodes.length ≤ hubLineageGroups ∧ nodePacks s.nodes ≤ hubMaxWholePacks) ∧
    ∀ L', PhysicalLineage.new L.hub L.trace L.variant s.revision s.nodes = .ok L' →
      ∃ r, L'.resolve S = .ok r ∧
        (∀ n, n ∈ r.groups ↔ n ∈ s.nodes ∧ 0 < n.packs.value ∧ L'.InScope S n.id) ∧
        (∀ n ∈ L.nodes, L'.InScope S n.id ↔ n.id ∈ selected) ∧
        (∀ t L'', s.Run t → PhysicalLineage.new L.hub L.trace L.variant t.revision t.nodes =
          .ok L'' → ∀ n ∈ s.nodes, L''.InScope S n.id ↔ L'.InScope S n.id) ∧
        r.packs.value + ((StockHistory.lost (L'.InScope S) S.capturedRevision s.depletions).map
            fun d => d.packs.value).sum =
          (S.anchors.map fun a => a.capturedPacks.value).sum +
            ((StockHistory.lost (L'.InScope S) S.capturedRevision s.depletions).map
              fun d => d.recovered.value).sum := by
  have hadmits := admits_of_capture hcapture
  obtain ⟨_, _, _, hcaptured, hanchors⟩ := capture_eq_ok hcapture
  refine ⟨(hrun.valid (L.history_valid hearlier)).forest.new_accepts_iff L.hub, fun L' hL' => ?_⟩
  have hadmits' := admits_of_run hadmits hrun hL'
  have hkept : StockHistory.Persists L.nodes L'.nodes := hrun.persists.trans (persists_of_new hL')
  have hselected : ∀ n ∈ L.nodes, L'.InScope S n.id ↔ n.id ∈ S.groups := by
    intro n hn
    rw [inScope_iff hadmits', mem_members_of_persists hkept hn,
      mem_members_of_created_le hn (hcaptured ▸ L.wellFormed.created_le n hn)]
  obtain ⟨r, hr⟩ := resolve_succeeds hadmits'
  refine ⟨r, hr, fun n => ?_, fun n hn => ?_, fun t L'' ht hL'' n hn => ?_, ?_⟩
  · rw [mem_resolve_groups hr, mem_nodes_of_new hL', inScope_iff hadmits']
  · rw [hselected n hn, CapturedPhysicalScope.mem_groups]
    constructor
    · rintro ⟨a, ha, hid⟩
      obtain ⟨m, hm, hsel, rfl⟩ := (hanchors a).mp ha
      rwa [← hid]
    · intro hsel
      exact ⟨_, (hanchors _).mpr ⟨n, hn, hsel, rfl⟩, rfl⟩
  · have hmem : n ∈ L'.nodes := (mem_nodes_of_new hL').mpr hn
    have hkept' : StockHistory.Persists L'.nodes L''.nodes := fun m hm =>
      (ht.persists.trans (persists_of_new hL'')) m ((mem_nodes_of_new hL').mp hm)
    rw [inScope_iff hadmits', inScope_iff (admits_of_run hadmits (hrun.trans ht) hL''),
      mem_members_of_persists hkept' hmem]
  · have hP : StockHistory.Hereditary (L'.InScope S) S.capturedRevision s.nodes := by
      refine StockHistory.Hereditary.of_persists (fun n hn p hp hlt => ?_) (persists_of_new hL')
      rw [inScope_iff hadmits', inScope_iff hadmits']
      exact members_hereditary hadmits' n hn p hp hlt
    have haccount := hrun.accounted (hcaptured ▸ Nat.le_refl _) hP
    have hheld := held_capture hcapture hselected
    have hnone : StockHistory.missing (L'.InScope S) S.capturedRevision earlier = 0 :=
      StockHistory.missing_eq_zero fun d hd => by
        obtain ⟨n, _, _, _, hle⟩ := hearlier d hd
        exact hcaptured ▸ hle
    have hlost := StockHistory.sum_lost (L'.InScope S) S.capturedRevision s.depletions
    have hpacks := resolve_packs hadmits' hr
    rw [StockHistory.held_perm (nodes_perm_of_new hL')] at hpacks
    simp only [history, hheld, hnone] at haccount
    omega

/-- The lineage of one group of ten packs. -/
def harvestLineage : PhysicalLineage where
  hub := .of 1
  trace := .of 2
  variant := .of 3
  revision := .of 2
  nodes := [harvest (.of 10)]
  wellFormed := (checkNodes_eq_ok (by simp)).mp (by decide)

/-- Four of the ten packs, separated. -/
def harvestPart : PhysicalLineageNode :=
  (harvest (.of 10)).child (.of 11) (.of 3) (.of 4) none

/-- A departure of five packs, of which `recovered` were found again. -/
def harvestDeparture (recovered : WholePacks) (h : recovered.value ≤ 5) : Depletion :=
  ⟨.of 10, .of 4, .of 5, recovered, h⟩

/-- The separation, the departure of five of the remaining six and the recovery of two. -/
def harvestHistory : StockHistory where
  revision := .of 5
  nodes := [
    (harvest (.of 1)).child (.of 12) (.of 5) (.of 2) (some ⟨.of 9, .of 4⟩),
    harvest (.of 1), harvestPart]
  depletions := [harvestDeparture (.of 2) (by decide)]

theorem harvestHistory_run : (harvestLineage.history []).Run harvestHistory := by
  have separated : StockHistory.Step (harvestLineage.history [])
      ⟨.of 3, [harvestPart, harvest (.of 6)], []⟩ :=
    .single (r := .of 3) (by decide)
      (.separate (n := harvest (.of 10)) (.refl _) (by decide) (by decide)
        (by decide) (by decide) (by rfl) (.refl _))
  have departed : StockHistory.Step
      ⟨.of 3, [harvestPart, harvest (.of 6)], []⟩
      ⟨.of 4, [harvest (.of 1), harvestPart],
        [harvestDeparture WholePacks.zero (by decide)]⟩ :=
    .single (r := .of 4) (by decide)
      (.deplete (n := harvest (.of 6)) (.swap _ _ _) (by decide)
        (by rfl) (by rfl) (by rfl) (by rfl) (.refl _) (.refl _))
  have recovered : StockHistory.Step
      ⟨.of 4, [harvest (.of 1), harvestPart],
        [harvestDeparture WholePacks.zero (by decide)]⟩ harvestHistory :=
    .single (r := .of 5) (by decide)
      (.recover (n := harvest (.of 1)) List.mem_cons_self (by decide) (.refl _)
        (by rfl) (by decide) (by rfl) (by rfl) (by rfl) (by rfl) (.refl _) (.refl _))
  exact .tail (.tail (.single separated) departed) recovered

/-- One, two and four packs are left of the captured ten, of which five departed. -/
theorem captured_scope_keeps_its_packs_harvest :
    ∃ S L' r, harvestLineage.capture [.of 10] = .ok S ∧
      PhysicalLineage.new harvestLineage.hub harvestLineage.trace harvestLineage.variant
        harvestHistory.revision harvestHistory.nodes = .ok L' ∧
      L'.resolve S = .ok r ∧ r.packs.value + 5 = 10 + 2 := by
  have hcapture : ∃ S, harvestLineage.capture [.of 10] = .ok S := ⟨_, rfl⟩
  obtain ⟨S, hS⟩ := hcapture
  obtain ⟨haccepts, hscope⟩ := captured_scope_keeps_its_packs hS (by simp) harvestHistory_run
  obtain ⟨L', hL'⟩ := haccepts.mpr (by decide)
  obtain ⟨r, hr, _, _, _, hpacks⟩ := hscope L' hL'
  cases hL'
  cases hS
  exact ⟨_, _, r, rfl, rfl, hr, hpacks⟩

end HarvestCircle
