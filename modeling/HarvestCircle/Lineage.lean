import Mathlib.Tactic.Linarith
import HarvestCircle.Reference
import HarvestCircle.Descent

/-! # Physical lineage

The physical groups one population was ever divided into, as a forest of nodes:
a group separated from another has it as parent, and stock found again after a
recorded debit hangs from the debited group with the debit as its recovery
origin.  Empty ancestors stay, because older captured scopes are resolved
through them.

A `PhysicalLineage` can only be built by `new`, so the structure carries what
`new` checks (`WellFormedNodes`), and `new_eq_ok` says it is all that `new` checks.
The operations follow the source: `capture` freezes a selection of present
groups, `resolveUnion` finds the groups that make up captured scopes today, and
`capturedMember` answers the same question for one group by walking its ancestors.
-/
namespace HarvestCircle
open Checked

def hubLineageGroups : Nat := 256
def hubPhysicalScopes : Nat := 256

inductive PhysicalScopeError where
  | capacity
  | invalidLineage
  | invalidSelection
  | historicalGap
  | quantityOverflow
  deriving DecidableEq, Repr

/-- The debit a found group was recovered from. -/
structure PhysicalRecoveryOrigin where
  debitOperation : HubRecordId
  debitRevision : HubRevision
  deriving DecidableEq, Repr

/-- A group with what it came from. -/
structure PhysicalLineageNode where
  id : HubRecordId
  parent : Option HubRecordId
  trace : HubRecordId
  variant : HubRecordId
  createdRevision : HubRevision
  packs : WholePacks
  recovery : Option PhysicalRecoveryOrigin
  deriving DecidableEq, Repr

namespace PhysicalLineageNode

/-- Whether a group passes membership of a scope captured at `captured` on from
its parent: it was separated later, and not recovered from a debit already
recorded then. -/
def inheritsAt (node : PhysicalLineageNode) (captured : HubRevision) : Prop :=
  node.createdRevision.value > captured.value ∧
    ∀ origin ∈ node.recovery, captured.value < origin.debitRevision.value

instance (node : PhysicalLineageNode) (captured : HubRevision) :
    Decidable (node.inheritsAt captured) :=
  inferInstanceAs (Decidable (_ ∧ _))

end PhysicalLineageNode

/-- Nodes in the order of their identity bytes. -/
def sortNodes (nodes : List PhysicalLineageNode) : List PhysicalLineageNode :=
  nodes.insertionSort fun a b => a.id ≤ b.id

/-- Binary search by identity among nodes sorted by it. -/
def findNode (nodes : List PhysicalLineageNode) (id : HubRecordId) : Option PhysicalLineageNode :=
  nodes.find? fun node => node.id = id

/-- The total over all nodes. -/
def nodePacks (nodes : List PhysicalLineageNode) : Nat :=
  (nodes.map fun node => node.packs.value).sum

/-! ## Construction -/

/-- What one node must satisfy among the others. -/
def checkNode (trace variant : HubRecordId) (revision : HubRevision)
    (nodes : List PhysicalLineageNode) (node : PhysicalLineageNode) :
    Except PhysicalScopeError Unit := do
  refuse (node.trace ≠ trace ∨ node.variant ≠ variant ∨
    node.createdRevision.value > revision.value) .invalidLineage
  match node.parent with
  | some id => do
    let parent ← okOr (findNode nodes id) .invalidLineage
    refuse (parent.createdRevision.value ≥ node.createdRevision.value) .invalidLineage
    refuse (∃ origin ∈ node.recovery,
      origin.debitRevision.value ≤ parent.createdRevision.value ∨
        origin.debitRevision.value ≥ node.createdRevision.value) .invalidLineage
  | none => refuse (node.recovery.isSome = true) .invalidLineage

/-- The checks of `PhysicalLineage::new` on nodes already sorted. -/
def checkNodes (trace variant : HubRecordId) (revision : HubRevision)
    (nodes : List PhysicalLineageNode) : Except PhysicalScopeError Unit := do
  refuse (nodes = [] ∨ nodes.length > hubLineageGroups) .capacity
  refuse (¬ nodes.IsChain (fun a b => a.id ≠ b.id) ∨
    nodes.countP (fun node => node.parent.isNone) ≠ 1) .invalidLineage
  let _ ← nodes.foldlM (fun total node => do
    checkNode trace variant revision nodes node
    mapErr (fun _ => PhysicalScopeError.quantityOverflow) (total.checkedAdd node.packs))
    WholePacks.zero
  return ()

/-- The facts `checkNodes` establishes about sorted nodes. -/
structure WellFormedNodes (trace variant : HubRecordId) (revision : HubRevision)
    (nodes : List PhysicalLineageNode) : Prop where
  nonempty : nodes ≠ []
  length_le : nodes.length ≤ hubLineageGroups
  sorted : nodes.Pairwise fun a b => a.id < b.id
  one_root : nodes.countP (fun node => node.parent.isNone) = 1
  trace_eq : ∀ n ∈ nodes, n.trace = trace
  variant_eq : ∀ n ∈ nodes, n.variant = variant
  created_le : ∀ n ∈ nodes, n.createdRevision.value ≤ revision.value
  parent_older : ∀ n ∈ nodes, ∀ p, n.parent = some p → ∃ m ∈ nodes, m.id = p ∧
    m.createdRevision.value < n.createdRevision.value ∧
    ∀ origin ∈ n.recovery, m.createdRevision.value < origin.debitRevision.value ∧
      origin.debitRevision.value < n.createdRevision.value
  root_not_recovered : ∀ n ∈ nodes, n.parent = none → n.recovery = none
  packs_le : nodePacks nodes ≤ hubMaxWholePacks

theorem sortNodes_perm (nodes : List PhysicalLineageNode) : (sortNodes nodes).Perm nodes :=
  List.perm_insertionSort _ nodes

theorem pairwise_sortNodes (nodes : List PhysicalLineageNode) :
    (sortNodes nodes).Pairwise fun a b => a.id ≤ b.id :=
  List.pairwise_insertionSort _ nodes

variable {nodes : List PhysicalLineageNode}

theorem sortNodes_eq_self (h : nodes.Pairwise fun a b => a.id ≤ b.id) : sortNodes nodes = nodes :=
  List.Pairwise.insertionSort_eq h

variable {n : PhysicalLineageNode} {revision : HubRevision} {trace variant : HubRecordId}

/-- Among nodes with unique identities, a lookup finds exactly the node. -/
theorem findNode_eq_some (hsorted : nodes.Pairwise fun a b => a.id < b.id) {id : HubRecordId} :
    findNode nodes id = some n ↔ n ∈ nodes ∧ n.id = id := by
  constructor
  · intro h
    exact ⟨List.mem_of_find?_eq_some h, by simpa using List.find?_some h⟩
  · rintro ⟨hn, rfl⟩
    unfold findNode
    induction nodes with
    | nil => cases hn
    | cons a nodes ih =>
      obtain ⟨hfirst, hrest⟩ := List.pairwise_cons.mp hsorted
      rcases List.mem_cons.mp hn with rfl | hn
      · simp
      · rw [List.find?_cons_of_neg (by simpa using (hfirst n hn).ne)]
        exact ih hrest hn

theorem node_ext_of_id (hsorted : nodes.Pairwise fun a b => a.id < b.id) {a b : PhysicalLineageNode}
    (ha : a ∈ nodes) (hb : b ∈ nodes) (h : a.id = b.id) : a = b :=
  Option.some.inj (((findNode_eq_some hsorted).mpr ⟨ha, h⟩).symm.trans
    ((findNode_eq_some hsorted).mpr ⟨hb, rfl⟩))

theorem checkNode_eq_ok (hsorted : nodes.Pairwise fun a b => a.id < b.id) :
    checkNode trace variant revision nodes n = .ok () ↔
      n.trace = trace ∧ n.variant = variant ∧ n.createdRevision.value ≤ revision.value ∧
      (∀ p, n.parent = some p → ∃ m ∈ nodes, m.id = p ∧
        m.createdRevision.value < n.createdRevision.value ∧
        ∀ origin ∈ n.recovery, m.createdRevision.value < origin.debitRevision.value ∧
          origin.debitRevision.value < n.createdRevision.value) ∧
      (n.parent = none → n.recovery = none) := by
  simp only [checkNode, accepted, passed, and_assoc]
  cases hp : n.parent with
  | none => simp
  | some p =>
    simp only [accepted, findNode_eq_some hsorted, passed, not_exists, not_and, Option.some.injEq,
      forall_eq', reduceCtorEq, false_implies, and_true, and_assoc]

/-- On sorted nodes the checks pass exactly when the nodes are well formed. -/
theorem checkNodes_eq_ok (hsorted : nodes.Pairwise fun a b => a.id ≤ b.id) :
    checkNodes trace variant revision nodes = .ok () ↔
      WellFormedNodes trace variant revision nodes := by
  simp only [checkNodes, accepted, and_true, passed, WholePacks.foldlM_total, WholePacks.zero_value,
    Nat.zero_add]
  constructor
  · rintro ⟨⟨hne, hlen⟩, ⟨hchain, hroot⟩, total, hcheck, htotal⟩
    have hlt := pairwise_lt_of_isChain_ne PhysicalLineageNode.id hsorted hchain
    have hnode := fun n hn => (checkNode_eq_ok hlt).mp (hcheck n hn)
    have htotal_le := total.bound
    exact {
      nonempty := hne
      length_le := hlen
      sorted := hlt
      one_root := hroot
      trace_eq := fun n hn => (hnode n hn).1
      variant_eq := fun n hn => (hnode n hn).2.1
      created_le := fun n hn => (hnode n hn).2.2.1
      parent_older := fun n hn => (hnode n hn).2.2.2.1
      root_not_recovered := fun n hn => (hnode n hn).2.2.2.2
      packs_le := by rw [nodePacks, ← htotal]; exact htotal_le }
  · intro h
    refine ⟨⟨h.nonempty, h.length_le⟩, ⟨(h.sorted.imp fun hlt => hlt.ne).isChain, h.one_root⟩,
      ⟨nodePacks nodes, h.packs_le⟩, ?_, rfl⟩
    intro n hn
    exact (checkNode_eq_ok h.sorted).mpr ⟨h.trace_eq n hn, h.variant_eq n hn, h.created_le n hn,
      h.parent_older n hn, h.root_not_recovered n hn⟩

/-- A lineage accepted by `new`. -/
structure PhysicalLineage where
  hub : HubId
  trace : HubRecordId
  variant : HubRecordId
  revision : HubRevision
  nodes : List PhysicalLineageNode
  wellFormed : WellFormedNodes trace variant revision nodes
  deriving DecidableEq

namespace PhysicalLineage

def new (hub : HubId) (trace variant : HubRecordId) (revision : HubRevision)
    (nodes : List PhysicalLineageNode) : Except PhysicalScopeError PhysicalLineage := do
  let checked ← attach (checkNodes trace variant revision (sortNodes nodes))
  return {
    hub, trace, variant, revision
    nodes := sortNodes nodes
    wellFormed := (checkNodes_eq_ok (pairwise_sortNodes nodes)).mp checked.2 }

variable {L : PhysicalLineage}

/-- `new` accepts exactly the nodes that are well formed once sorted. -/
theorem new_eq_ok {hub : HubId} :
    new hub trace variant revision nodes = .ok L ↔
      L.hub = hub ∧ L.trace = trace ∧ L.variant = variant ∧ L.revision = revision ∧
        L.nodes = sortNodes nodes := by
  simp only [new, attach_bind_eq_ok, pure_eq_ok]
  constructor
  · rintro ⟨_, _, rfl⟩
    exact ⟨rfl, rfl, rfl, rfl, rfl⟩
  · obtain ⟨_, _, _, _, _, hwf⟩ := L
    rintro ⟨rfl, rfl, rfl, rfl, rfl⟩
    exact ⟨(), (checkNodes_eq_ok (pairwise_sortNodes nodes)).mpr hwf, rfl⟩

theorem new_succeeds {hub : HubId} (h : WellFormedNodes trace variant revision (sortNodes nodes)) :
    ∃ L, new hub trace variant revision nodes = .ok L :=
  ⟨⟨hub, trace, variant, revision, sortNodes nodes, h⟩, new_eq_ok.mpr ⟨rfl, rfl, rfl, rfl, rfl⟩⟩

/-- Every lineage is what `new` makes of its own nodes. -/
theorem new_self (L : PhysicalLineage) :
    new L.hub L.trace L.variant L.revision L.nodes = .ok L :=
  new_eq_ok.mpr ⟨rfl, rfl, rfl, rfl,
    (sortNodes_eq_self (L.wellFormed.sorted.imp fun h => h.le)).symm⟩

def node (L : PhysicalLineage) (id : HubRecordId) : Option PhysicalLineageNode :=
  findNode L.nodes id

theorem node_eq_some {id : HubRecordId} :
    L.node id = some n ↔ n ∈ L.nodes ∧ n.id = id := findNode_eq_some L.wellFormed.sorted

theorem node_ext {a b : PhysicalLineageNode} (ha : a ∈ L.nodes) (hb : b ∈ L.nodes)
    (h : a.id = b.id) : a = b := node_ext_of_id L.wellFormed.sorted ha hb h

end PhysicalLineage

end HarvestCircle
