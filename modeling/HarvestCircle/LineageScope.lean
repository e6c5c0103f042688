import Mathlib.Algebra.Order.BigOperators.Group.List
import Mathlib.Data.Prod.Lex
import Mathlib.Data.Finset.Card
import HarvestCircle.Lineage

/-! # Captured scopes and what they resolve to

A scope is captured once, as a list of anchors, and resolved against every later
lineage.  A group belongs to it when it is an anchor, or was separated after the
capture from a group that belongs; a group found again belongs only if the debit
it came from was recorded after the capture.

`resolveUnion` computes this in one pass over the nodes in creation order, and
`capturedMember` by walking up from one group.  Both are the membership of
`Descent` (`mem_members`, `capturedMember_iff`), so all that follows about scopes
is said with `members`; `resolveUnion_eq_ok` reads a resolution as a filter of the
lineage.
-/
namespace HarvestCircle
open Checked

/-- A group that was captured, with its packs then. -/
structure PhysicalScopeAnchor where
  group : HubRecordId
  createdRevision : HubRevision
  capturedPacks : WholePacks
  deriving DecidableEq, Repr

/-- What both ways of building a scope check of its anchors. -/
structure WellFormedAnchors (captured : HubRevision) (anchors : List PhysicalScopeAnchor) :
    Prop where
  nonempty : anchors ≠ []
  length_le : anchors.length ≤ hubLineageGroups
  sorted : anchors.Pairwise fun a b => a.group < b.group
  created_le : ∀ a ∈ anchors, a.createdRevision.value ≤ captured.value
  positive : ∀ a ∈ anchors, 0 < a.capturedPacks.value

/-- A scope built by `capture` or `restoreScope`. -/
structure CapturedPhysicalScope where
  hub : HubId
  trace : HubRecordId
  variant : HubRecordId
  capturedRevision : HubRevision
  anchors : List PhysicalScopeAnchor
  wellFormed : WellFormedAnchors capturedRevision anchors
  deriving DecidableEq

/-- The groups that captured stock is in now. -/
structure ResolvedPhysicalScope where
  revision : HubRevision
  groups : List PhysicalLineageNode
  packs : WholePacks
  deriving DecidableEq, Repr

/-- The groups named by the anchors. -/
def CapturedPhysicalScope.groups (scope : CapturedPhysicalScope) : Finset HubRecordId :=
  (scope.anchors.map PhysicalScopeAnchor.group).toFinset

theorem CapturedPhysicalScope.mem_groups {scope : CapturedPhysicalScope} {id : HubRecordId} :
    id ∈ scope.groups ↔ ∃ a ∈ scope.anchors, a.group = id := by
  simp [groups]

/-- A loop that puts every key into a set. -/
theorem mem_foldl_insert {α κ : Type} [DecidableEq κ] {key : α → κ} {l : List α} {s : Finset κ}
    {k : κ} : k ∈ l.foldl (fun t a => insert (key a) t) s ↔ k ∈ s ∨ ∃ a ∈ l, key a = k := by
  induction l generalizing s with
  | nil => simp
  | cons a l ih =>
    simp only [List.foldl_cons, ih, Finset.mem_insert, List.mem_cons, exists_eq_or_imp,
      eq_comm (a := key a), or_assoc, or_left_comm]

def sortAnchors (anchors : List PhysicalScopeAnchor) : List PhysicalScopeAnchor :=
  anchors.insertionSort fun a b => a.group ≤ b.group

variable {anchors : List PhysicalScopeAnchor}

theorem mem_sortAnchors {a : PhysicalScopeAnchor} :
    a ∈ sortAnchors anchors ↔ a ∈ anchors := (List.perm_insertionSort _ anchors).mem_iff

theorem sortAnchors_sorted (h : (sortAnchors anchors).IsChain fun a b => a.group ≠ b.group) :
    (sortAnchors anchors).Pairwise fun a b => a.group < b.group :=
  pairwise_lt_of_isChain_ne PhysicalScopeAnchor.group (List.pairwise_insertionSort _ anchors) h

/-- Nodes by creation revision, then identity. -/
def chronological (nodes : List PhysicalLineageNode) : List PhysicalLineageNode :=
  nodes.insertionSort fun a b =>
    toLex (a.createdRevision.value, a.id) ≤ toLex (b.createdRevision.value, b.id)

/-- The separations of a lineage, as a forest. -/
def lineageFamily : Descent.Family PhysicalLineageNode HubRecordId where
  key := PhysicalLineageNode.id
  parent := PhysicalLineageNode.parent

namespace PhysicalLineage

/-! ## Capturing -/

def captureAnchor (L : PhysicalLineage) (id : HubRecordId) :
    Except PhysicalScopeError PhysicalScopeAnchor := do
  let node ← okOr (L.node id) .invalidSelection
  refuse (node.packs.value = 0) .invalidSelection
  return { group := id, createdRevision := node.createdRevision, capturedPacks := node.packs }

def captureAnchors (L : PhysicalLineage) (selected : List HubRecordId) :
    Except PhysicalScopeError (List PhysicalScopeAnchor) := do
  refuse (selected = [] ∨ selected.length > hubLineageGroups) .invalidSelection
  let anchors ← selected.mapM L.captureAnchor
  refuse (¬ (sortAnchors anchors).IsChain fun a b => a.group ≠ b.group) .invalidSelection
  return sortAnchors anchors

variable {L : PhysicalLineage} {anchors : List PhysicalScopeAnchor}
  {S scope : CapturedPhysicalScope} {n : PhysicalLineageNode} {P : HubRecordId → Prop}
  {captured : HubRevision} {scopes : List CapturedPhysicalScope} {r : ResolvedPhysicalScope}

/-- The anchors captured from a selection are its groups, as they stand. -/
theorem captureAnchors_eq_ok {selected : List HubRecordId}
    (h : L.captureAnchors selected = .ok anchors) :
    WellFormedAnchors L.revision anchors ∧
    ∀ a, a ∈ anchors ↔ ∃ n ∈ L.nodes, n.id ∈ selected ∧
      a = { group := n.id, createdRevision := n.createdRevision, capturedPacks := n.packs } := by
  simp only [captureAnchors, accepted, passed] at h
  obtain ⟨⟨hne, hlen⟩, found, hfound, hchain, rfl⟩ := h
  have hanchor : ∀ id a, L.captureAnchor id = .ok a ↔ ∃ n ∈ L.nodes, n.id = id ∧
      0 < n.packs.value ∧ a = ⟨n.id, n.createdRevision, n.packs⟩ := by
    intro id a
    simp only [captureAnchor, accepted, node_eq_some, ← Nat.pos_iff_ne_zero, and_assoc]
    constructor
    · rintro ⟨n, hn, rfl, hpos, rfl⟩
      exact ⟨n, hn, rfl, hpos, rfl⟩
    · rintro ⟨n, hn, rfl, hpos, rfl⟩
      exact ⟨n, hn, rfl, hpos, rfl⟩
  have hmem : ∀ a, a ∈ sortAnchors found ↔ ∃ n ∈ L.nodes, n.id ∈ selected ∧
      0 < n.packs.value ∧ a = ⟨n.id, n.createdRevision, n.packs⟩ := by
    intro a
    rw [mem_sortAnchors, mem_of_mapM hfound]
    simp only [hanchor]
    constructor
    · rintro ⟨_, hid, n, hn, rfl, hpos, rfl⟩
      exact ⟨n, hn, hid, hpos, rfl⟩
    · rintro ⟨n, hn, hid, hpos, rfl⟩
      exact ⟨n.id, hid, n, hn, rfl, hpos, rfl⟩
  have hpos : ∀ n ∈ L.nodes, n.id ∈ selected → 0 < n.packs.value := by
    intro n hn hid
    obtain ⟨a, _, ha⟩ := exists_of_mapM hfound hid
    obtain ⟨m, hm, hmid, hpos, _⟩ := (hanchor n.id a).mp ha
    rwa [L.node_ext hn hm hmid.symm]
  have hlength : (sortAnchors found).length = selected.length :=
    (List.perm_insertionSort _ found).length_eq.trans (length_of_mapM hfound)
  refine ⟨?_, fun a => (hmem a).trans ?_⟩
  · exact {
      nonempty := fun h => hne (List.eq_nil_of_length_eq_zero (by rw [← hlength, h]; rfl))
      length_le := hlength ▸ hlen
      sorted := sortAnchors_sorted hchain
      created_le := by
        intro a ha
        obtain ⟨n, hn, _, _, rfl⟩ := (hmem a).mp ha
        exact L.wellFormed.created_le n hn
      positive := by
        intro a ha
        obtain ⟨n, _, _, hpos, rfl⟩ := (hmem a).mp ha
        exact hpos }
  · constructor
    · rintro ⟨n, hn, hid, _, rfl⟩
      exact ⟨n, hn, hid, rfl⟩
    · rintro ⟨n, hn, hid, rfl⟩
      exact ⟨n, hn, hid, hpos n hn hid, rfl⟩

def capture (L : PhysicalLineage) (selected : List HubRecordId) :
    Except PhysicalScopeError CapturedPhysicalScope := do
  let anchors ← attach (L.captureAnchors selected)
  return {
    hub := L.hub, trace := L.trace, variant := L.variant, capturedRevision := L.revision
    anchors := anchors.1
    wellFormed := (captureAnchors_eq_ok anchors.2).1 }

theorem capture_eq_ok {selected : List HubRecordId} (h : L.capture selected = .ok S) :
    S.hub = L.hub ∧ S.trace = L.trace ∧ S.variant = L.variant ∧ S.capturedRevision = L.revision ∧
    ∀ a, a ∈ S.anchors ↔ ∃ n ∈ L.nodes, n.id ∈ selected ∧
      a = { group := n.id, createdRevision := n.createdRevision, capturedPacks := n.packs } := by
  simp only [capture, attach_bind_eq_ok, pure_eq_ok] at h
  obtain ⟨anchors, hanchors, rfl⟩ := h
  exact ⟨rfl, rfl, rfl, rfl, (captureAnchors_eq_ok hanchors).2⟩

/-! ## Resolving -/

/-- An anchor still names the group it was captured from. -/
def checkAnchor (L : PhysicalLineage) (anchor : PhysicalScopeAnchor) :
    Except PhysicalScopeError Unit := do
  let node ← okOr (L.node anchor.group) .historicalGap
  refuse (node.createdRevision ≠ anchor.createdRevision) .historicalGap

/-- One node of the pass: it is included as an anchor or through its parent, and
selected when it still holds packs. -/
def includeNode (captured : HubRevision) (anchors : Finset HubRecordId)
    (state : Finset HubRecordId × Std.TreeMap HubRecordId PhysicalLineageNode)
    (node : PhysicalLineageNode) :
    Finset HubRecordId × Std.TreeMap HubRecordId PhysicalLineageNode :=
  let (included, selected) := state
  if node.id ∈ anchors ∨ (node.inheritsAt captured ∧ ∃ parent ∈ node.parent, parent ∈ included) then
    (insert node.id included,
      if node.packs.value > 0 then selected.insert node.id node else selected)
  else state

def resolveScope (L : PhysicalLineage)
    (selected : Std.TreeMap HubRecordId PhysicalLineageNode) (scope : CapturedPhysicalScope) :
    Except PhysicalScopeError (Std.TreeMap HubRecordId PhysicalLineageNode) := do
  refuse (scope.hub ≠ L.hub ∨ scope.trace ≠ L.trace ∨ scope.variant ≠ L.variant) .invalidSelection
  refuse (scope.capturedRevision.value > L.revision.value) .historicalGap
  let anchors ← scope.anchors.foldlM (fun anchors anchor => do
    L.checkAnchor anchor
    return insert anchor.group anchors) ∅
  return ((chronological L.nodes).foldl (includeNode scope.capturedRevision anchors)
    (∅, selected)).2

def resolveUnion (L : PhysicalLineage) (scopes : List CapturedPhysicalScope) :
    Except PhysicalScopeError ResolvedPhysicalScope := do
  refuse (scopes.length > hubPhysicalScopes) .capacity
  let selected ← scopes.foldlM L.resolveScope ∅
  let groups := values selected
  let packs ← groups.foldlM (fun total node =>
    mapErr (fun _ => PhysicalScopeError.quantityOverflow) (total.checkedAdd node.packs))
    WholePacks.zero
  return { revision := L.revision, groups, packs }

def resolve (L : PhysicalLineage) (scope : CapturedPhysicalScope) :
    Except PhysicalScopeError ResolvedPhysicalScope :=
  L.resolveUnion [scope]

/-- The groups of a scope in this lineage, depleted ones included. -/
def members (L : PhysicalLineage) (scope : CapturedPhysicalScope) : Finset HubRecordId :=
  lineageFamily.sweep (PhysicalLineageNode.inheritsAt · scope.capturedRevision)
    (fun node => node.id ∈ scope.groups) (chronological L.nodes)

/-- The scope was taken from this lineage, at a revision it has reached. -/
structure Admits (L : PhysicalLineage) (scope : CapturedPhysicalScope) : Prop where
  hub_eq : scope.hub = L.hub
  trace_eq : scope.trace = L.trace
  variant_eq : scope.variant = L.variant
  captured_le : scope.capturedRevision.value ≤ L.revision.value
  anchor_node : ∀ a ∈ scope.anchors, ∃ n ∈ L.nodes, n.id = a.group ∧
    n.createdRevision = a.createdRevision

theorem chronological_perm (nodes : List PhysicalLineageNode) :
    (chronological nodes).Perm nodes := List.perm_insertionSort _ nodes

theorem mem_chronological {nodes : List PhysicalLineageNode} :
    n ∈ chronological nodes ↔ n ∈ nodes := (chronological_perm nodes).mem_iff

variable {a : PhysicalScopeAnchor} {id : HubRecordId}

theorem checkAnchor_eq_ok {u : Unit} :
    L.checkAnchor a = .ok u ↔ ∃ n ∈ L.nodes, n.id = a.group ∧
      n.createdRevision = a.createdRevision := by
  simp only [checkAnchor, accepted, node_eq_some, passed, and_assoc]

/-- Parents are created before their children, so creation order is parent-first. -/
theorem chronological_parentFirst (L : PhysicalLineage) :
    lineageFamily.ParentFirst (chronological L.nodes) := by
  intro pre n post hl p hp m hm hkey
  have hsorted := List.pairwise_insertionSort (fun a b : PhysicalLineageNode =>
    toLex (a.createdRevision.value, a.id) ≤ toLex (b.createdRevision.value, b.id)) L.nodes
  change (chronological L.nodes).Pairwise _ at hsorted
  have hin : ∀ x ∈ n :: post, x ∈ L.nodes := fun x hx =>
    mem_chronological.mp (hl ▸ List.mem_append_right pre hx)
  obtain ⟨q, hq, hqid, hlt, _⟩ := L.wellFormed.parent_older n (hin n List.mem_cons_self) p hp
  obtain rfl : m = q := L.node_ext (hin m hm) hq (hkey.trans hqid.symm)
  have hle : n.createdRevision.value ≤ m.createdRevision.value := by
    rcases List.mem_cons.mp hm with rfl | hm
    · exact Nat.le_refl _
    · rw [hl] at hsorted
      have h := (List.pairwise_cons.mp (List.pairwise_append.mp hsorted).2.1).1 m hm
      rcases Prod.Lex.le_iff.mp h with h | h
      · exact h.le
      · exact h.1.le
  omega

/-- A group belongs to a scope through a chain of separations up to an anchor. -/
abbrev Belongs (L : PhysicalLineage) (scope : CapturedPhysicalScope) (id : HubRecordId) : Prop :=
  lineageFamily.Member (PhysicalLineageNode.inheritsAt · scope.capturedRevision)
    (fun node => node.id ∈ scope.groups) L.nodes id

theorem mem_members : id ∈ L.members scope ↔ L.Belongs scope id := by
  rw [members, Descent.Family.mem_sweep L.chronological_parentFirst]
  constructor
  · exact .mono fun n hn => ⟨n, mem_chronological.mp hn, rfl, rfl, fun h => h, fun h => h⟩
  · exact .mono fun n hn => ⟨n, mem_chronological.mpr hn, rfl, rfl, fun h => h, fun h => h⟩

/-- The map holds the nodes with packs whose identity satisfies `P`. -/
def Selects (L : PhysicalLineage) (selected : Std.TreeMap HubRecordId PhysicalLineageNode)
    (P : HubRecordId → Prop) : Prop :=
  ∀ id n, selected[id]? = some n ↔ n ∈ L.nodes ∧ n.id = id ∧ 0 < n.packs.value ∧ P id

theorem selects_empty (L : PhysicalLineage) : L.Selects ∅ fun _ => False := by
  intro id n
  simp

theorem Selects.congr {selected : Std.TreeMap HubRecordId PhysicalLineageNode}
    {Q : HubRecordId → Prop} (h : L.Selects selected P) (hPQ : ∀ id, P id ↔ Q id) :
    L.Selects selected Q := by
  intro id n
  rw [h id n, hPQ id]

theorem selects_insert {selected : Std.TreeMap HubRecordId PhysicalLineageNode}
    (h : L.Selects selected P) {node : PhysicalLineageNode} (hnode : node ∈ L.nodes) :
    L.Selects (if node.packs.value > 0 then selected.insert node.id node else selected)
      fun id => P id ∨ id = node.id := by
  intro id n
  by_cases hid : node.id = id
  · subst hid
    split
    · rename_i hpos
      simp only [Std.TreeMap.getElem?_insert_self, Option.some.injEq, or_true, and_true]
      constructor
      · rintro rfl
        exact ⟨hnode, rfl, hpos⟩
      · rintro ⟨hn, hid, _⟩
        exact L.node_ext hnode hn hid.symm
    · rename_i hzero
      rw [h node.id n]
      constructor
      · rintro ⟨hn, hid, hpos, hP⟩
        exact ⟨hn, hid, hpos, .inl hP⟩
      · rintro ⟨hn, hid, hpos, _⟩
        exact absurd (L.node_ext hn hnode hid ▸ hpos) hzero
  · have hlookup : (if node.packs.value > 0 then selected.insert node.id node
        else selected)[id]? = selected[id]? := by
      split
      · rw [Std.TreeMap.getElem?_insert, if_neg (by simpa using hid)]
      · rfl
    rw [hlookup, h id n]
    simp only [Ne.symm hid, or_false]

/-- The pass includes what `Descent.Family.sweep` collects and selects its nodes with packs. -/
theorem foldl_includeNode {anchors : Finset HubRecordId}
    {selected : Std.TreeMap HubRecordId PhysicalLineageNode} (hselected : L.Selects selected P)
    (l : List PhysicalLineageNode) (hl : ∀ n ∈ l, n ∈ L.nodes) :
    let swept := lineageFamily.sweep (PhysicalLineageNode.inheritsAt · captured)
      (fun node => node.id ∈ anchors) l
    (l.foldl (includeNode captured anchors) (∅, selected)).1 = swept ∧
    L.Selects (l.foldl (includeNode captured anchors) (∅, selected)).2
      fun id => P id ∨ id ∈ swept := by
  dsimp only
  induction l using List.reverseRecOn with
  | nil => exact ⟨rfl, hselected.congr fun id => by simp [Descent.Family.sweep]⟩
  | append_singleton l n ih =>
    obtain ⟨hincluded, hsel⟩ := ih fun m hm => hl m (List.mem_append_left _ hm)
    have hn : n ∈ L.nodes := hl n (by simp)
    rw [List.foldl_concat, Descent.Family.sweep_concat]
    generalize l.foldl (includeNode captured anchors) (∅, selected) = state at hincluded hsel
    obtain ⟨included, sel⟩ := state
    dsimp only at hincluded hsel
    rw [← hincluded] at hsel ⊢
    by_cases henters : lineageFamily.Enters (PhysicalLineageNode.inheritsAt · captured)
        (fun node => node.id ∈ anchors) included n
    · have hstep : includeNode captured anchors (_, sel) n = (insert n.id _, _) := if_pos henters
      rw [hstep, Descent.Family.sweepStep, if_pos henters]
      refine ⟨rfl, (selects_insert hsel hn).congr fun id => ?_⟩
      rw [Finset.mem_insert, or_assoc, or_comm (a := id = lineageFamily.key n)]
      rfl
    · have hstep : includeNode captured anchors (_, sel) n = (_, sel) := if_neg henters
      rw [hstep, Descent.Family.sweepStep, if_neg henters]
      exact ⟨rfl, hsel⟩

theorem resolveScope_eq_ok {selected selected' : Std.TreeMap HubRecordId PhysicalLineageNode}
    (hselected : L.Selects selected P) (h : L.resolveScope selected scope = .ok selected') :
    L.Admits scope ∧ L.Selects selected' fun id => P id ∨ id ∈ L.members scope := by
  simp only [resolveScope, accepted, passed, foldlM_check, checkAnchor_eq_ok] at h
  obtain ⟨⟨hhub, htrace, hvariant⟩, hcaptured, anchors, ⟨hanchors, hgroups⟩, rfl⟩ := h
  obtain rfl : scope.groups = anchors := by
    rw [← hgroups]
    ext id
    simp [mem_foldl_insert, CapturedPhysicalScope.mem_groups]
  exact ⟨⟨hhub, htrace, hvariant, hcaptured, hanchors⟩,
    (foldl_includeNode hselected _ fun n hn => mem_chronological.mp hn).2⟩

theorem resolveScope_succeeds (h : L.Admits scope)
    (selected : Std.TreeMap HubRecordId PhysicalLineageNode) :
    ∃ selected', L.resolveScope selected scope = .ok selected' := by
  simp only [resolveScope, accepted, passed, foldlM_check, checkAnchor_eq_ok]
  exact ⟨_, ⟨h.hub_eq, h.trace_eq, h.variant_eq⟩, h.captured_le, _, ⟨h.anchor_node, rfl⟩, rfl⟩

/-- The groups a union of scopes selects: the nodes with packs that belong to one of them. -/
def unionGroups (L : PhysicalLineage) (scopes : List CapturedPhysicalScope) :
    List PhysicalLineageNode :=
  L.nodes.filter fun n => 0 < n.packs.value ∧ ∃ scope ∈ scopes, n.id ∈ L.members scope

theorem unionGroups_packs_le (L : PhysicalLineage) (scopes : List CapturedPhysicalScope) :
    nodePacks (L.unionGroups scopes) ≤ hubMaxWholePacks :=
  Nat.le_trans (List.Sublist.sum_le_sum (List.filter_sublist.map _) (by simp))
    L.wellFormed.packs_le

/-- The selected map read back in key order is the filtered lineage. -/
theorem values_of_selects {selected : Std.TreeMap HubRecordId PhysicalLineageNode}
    (h : L.Selects selected fun id => ∃ scope ∈ scopes, id ∈ L.members scope) :
    values selected = L.unionGroups scopes := by
  have hkey : ∀ id (n : PhysicalLineageNode), selected[id]? = some n → n.id = id := fun id n hget =>
    ((h id n).mp hget).2.1
  refine eq_of_pairwise_lt PhysicalLineageNode.id (values_sorted hkey)
    (L.wellFormed.sorted.filter _) fun n => ?_
  rw [mem_values hkey, h, unionGroups, List.mem_filter, decide_eq_true_eq]
  exact ⟨fun ⟨hn, _, hpos, hP⟩ => ⟨hn, hpos, hP⟩, fun ⟨hn, hpos, hP⟩ => ⟨hn, rfl, hpos, hP⟩⟩

/-- The scopes are resolved one after another into one map. -/
theorem foldlM_resolveScope :
    (∀ selected, scopes.foldlM L.resolveScope ∅ = .ok selected →
      (∀ scope ∈ scopes, L.Admits scope) ∧
      L.Selects selected fun id => ∃ scope ∈ scopes, id ∈ L.members scope) ∧
    ((∀ scope ∈ scopes, L.Admits scope) →
      ∃ selected, scopes.foldlM L.resolveScope ∅ = .ok selected) := by
  constructor
  · intro selected hrun
    refine foldlM_invariant (fun done selected => (∀ scope ∈ done, L.Admits scope) ∧
      L.Selects selected fun id => ∃ scope ∈ done, id ∈ L.members scope)
      ⟨by simp, L.selects_empty.congr (by simp)⟩ ?_ hrun
    rintro done scope rest t t' - ⟨hadmits, hselects⟩ hstep
    obtain ⟨hscope, hselects'⟩ := resolveScope_eq_ok hselects hstep
    refine ⟨?_, hselects'.congr fun id => ?_⟩
    · simpa [or_imp, forall_and] using ⟨hadmits, hscope⟩
    · simp [or_and_right, exists_or]
  · intro hadmits
    obtain ⟨selected, hrun, _⟩ := foldlM_succeeds (f := L.resolveScope) (fun _ _ => True)
      (l := scopes) (s := ∅) trivial fun done scope rest t hl _ => by
        obtain ⟨t', ht'⟩ := resolveScope_succeeds (hadmits scope (by simp [hl])) t
        exact ⟨t', ht', trivial⟩
    exact ⟨selected, hrun⟩

/-- **What a resolution is.**  A union of scopes resolves exactly when the lineage
admits each of them, and then to the nodes with packs that belong to one. -/
theorem resolveUnion_eq_ok :
    L.resolveUnion scopes = .ok r ↔
      scopes.length ≤ hubPhysicalScopes ∧ (∀ scope ∈ scopes, L.Admits scope) ∧
      r.revision = L.revision ∧ r.groups = L.unionGroups scopes ∧
      r.packs.value = nodePacks (L.unionGroups scopes) := by
  obtain ⟨revision, groups, packs⟩ := r
  simp only [resolveUnion, accepted, passed, WholePacks.foldlM_checkedAdd, WholePacks.zero_value,
    Nat.zero_add, ResolvedPhysicalScope.mk.injEq]
  constructor
  · rintro ⟨hlen, selected, hrun, _, hsum, rfl, rfl, rfl⟩
    obtain ⟨hadmits, hselects⟩ := foldlM_resolveScope.1 selected hrun
    rw [values_of_selects hselects] at hsum ⊢
    exact ⟨hlen, hadmits, rfl, rfl, hsum⟩
  · rintro ⟨hlen, hadmits, rfl, rfl, hsum⟩
    obtain ⟨selected, hrun⟩ := foldlM_resolveScope.2 hadmits
    rw [← values_of_selects (foldlM_resolveScope.1 selected hrun).2] at hsum ⊢
    exact ⟨hlen, selected, hrun, packs, hsum, rfl, rfl, rfl⟩

/-- A union of admitted scopes does resolve. -/
theorem resolveUnion_succeeds (hlen : scopes.length ≤ hubPhysicalScopes)
    (hadmits : ∀ scope ∈ scopes, L.Admits scope) : ∃ r, L.resolveUnion scopes = .ok r :=
  ⟨⟨L.revision, L.unionGroups scopes, nodePacks (L.unionGroups scopes),
    L.unionGroups_packs_le scopes⟩, resolveUnion_eq_ok.mpr ⟨hlen, hadmits, rfl, rfl, rfl⟩⟩

theorem resolve_eq_ok :
    L.resolve scope = .ok r ↔ L.Admits scope ∧ r.revision = L.revision ∧
      r.groups = L.unionGroups [scope] ∧ r.packs.value = nodePacks (L.unionGroups [scope]) := by
  rw [resolve, resolveUnion_eq_ok]
  simp [hubPhysicalScopes]

theorem resolve_succeeds (h : L.Admits scope) : ∃ r, L.resolve scope = .ok r :=
  resolveUnion_succeeds (by simp [hubPhysicalScopes]) (by simpa using h)

theorem mem_resolve_groups (h : L.resolve scope = .ok r) :
    n ∈ r.groups ↔ n ∈ L.nodes ∧ 0 < n.packs.value ∧ n.id ∈ L.members scope := by
  rw [(resolve_eq_ok.mp h).2.2.1]
  simp [unionGroups]

/-! ## Restoring recorded scopes -/

def checkRestored (L : PhysicalLineage) (captured : HubRevision) (anchor : PhysicalScopeAnchor) :
    Except PhysicalScopeError Unit := do
  let node ← okOr (L.node anchor.group) .historicalGap
  refuse (node.createdRevision ≠ anchor.createdRevision ∨
    anchor.createdRevision.value > captured.value) .historicalGap
  refuse (anchor.capturedPacks.value = 0) .invalidSelection

def restoreAnchors (L : PhysicalLineage) (captured : HubRevision)
    (anchors : List PhysicalScopeAnchor) :
    Except PhysicalScopeError (List PhysicalScopeAnchor) := do
  refuse (anchors = [] ∨ anchors.length > hubLineageGroups) .capacity
  refuse (captured.value > L.revision.value) .historicalGap
  refuse (¬ (sortAnchors anchors).IsChain fun a b => a.group ≠ b.group) .invalidSelection
  let _ ← (sortAnchors anchors).foldlM (fun total anchor => do
    L.checkRestored captured anchor
    mapErr (fun _ => PhysicalScopeError.quantityOverflow) (total.checkedAdd anchor.capturedPacks))
    WholePacks.zero
  return sortAnchors anchors

theorem checkRestored_eq_ok {u : Unit} :
    L.checkRestored captured a = .ok u ↔
      (∃ n ∈ L.nodes, n.id = a.group ∧ n.createdRevision = a.createdRevision) ∧
      a.createdRevision.value ≤ captured.value ∧ 0 < a.capturedPacks.value := by
  simp only [checkRestored, accepted, node_eq_some, passed, Nat.pos_iff_ne_zero]
  constructor
  · rintro ⟨n, ⟨hn, hid⟩, ⟨hcreated, hle⟩, hpos⟩
    exact ⟨⟨n, hn, hid, hcreated⟩, hle, hpos⟩
  · rintro ⟨⟨n, hn, hid, hcreated⟩, hle, hpos⟩
    exact ⟨n, ⟨hn, hid⟩, ⟨hcreated, hle⟩, hpos⟩

theorem restoreAnchors_eq_ok {sorted : List PhysicalScopeAnchor} :
    L.restoreAnchors captured anchors = .ok sorted ↔
      sorted = sortAnchors anchors ∧ WellFormedAnchors captured sorted ∧
      captured.value ≤ L.revision.value ∧
      (∀ a ∈ sorted, ∃ n ∈ L.nodes, n.id = a.group ∧ n.createdRevision = a.createdRevision) ∧
      (sorted.map fun a => a.capturedPacks.value).sum ≤ hubMaxWholePacks := by
  have hperm : (sortAnchors anchors).Perm anchors := List.perm_insertionSort _ anchors
  simp only [restoreAnchors, accepted, passed, WholePacks.foldlM_total, checkRestored_eq_ok,
    WholePacks.zero_value, Nat.zero_add]
  constructor
  · rintro ⟨⟨hne, hlen⟩, hcaptured, hchain, total, ⟨hchecks, htotal⟩, rfl⟩
    refine ⟨rfl, ?_, hcaptured, fun a ha => (hchecks a ha).1, htotal ▸ total.bound⟩
    exact {
      nonempty := fun h => hne (h ▸ hperm.symm).eq_nil
      length_le := hperm.length_eq ▸ hlen
      sorted := sortAnchors_sorted hchain
      created_le := fun a ha => (hchecks a ha).2.1
      positive := fun a ha => (hchecks a ha).2.2 }
  · rintro ⟨rfl, hwf, hcaptured, hnodes, hsum⟩
    exact ⟨⟨fun h => hwf.nonempty (by rw [h]; rfl), hperm.length_eq ▸ hwf.length_le⟩,
      hcaptured, (hwf.sorted.imp fun h => h.ne).isChain, ⟨_, hsum⟩,
      ⟨fun a ha => ⟨hnodes a ha, hwf.created_le a ha, hwf.positive a ha⟩, rfl⟩, rfl⟩

def restoreScope (L : PhysicalLineage) (captured : HubRevision)
    (anchors : List PhysicalScopeAnchor) : Except PhysicalScopeError CapturedPhysicalScope := do
  let sorted ← attach (L.restoreAnchors captured anchors)
  let scope : CapturedPhysicalScope := {
    hub := L.hub, trace := L.trace, variant := L.variant, capturedRevision := captured
    anchors := sorted.1
    wellFormed := (restoreAnchors_eq_ok.mp sorted.2).2.1 }
  let _ ← L.resolve scope
  return scope

/-- A restored scope is admitted, with exactly the recorded anchors. -/
theorem restoreScope_eq_ok :
    L.restoreScope captured anchors = .ok S ↔
      L.Admits S ∧ S.capturedRevision = captured ∧ S.anchors = sortAnchors anchors ∧
      (S.anchors.map fun a => a.capturedPacks.value).sum ≤ hubMaxWholePacks := by
  rw [restoreScope, attach_bind_eq_ok]
  simp only [accepted]
  constructor
  · rintro ⟨sorted, hsorted, r, hr, rfl⟩
    obtain ⟨hsort, _, _, _, hsum⟩ := restoreAnchors_eq_ok.mp hsorted
    exact ⟨(resolve_eq_ok.mp hr).1, rfl, hsort, hsum⟩
  · obtain ⟨hub, trace, variant, revision, sorted, hwf⟩ := S
    rintro ⟨hadmits, rfl, hsort, hsum⟩
    obtain ⟨r, hr⟩ := resolve_succeeds hadmits
    obtain ⟨rfl, rfl, rfl, hcaptured, hnodes⟩ := hadmits
    exact ⟨sorted, restoreAnchors_eq_ok.mpr ⟨hsort, hwf, hcaptured, hnodes, hsum⟩, r, hr, rfl⟩

/-! ## Walking up from one group -/

/-- Whether `group` belongs to what was captured at `anchor`.  The source loops until
it meets the anchor, an edge that does not inherit, or a root; a lineage has no
longer chain of parents than it has nodes. -/
def capturedMember (L : PhysicalLineage) (anchor : HubRecordId) (captured : HubRevision)
    (group : HubRecordId) : Bool :=
  if captured.value > L.revision.value ∨
      ∀ n ∈ L.node anchor, n.createdRevision.value > captured.value then false
  else
    (lineageFamily.climb (PhysicalLineageNode.inheritsAt · captured) L.node anchor
      (L.nodes.length + 1) group).getD false

/-- The walk never runs out of steps: each parent has fewer nodes older than it. -/
theorem climb_lineage_stops (L : PhysicalLineage) (captured : HubRevision)
    (anchor group : HubRecordId) :
    ∃ b, lineageFamily.climb (PhysicalLineageNode.inheritsAt · captured) L.node anchor
      (L.nodes.length + 1) group = some b := by
  let older (n : PhysicalLineageNode) : Finset PhysicalLineageNode :=
    L.nodes.toFinset.filter fun m => m.createdRevision.value < n.createdRevision.value
  refine Descent.Family.climb_stops (fun n => (older n).card) ?_ _ group (Nat.succ_pos _) ?_
  · intro k n p m hk hp hm
    obtain ⟨hn, _⟩ := node_eq_some.mp hk
    obtain ⟨hmem, hid⟩ := node_eq_some.mp hm
    obtain ⟨q, hq, hqid, hlt, _⟩ := L.wellFormed.parent_older n hn p hp
    obtain rfl : m = q := L.node_ext hmem hq (hid.trans hqid.symm)
    -- what is older than the parent is older than the child, and so is the parent itself
    have hsub : older m ⊆ older n := Finset.monotone_filter_right _ fun x _ hx => hx.trans hlt
    refine Finset.card_lt_card ((Finset.ssubset_iff_of_subset hsub).mpr ⟨m, ?_, ?_⟩)
    · simpa [older] using ⟨hmem, hlt⟩
    · simp [older]
  · intro n hn
    obtain ⟨hmem, _⟩ := node_eq_some.mp hn
    have hlt : (older n).card < L.nodes.toFinset.card :=
      Finset.card_lt_card (Finset.filter_ssubset.mpr ⟨n, by simpa using hmem, by simp⟩)
    have hle := L.nodes.toFinset_card_le
    omega

/-- **The walk decides membership.** -/
theorem capturedMember_iff {anchor group : HubRecordId} :
    L.capturedMember anchor captured group = true ↔
      captured.value ≤ L.revision.value ∧
      (∃ n ∈ L.nodes, n.id = anchor ∧ n.createdRevision.value ≤ captured.value) ∧
      lineageFamily.Member (PhysicalLineageNode.inheritsAt · captured) (fun n => n.id = anchor)
        L.nodes group := by
  obtain ⟨b, hb⟩ := L.climb_lineage_stops captured anchor group
  have hmember := Descent.Family.climb_eq_some (l := L.nodes)
    (fun _ _ => L.node_eq_some) _ _ _ hb
  have hanchor : (∀ n ∈ L.node anchor, n.createdRevision.value > captured.value) ↔
      ¬ ∃ n ∈ L.nodes, n.id = anchor ∧ n.createdRevision.value ≤ captured.value := by
    simp only [Option.mem_def, node_eq_some, not_exists, not_and, passed, and_imp]
  unfold capturedMember
  rw [hb]
  simp only [hanchor]
  split
  · rename_i h
    simp only [Bool.false_eq_true, false_iff]
    rintro ⟨hle, hnode, _⟩
    rcases h with h | h
    · omega
    · exact h hnode
  · rename_i h
    rw [not_or, not_lt, not_not] at h
    exact ⟨fun hb => ⟨h.1, h.2, hmember.mp hb⟩, fun hm => hmember.mpr hm.2.2⟩

/-- A scope's members are what the walk finds from one of its anchors. -/
theorem mem_members_iff_capturedMember (h : L.Admits scope) :
    id ∈ L.members scope ↔
      ∃ a ∈ scope.anchors, L.capturedMember a.group scope.capturedRevision id = true := by
  rw [mem_members, Belongs]
  simp only [capturedMember_iff, CapturedPhysicalScope.mem_groups]
  rw [Descent.Family.member_exists_iff]
  refine exists_congr fun a => and_congr_right fun ha => ?_
  obtain ⟨n, hn, hid, hcreated⟩ := h.anchor_node a ha
  have hanchor : ∃ n ∈ L.nodes, n.id = a.group ∧
      n.createdRevision.value ≤ scope.capturedRevision.value :=
    ⟨n, hn, hid, hcreated ▸ scope.wellFormed.created_le a ha⟩
  simp only [h.captured_le, hanchor, true_and, eq_comm (a := a.group)]

/-! ## The pass and the walk agree -/

/-- The scope was built on this lineage. -/
def Produces (L : PhysicalLineage) (scope : CapturedPhysicalScope) : Prop :=
  (∃ selected, L.capture selected = .ok scope) ∨
    ∃ captured anchors, L.restoreScope captured anchors = .ok scope

theorem admits_of_capture {selected : List HubRecordId} (h : L.capture selected = .ok S) :
    L.Admits S := by
  obtain ⟨hhub, htrace, hvariant, hrevision, hanchors⟩ := capture_eq_ok h
  refine ⟨hhub, htrace, hvariant, hrevision ▸ Nat.le_refl _, fun a ha => ?_⟩
  obtain ⟨n, hn, _, rfl⟩ := (hanchors a).mp ha
  exact ⟨n, hn, rfl, rfl⟩

theorem Produces.admits (h : L.Produces S) : L.Admits S := by
  rcases h with ⟨selected, h⟩ | ⟨captured, anchors, h⟩
  · exact admits_of_capture h
  · exact (restoreScope_eq_ok.mp h).1

theorem mem_unionGroups (h : ∀ scope ∈ scopes, L.Admits scope) :
    n ∈ L.unionGroups scopes ↔ n ∈ L.nodes ∧ 0 < n.packs.value ∧ ∃ scope ∈ scopes,
      ∃ a ∈ scope.anchors, L.capturedMember a.group scope.capturedRevision n.id = true := by
  simp only [unionGroups, List.mem_filter, decide_eq_true_eq]
  refine and_congr_right fun _ => and_congr_right fun _ => exists_congr fun scope => ?_
  exact and_congr_right fun hscope => mem_members_iff_capturedMember (h scope hscope)

/-- The result of a union does not depend on the order or repetition of its scopes. -/
theorem resolveUnion_congr {scopes' : List CapturedPhysicalScope}
    (hlen : scopes'.length ≤ hubPhysicalScopes) (hsame : ∀ scope, scope ∈ scopes' ↔ scope ∈ scopes)
    (h : L.resolveUnion scopes = .ok r) : L.resolveUnion scopes' = .ok r := by
  have hgroups : L.unionGroups scopes' = L.unionGroups scopes := by simp only [unionGroups, hsame]
  obtain ⟨-, hadmits, hrevision, hfound, hpacks⟩ := resolveUnion_eq_ok.mp h
  refine resolveUnion_eq_ok.mpr ⟨hlen, fun scope hscope => ?_, hrevision, ?_, ?_⟩
  · exact hadmits scope ((hsame scope).mp hscope)
  · rw [hgroups, hfound]
  · rw [hgroups, hpacks]

end PhysicalLineage

open PhysicalLineage in
/-- **Resolution and walk agree.**  A union of scopes of a lineage resolves, in the order of
identities, to the nodes with packs that the walk leads from to an anchor; the order and
repetition of the scopes play no part, the packs are those of the nodes, and the walk ends. -/
theorem resolution_follows_walk (L : PhysicalLineage) (scopes : List CapturedPhysicalScope)
    (hlen : scopes.length ≤ hubPhysicalScopes) (hscopes : ∀ scope ∈ scopes, L.Produces scope) :
    (∃ r, L.resolveUnion scopes = .ok r ∧
      r.groups.Pairwise (fun a b => a.id < b.id) ∧
      (∀ n, n ∈ r.groups ↔ n ∈ L.nodes ∧ 0 < n.packs.value ∧ ∃ scope ∈ scopes,
        ∃ a ∈ scope.anchors, L.capturedMember a.group scope.capturedRevision n.id = true) ∧
      (∀ scopes' : List CapturedPhysicalScope, scopes'.length ≤ hubPhysicalScopes →
        (∀ scope, scope ∈ scopes' ↔ scope ∈ scopes) → L.resolveUnion scopes' = .ok r) ∧
      r.packs.value = nodePacks r.groups ∧ r.packs.value ≤ nodePacks L.nodes) ∧
    ∀ anchor captured group, ∃ b,
      lineageFamily.climb (PhysicalLineageNode.inheritsAt · captured) L.node anchor
        (L.nodes.length + 1) group = some b := by
  have hadmits : ∀ scope ∈ scopes, L.Admits scope :=
    fun scope hscope => (hscopes scope hscope).admits
  refine ⟨?_, fun anchor captured group => L.climb_lineage_stops captured anchor group⟩
  obtain ⟨r, hr⟩ := resolveUnion_succeeds hlen hadmits
  obtain ⟨-, -, -, hgroups, hpacks⟩ := resolveUnion_eq_ok.mp hr
  have hsublist : (L.unionGroups scopes).Sublist L.nodes := List.filter_sublist
  refine ⟨r, hr, ?_, fun n => ?_, fun scopes' hlen' hsame => resolveUnion_congr hlen' hsame hr,
    ?_, ?_⟩
  · rw [hgroups]
    exact L.wellFormed.sorted.sublist hsublist
  · rw [hgroups]
    exact mem_unionGroups hadmits
  · rw [hpacks, hgroups]
  · rw [hpacks]
    exact List.Sublist.sum_le_sum (hsublist.map _) (by simp)

/-- A group that holds `packs`, the root of a lineage. -/
def harvest (packs : WholePacks) : PhysicalLineageNode where
  id := .of 10
  parent := none
  trace := .of 2
  variant := .of 3
  createdRevision := .of 1
  packs := packs
  recovery := none

/-- The harvest after seven changes.  Groups 12 and 16 were separated after the third change and 14
was found again from a departure after it; 11 was separated before, and 13 was found again from a
departure before. -/
def harvestDescent : PhysicalLineage where
  hub := .of 1
  trace := .of 2
  variant := .of 3
  revision := .of 8
  nodes := [
    harvest (.of 5),
    { harvest (.of 2) with id := .of 11, parent := some (.of 10), createdRevision := .of 2 },
    { harvest (.of 3) with id := .of 12, parent := some (.of 10), createdRevision := .of 5 },
    { harvest (.of 1) with
      id := .of 13, parent := some (.of 10), createdRevision := .of 6
      recovery := some ⟨.of 90, .of 2⟩ },
    { harvest (.of 4) with
      id := .of 14, parent := some (.of 12), createdRevision := .of 7
      recovery := some ⟨.of 91, .of 6⟩ },
    { harvest (.of 1) with id := .of 15, parent := some (.of 11), createdRevision := .of 8 },
    { harvest .zero with id := .of 16, parent := some (.of 12), createdRevision := .of 8 }]
  wellFormed := (checkNodes_eq_ok (by decide)).mp (by decide)

/-- The root as it was captured at the third change resolves to itself, the later separation 12
and the recovery 14 from it; 13 is there because it was captured itself. -/
theorem resolution_follows_walk_harvest :
    ∃ S T r, harvestDescent.restoreScope (.of 3) [⟨.of 10, .of 1, .of 12⟩] = .ok S ∧
      harvestDescent.capture [.of 13] = .ok T ∧
      harvestDescent.resolveUnion [S, T] = .ok r ∧ harvestDescent.resolveUnion [T, S, T] = .ok r ∧
      (∀ n ∈ harvestDescent.nodes,
        n ∈ r.groups ↔ n.id ∈ [.of 10, .of 12, .of 13, .of 14]) ∧ r.packs.value ≤ 16 := by
  have hrestore : ∃ S, harvestDescent.restoreScope (.of 3) [⟨.of 10, .of 1, .of 12⟩] = .ok S :=
    ⟨_, rfl⟩
  have hcapture : ∃ T, harvestDescent.capture [.of 13] = .ok T := ⟨_, rfl⟩
  obtain ⟨S, hS⟩ := hrestore
  obtain ⟨T, hT⟩ := hcapture
  obtain ⟨⟨r, hr, -, hmem, hsame, -, hle⟩, -⟩ := resolution_follows_walk harvestDescent [S, T]
    (by simp [hubPhysicalScopes]) (by simpa using ⟨.inr ⟨_, _, hS⟩, .inl ⟨_, hT⟩⟩)
  refine ⟨S, T, r, hS, hT, hr, hsame [T, S, T] (by simp [hubPhysicalScopes]) (by simp),
    fun n hn => ?_, hle⟩
  rw [hmem]
  cases hS
  cases hT
  revert n
  decide

end HarvestCircle
