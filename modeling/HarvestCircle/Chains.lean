import Mathlib.Data.Finset.Card
import Mathlib.Data.List.Nodup
import Mathlib.Logic.Relation

/-! # Chains of edges

A finite set of edges in which no node is the start of two: from each node there is one
way to go on.  Following it ends, or comes back to where it has been.

Two loops are read here.  `walk` remembers the nodes on its path and the nodes known to
be harmless; it finds a node it has been at exactly if there is a cycle
(`survey_eq_some`).  `follow` remembers nothing, and it ends on its own as soon as there
is no cycle (`follow_stops`).
-/
namespace Chains
variable {κ : Type}

/-- There is an edge. -/
def Leads (edges : List (κ × κ)) (a b : κ) : Prop := (a, b) ∈ edges

/-- Zero or more steps lead there. -/
def Reaches (edges : List (κ × κ)) : κ → κ → Prop := Relation.ReflTransGen (Leads edges)

/-- No node leads back to itself. -/
def Acyclic (edges : List (κ × κ)) : Prop := ∀ a, ¬ Relation.TransGen (Leads edges) a a

/-- No node is the start of two edges. -/
def Functional (edges : List (κ × κ)) : Prop := (edges.map Prod.fst).Nodup

/-- Following the edges from here comes to an end. -/
def Ends (edges : List (κ × κ)) : κ → Prop := Acc fun b a => Leads edges a b

variable {edges : List (κ × κ)} {a b c : κ}

theorem Functional.unique (h : Functional edges) (hb : Leads edges a b) (hc : Leads edges a c) :
    b = c :=
  (Prod.mk.inj (List.inj_on_of_nodup_map h hb hc rfl)).2

theorem Ends.not_cycle (h : Ends edges a) : ¬ Relation.TransGen (Leads edges) a a := by
  induction h with
  | intro a _ ih =>
    intro hcycle
    obtain ⟨b, hab, hba⟩ := Relation.TransGen.head'_iff.mp hcycle
    exact ih b hab (Relation.TransGen.tail' hba hab)

/-- A cycle starts with an edge, so it is enough that the starts of edges end. -/
theorem acyclic_of_ends (h : ∀ a ∈ edges.map Prod.fst, Ends edges a) : Acyclic edges := by
  intro a hcycle
  obtain ⟨b, hab, -⟩ := Relation.TransGen.head'_iff.mp hcycle
  exact (h a (List.mem_map_of_mem hab)).not_cycle hcycle

/-- An edge from a node that the rest does not lead to, when followed from the edge's end, keeps
every chain finite. -/
theorem ends_cons (hends : ∀ n, Ends edges n) (hnew : ¬ Reaches edges b a) (n : κ) :
    Ends ((a, b) :: edges) n := by
  -- below the new edge's end nothing has changed
  have hbelow : ∀ n, ¬ Reaches edges n a → Ends ((a, b) :: edges) n := by
    intro n
    induction hends n with
    | intro n _ ih =>
      intro hn
      refine ⟨n, fun m hm => ?_⟩
      rcases List.mem_cons.mp hm with hsame | hold
      · cases hsame
        exact absurd .refl hn
      · exact ih m hold fun hreach => hn (.head hold hreach)
  induction hends n with
  | intro n _ ih =>
    refine ⟨n, fun m hm => ?_⟩
    rcases List.mem_cons.mp hm with hsame | hold
    · cases hsame
      exact hbelow b hnew
    · exact ih m hold

/-! ## Going on -/

section Lookup
variable [DecidableEq κ]

theorem leads_of_lookup (h : edges.lookup a = some b) : Leads edges a b := by
  induction edges with
  | nil => simp at h
  | cons edge rest ih =>
    obtain ⟨start, stop⟩ := edge
    rw [List.lookup_cons] at h
    by_cases hstart : a = start
    · subst hstart
      simp only [beq_self_eq_true] at h
      cases h
      exact List.mem_cons_self
    · simp only [beq_false_of_ne hstart] at h
      exact List.mem_cons_of_mem _ (ih h)

theorem lookup_of_leads (hfun : Functional edges) (h : Leads edges a b) :
    edges.lookup a = some b := by
  cases hlookup : edges.lookup a with
  | none =>
    rw [List.lookup_eq_none_iff] at hlookup
    simpa using hlookup (a, b) h
  | some c => rw [hfun.unique h (leads_of_lookup hlookup)]

/-! ## The guarded walk -/

/-- Follow the edges; `none` at a node that is already on the path. -/
def walk (edges : List (κ × κ)) (complete path : Finset κ) (node : κ) : Option (Finset κ) :=
  if node ∈ complete then some path
  else if _hpath : node ∈ path then none
  else
    match _hnext : edges.lookup node with
    | none => some (insert node path)
    | some next => walk edges complete (insert node path) next
  termination_by ((edges.map Prod.fst).toFinset \ path).card
  decreasing_by
    apply Finset.card_lt_card
    refine (Finset.ssubset_iff_of_subset ?_).mpr ⟨node, ?_, ?_⟩
    · exact Finset.sdiff_subset_sdiff (le_refl _) (Finset.subset_insert ..)
    · have hstart : node ∈ edges.map Prod.fst := List.mem_map_of_mem (leads_of_lookup _hnext)
      simp only [Finset.mem_sdiff, List.mem_toFinset]
      exact ⟨hstart, _hpath⟩
    · simp

/-- Where the edges lead on from a node is settled by its own edge. -/
theorem ends_iff (hfun : Functional edges) :
    Ends edges a ↔ ∀ b, edges.lookup a = some b → Ends edges b := by
  constructor
  · rintro ⟨_, hnext⟩ b hb
    exact hnext b (leads_of_lookup hb)
  · intro h
    exact ⟨a, fun b hb => h b (lookup_of_leads hfun hb)⟩

/-- A walk that ends shows that the nodes it adds to the path lead nowhere in circles. -/
theorem walk_eq_some (hfun : Functional edges) {complete : Finset κ}
    (hcomplete : ∀ n ∈ complete, Ends edges n) {path path' : Finset κ} {node : κ}
    (h : walk edges complete path node = some path') :
    Ends edges node ∧ ∀ n ∈ path', n ∈ path ∨ Ends edges n := by
  fun_induction walk edges complete path node with
  | case1 path node hmem =>
    cases h
    exact ⟨hcomplete node hmem, fun n hn => .inl hn⟩
  | case2 => cases h
  | case3 path node hmem hpath hnext =>
    cases h
    have hends : Ends edges node := (ends_iff hfun).mpr fun b hb => by simp [hnext] at hb
    refine ⟨hends, fun n hn => ?_⟩
    rcases Finset.mem_insert.mp hn with rfl | hn
    · exact .inr hends
    · exact .inl hn
  | case4 path node hmem hpath next hnext ih =>
    obtain ⟨hends, hadded⟩ := ih h
    have hnode : Ends edges node := by
      refine (ends_iff hfun).mpr fun b hb => ?_
      rw [hnext] at hb
      cases hb
      exact hends
    refine ⟨hnode, fun n hn => ?_⟩
    rcases hadded n hn with hn | hn
    · rcases Finset.mem_insert.mp hn with rfl | hn
      · exact .inr hnode
      · exact .inl hn
    · exact .inr hn

/-- A walk that comes back to its path has found a cycle. -/
theorem walk_eq_none {complete path : Finset κ} {node : κ}
    (hpath : ∀ n ∈ path, Relation.TransGen (Leads edges) n node)
    (h : walk edges complete path node = none) : ¬ Acyclic edges := by
  fun_induction walk edges complete path node with
  | case1 => cases h
  | case2 path node hmem hback => exact fun hacyclic => hacyclic node (hpath node hback)
  | case3 => cases h
  | case4 path node hmem hnew next hnext ih =>
    refine ih (fun n hn => ?_) h
    have hstep := leads_of_lookup hnext
    rcases Finset.mem_insert.mp hn with rfl | hn
    · exact .single hstep
    · exact (hpath n hn).tail hstep

/-- Walks from every given start, each sparing the nodes of those before. -/
def survey (edges : List (κ × κ)) (starts : List κ) : Option (Finset κ) :=
  starts.foldlM (fun complete start => (walk edges complete ∅ start).map (complete ∪ ·)) ∅

/-- The walks from some starts, after others. -/
theorem foldlM_walk (hfun : Functional edges) {starts : List κ} {complete complete' : Finset κ}
    (hcomplete : ∀ n ∈ complete, Ends edges n)
    (h : starts.foldlM (fun complete start => (walk edges complete ∅ start).map (complete ∪ ·))
      complete = some complete') : ∀ start ∈ starts, Ends edges start := by
  induction starts generalizing complete with
  | nil => simp
  | cons start rest ih =>
    rw [List.foldlM_cons, Option.bind_eq_bind, Option.bind_eq_some_iff] at h
    obtain ⟨next, hwalk, hrest⟩ := h
    rw [Option.map_eq_some_iff] at hwalk
    obtain ⟨path, hwalk, rfl⟩ := hwalk
    obtain ⟨hstart, hpath⟩ := walk_eq_some hfun hcomplete hwalk
    have hunion : ∀ n ∈ complete ∪ path, Ends edges n := by
      intro n hn
      rcases Finset.mem_union.mp hn with hn | hn
      · exact hcomplete n hn
      · exact (hpath n hn).resolve_left (Finset.notMem_empty n)
    intro n hn
    rcases List.mem_cons.mp hn with rfl | hn
    · exact hstart
    · exact ih hunion hrest n hn

/-- **The walks from all starts of edges succeed exactly if there is no cycle.** -/
theorem survey_isSome_iff (hfun : Functional edges) {starts : List κ}
    (hstarts : ∀ a, a ∈ starts ↔ a ∈ edges.map Prod.fst) :
    (survey edges starts).isSome ↔ Acyclic edges := by
  constructor
  · intro h
    obtain ⟨complete, hsurvey⟩ := Option.isSome_iff_exists.mp h
    have hends := foldlM_walk hfun (by simp) hsurvey
    exact acyclic_of_ends fun a ha => hends a ((hstarts a).mpr ha)
  · intro hacyclic
    have hstep : ∀ (starts : List κ) (complete : Finset κ),
        (starts.foldlM (fun complete start => (walk edges complete ∅ start).map (complete ∪ ·))
          complete).isSome := by
      intro starts
      induction starts with
      | nil => simp
      | cons start rest ih =>
        intro complete
        cases hwalk : walk edges complete ∅ start with
        | none => exact absurd hacyclic (walk_eq_none (by simp) hwalk)
        | some path => simpa [List.foldlM_cons, hwalk] using ih (complete ∪ path)
    exact hstep starts ∅

/-! ## The unguarded loop -/

/-- Follow the edges up to a goal; `none` when the fuel runs out first. -/
def follow (edges : List (κ × κ)) (goal : κ) : Nat → κ → Option Bool
  | 0, _ => none
  | fuel + 1, node =>
    if node = goal then some true
    else
      match edges.lookup node with
      | none => some false
      | some next => follow edges goal fuel next

/-- A loop that ends says whether the goal is reached. -/
theorem follow_eq_some (hfun : Functional edges) {goal : κ} {fuel : Nat} {node : κ} {found : Bool}
    (h : follow edges goal fuel node = some found) :
    found = true ↔ Reaches edges node goal := by
  induction fuel generalizing node with
  | zero => cases h
  | succ fuel ih =>
    rw [follow] at h
    split at h
    · rename_i hgoal
      cases h
      simp only [true_iff]
      exact hgoal ▸ .refl
    · rename_i hgoal
      cases hnext : edges.lookup node with
      | none =>
        rw [hnext] at h
        cases h
        simp only [Bool.false_eq_true, false_iff]
        intro hreach
        rcases Relation.ReflTransGen.cases_head hreach with heq | ⟨next, hstep, -⟩
        · exact hgoal heq
        · rw [lookup_of_leads hfun hstep] at hnext
          cases hnext
      | some next =>
        rw [hnext] at h
        rw [ih h]
        refine ⟨.head (leads_of_lookup hnext), fun hreach => ?_⟩
        rcases Relation.ReflTransGen.cases_head hreach with heq | ⟨next', hstep, hrest⟩
        · exact absurd heq hgoal
        · rw [lookup_of_leads hfun hstep] at hnext
          cases hnext
          exact hrest

/-- **Without a cycle the loop ends** after no more steps than there are edges. -/
theorem follow_stops (hacyclic : Acyclic edges) {goal : κ} {fuel : Nat} {node : κ}
    (hfuel : edges.length < fuel) : ∃ found, follow edges goal fuel node = some found := by
  -- the nodes on the way here are starts of edges, all different, and lead here
  have hgeneral : ∀ fuel (path : Finset κ) node, path ⊆ (edges.map Prod.fst).toFinset →
      (∀ n ∈ path, Relation.TransGen (Leads edges) n node) →
      edges.length < fuel + path.card → ∃ found, follow edges goal fuel node = some found := by
    intro fuel
    induction fuel with
    | zero =>
      intro path node hpath _ hlt
      have hcard := (Finset.card_le_card hpath).trans (List.toFinset_card_le _)
      rw [List.length_map] at hcard
      omega
    | succ fuel ih =>
      intro path node hpath hleads hlt
      rw [follow]
      split
      · exact ⟨true, rfl⟩
      · cases hnext : edges.lookup node with
        | none => exact ⟨false, rfl⟩
        | some next =>
          have hstep := leads_of_lookup hnext
          have hnew : node ∉ path := fun hmem => hacyclic node (hleads node hmem)
          refine ih (insert node path) next ?_ ?_ ?_
          · refine Finset.insert_subset ?_ hpath
            exact List.mem_toFinset.mpr (List.mem_map_of_mem hstep)
          · intro n hn
            rcases Finset.mem_insert.mp hn with rfl | hn
            · exact .single hstep
            · exact (hleads n hn).tail hstep
          · rw [Finset.card_insert_of_notMem hnew]
            omega
  exact hgeneral fuel ∅ node (by simp) (by simp) (by simpa using hfuel)

/-- How much fuel there is makes no difference once it is enough. -/
theorem follow_congr (hfun : Functional edges) (hacyclic : Acyclic edges) {goal : κ}
    {fuel fuel' : Nat} {node : κ} (hfuel : edges.length < fuel) (hfuel' : edges.length < fuel') :
    follow edges goal fuel node = follow edges goal fuel' node := by
  obtain ⟨found, hfound⟩ := @follow_stops κ edges _ hacyclic goal fuel node hfuel
  obtain ⟨found', hfound'⟩ := @follow_stops κ edges _ hacyclic goal fuel' node hfuel'
  have hsame : found = found' :=
    Bool.eq_iff_iff.mpr ((follow_eq_some hfun hfound).trans (follow_eq_some hfun hfound').symm)
  rw [hfound, hfound', hsame]

end Lookup

end Chains
