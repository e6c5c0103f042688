import HarvestCircle.Checked

/-! # Registers

A register is a map that is filled by a loop and refuses a second value for a key.  After
any number of entries it holds exactly the rows entered (`Holds`), and the loop has passed
exactly if no key had two values among them (`Functional`); so whether it passes does not
depend on the order of the rows.  Entering a row again changes nothing.
-/
namespace Registers
open Checked
variable {κ β ε : Type}

/-- No key has two values. -/
def Functional (rows : List (κ × β)) : Prop :=
  ∀ k v v', (k, v) ∈ rows → (k, v') ∈ rows → v = v'

theorem Functional.mono {rows rows' : List (κ × β)} (h : Functional rows')
    (hsub : ∀ x ∈ rows, x ∈ rows') : Functional rows :=
  fun k v v' hv hv' => h k v v' (hsub _ hv) (hsub _ hv')

theorem functional_congr {rows rows' : List (κ × β)} (hmem : ∀ x, x ∈ rows ↔ x ∈ rows') :
    Functional rows ↔ Functional rows' :=
  ⟨fun h => h.mono fun x hx => (hmem x).mpr hx, fun h => h.mono fun x hx => (hmem x).mp hx⟩

/-- Rows with other keys can be added. -/
theorem Functional.append {rows rows' : List (κ × β)} (h : Functional rows) (h' : Functional rows')
    (hapart : ∀ x ∈ rows, ∀ y ∈ rows', x.1 ≠ y.1) : Functional (rows ++ rows') := by
  intro k v v' hv hv'
  rcases List.mem_append.mp hv with hv | hv
  · rcases List.mem_append.mp hv' with hv' | hv'
    · exact h k v v' hv hv'
    · exact (hapart _ hv _ hv' rfl).elim
  · rcases List.mem_append.mp hv' with hv' | hv'
    · exact (hapart _ hv' _ hv rfl).elim
    · exact h' k v v' hv hv'

theorem functional_of_forall_eq {rows : List (κ × β)} (row : κ × β) (h : ∀ x ∈ rows, x = row) :
    Functional rows :=
  fun _ _ _ hv hv' => (Prod.mk.inj ((h _ hv).trans (h _ hv').symm)).2

section
variable [LinearOrder κ]

/-- The map has exactly the rows. -/
def Holds (m : Std.TreeMap κ β) (rows : List (κ × β)) : Prop :=
  ∀ k v, m[k]? = some v ↔ (k, v) ∈ rows

variable {m : Std.TreeMap κ β} {rows rows' : List (κ × β)} {k : κ} {v : β}

theorem holds_empty : Holds (∅ : Std.TreeMap κ β) [] := by
  intro k v
  simp

theorem Holds.functional (h : Holds m rows) : Functional rows := fun k v v' hv hv' =>
  Option.some.inj (((h k v).mpr hv).symm.trans ((h k v').mpr hv'))

theorem Holds.congr (h : Holds m rows) (hmem : ∀ x, x ∈ rows ↔ x ∈ rows') : Holds m rows' :=
  fun k v => (h k v).trans (hmem (k, v))

/-- The map lists its rows in the order of their keys. -/
theorem Holds.pairwise_toList_iff [Std.LawfulEqOrd κ] (h : Holds m rows)
    {R : κ × β → κ × β → Prop} :
    m.toList.Pairwise R ↔ ∀ x ∈ rows, ∀ y ∈ rows, x.1 < y.1 → R x y := by
  have hmem : ∀ x, x ∈ m.toList ↔ x ∈ rows := fun x =>
    Std.TreeMap.mem_toList_iff_getElem?_eq_some.trans (h x.1 x.2)
  have hordered : m.toList.Pairwise fun x y => x.1 < y.1 :=
    (Std.TreeMap.ordered_keys_toList (t := m)).imp fun hlt => compare_lt_iff_lt.mp hlt
  simp only [← hmem]
  generalize m.toList = l at hordered
  constructor
  · intro hpairwise
    induction hordered with
    | nil => simp
    | @cons a l hfirst _ ih =>
      obtain ⟨hhead, htail⟩ := List.pairwise_cons.mp hpairwise
      intro x hx y hy hlt
      rcases List.mem_cons.mp hx with rfl | hxl
      · rcases List.mem_cons.mp hy with rfl | hyl
        · exact absurd hlt (lt_irrefl _)
        · exact hhead y hyl
      · rcases List.mem_cons.mp hy with rfl | hyl
        · exact absurd hlt (hfirst x hxl).asymm
        · exact ih htail x hxl y hyl hlt
  · intro hrows
    exact hordered.imp_of_mem fun hx hy hlt => hrows _ hx _ hy hlt

variable [Std.LawfulEqOrd κ] [DecidableEq β]

omit [DecidableEq β] in
/-- A map that was filled from values with distinct keys finds the one with a key. -/
theorem getElem?_foldl_insert {key : β → κ} {l : List β} (hkeys : (l.map key).Nodup)
    (m : Std.TreeMap κ β) (k : κ) : (l.foldl (fun m a => m.insert (key a) a) m)[k]? =
      (l.find? fun a => key a = k).or m[k]? := by
  induction l generalizing m with
  | nil => simp
  | cons a l ih =>
    obtain ⟨hfresh, hrest⟩ := List.nodup_cons.mp hkeys
    rw [List.foldl_cons, ih hrest, Std.TreeMap.getElem?_insert]
    by_cases ha : key a = k
    · have hnone : l.find? (fun b => key b = k) = none := by
        rw [List.find?_eq_none]
        intro b hb hkey
        rw [decide_eq_true_eq, ← ha] at hkey
        exact hfresh (hkey ▸ List.mem_map_of_mem hb)
      rw [hnone, List.find?_cons_of_pos (by simpa using ha), ha, if_pos Std.ReflCmp.compare_self]
      rfl
    · rw [List.find?_cons_of_neg (by simpa using ha),
        if_neg (fun heq => ha (Std.LawfulEqCmp.eq_of_compare heq))]

/-- Enter a value, unless the key has another one. -/
def enter (m : Std.TreeMap κ β) (k : κ) (v : β) (e : ε) : Except ε (Std.TreeMap κ β) := do
  refuse (∃ old ∈ m[k]?, old ≠ v) e
  return m.insert k v

/-- Entering a row tests whether the rows stay functional. -/
theorem Holds.enter (h : Holds m rows) {e : ε} :
    Tests (enter m k v e) (Functional (rows ++ [(k, v)])) (Holds · (rows ++ [(k, v)])) := by
  have hagree : ¬ (∃ old ∈ m[k]?, old ≠ v) ↔ ∀ v', (k, v') ∈ rows → v' = v := by
    simp only [Option.mem_def, h k, not_exists, not_and, Decidable.not_not]
  simp only [tests_iff, Registers.enter, accepted, hagree]
  constructor
  · constructor
    · rintro ⟨m', hsame, -⟩ k' a b ha hb
      rw [List.mem_append, List.mem_singleton, Prod.mk.injEq] at ha hb
      rcases ha with ha | ⟨rfl, rfl⟩
      · rcases hb with hb | ⟨rfl, rfl⟩
        · exact h.functional k' a b ha hb
        · exact hsame a ha
      · rcases hb with hb | ⟨-, rfl⟩
        · exact (hsame b hb).symm
        · rfl
    · intro hfunctional
      exact ⟨_, fun v' hv' => hfunctional k v' v (by simp [hv']) (by simp), rfl⟩
  · rintro m' ⟨hsame, rfl⟩ k' v'
    rw [Std.TreeMap.getElem?_insert, List.mem_append, List.mem_singleton, Prod.mk.injEq]
    by_cases hk : k = k'
    · subst hk
      rw [if_pos Std.ReflCmp.compare_self, Option.some.injEq]
      constructor
      · rintro rfl
        exact .inr ⟨rfl, rfl⟩
      · rintro (hold | ⟨-, rfl⟩)
        · exact (hsame v' hold).symm
        · rfl
    · rw [if_neg (fun heq => hk (Std.LawfulEqCmp.eq_of_compare heq)), h k' v']
      exact ⟨.inl, fun hor => hor.resolve_right fun heq => hk heq.1.symm⟩

/-- The same for rows that are read off records. -/
theorem Holds.enter_map {γ : Type} {row : γ → κ × β} {records : List γ}
    (h : Holds m (records.map row)) (record : γ) {e : ε} :
    Tests (Registers.enter m (row record).1 (row record).2 e)
      (Functional ((records ++ [record]).map row))
      (Holds · ((records ++ [record]).map row)) := by
  rw [List.map_append, List.map_singleton]
  exact h.enter

end

/-! ## Rows of several kinds -/

/-- Segments of keys, each with rows of a kind of its own in one functional list of rows, have no
key in common. -/
theorem nodup_flatten_of_kinds {K : Type} (kind : β → K) {rows : List (κ × β)}
    (hrows : Functional rows) {segments : List (K × List κ)} (hkinds : (segments.map (·.1)).Nodup)
    (hself : ∀ s ∈ segments, s.2.Nodup)
    (hkind : ∀ s ∈ segments, ∀ k ∈ s.2, ∃ v, (k, v) ∈ rows ∧ kind v = s.1) :
    (segments.map (·.2)).flatten.Nodup := by
  rw [List.nodup_flatten]
  refine ⟨by simpa using fun l k hs => hself (k, l) hs, ?_⟩
  rw [List.pairwise_map]
  rw [List.Nodup, List.pairwise_map] at hkinds
  refine hkinds.imp_of_mem fun {a b} ha hb hne k hka hkb => ?_
  obtain ⟨v, hv, hva⟩ := hkind a ha k hka
  obtain ⟨v', hv', hvb⟩ := hkind b hb k hkb
  exact hne (hva.symm.trans ((congrArg kind (hrows k v v' hv hv')).trans hvb))

end Registers
