import Mathlib.Data.List.Nodup
import Mathlib.Algebra.BigOperators.Group.List.Lemmas
import Mathlib.Algebra.Ring.Nat
import Mathlib.Order.Lattice

/-! # Tables whose rows have keys

A table is a list of rows with distinct keys.  A transaction takes the rows of some
keys out and puts other rows in.  A total over the rows then changes by what was put
in less what was taken out.
-/
namespace Table
variable {α κ : Type} {key : α → κ} {rows removed added : List α} {keys : List κ}

/-- Overwriting one row replaces the row of its key. -/
theorem mem_set {i : Nat} {row new : α} (hrows : (rows.map key).Nodup) (hrow : rows[i]? = some row)
    {a : α} : a ∈ rows.set i new ↔ a = new ∨ a ∈ rows ∧ key a ≠ key row := by
  obtain ⟨hi, rfl⟩ := List.getElem?_eq_some_iff.mp hrow
  have hsplit : rows = rows.take i ++ rows[i] :: rows.drop (i + 1) := by simp
  have hne : ∀ b ∈ rows.take i ++ rows.drop (i + 1), key b ≠ key rows[i] := by
    intro b hb heq
    rw [hsplit, List.map_append, List.map_cons] at hrows
    have hmid := (List.nodup_middle.mp hrows).notMem
    rw [← List.map_append] at hmid
    exact hmid (heq ▸ List.mem_map_of_mem hb)
  have hmem : a ∈ rows ↔ a = rows[i] ∨ a ∈ rows.take i ++ rows.drop (i + 1) := by
    conv_lhs => rw [hsplit]
    simp only [List.mem_append, List.mem_cons]
    tauto
  have hset : a ∈ rows.set i new ↔ a = new ∨ a ∈ rows.take i ++ rows.drop (i + 1) := by
    rw [List.set_eq_take_append_cons_drop, if_pos hi]
    simp only [List.mem_append, List.mem_cons]
    tauto
  rw [hset, hmem]
  constructor
  · rintro (h | h)
    · exact .inl h
    · exact .inr ⟨.inr h, hne a h⟩
  · rintro (h | ⟨h | h, hkey⟩)
    · exact .inl h
    · exact absurd (congrArg key h) hkey
    · exact .inr h

/-- In a log, newest entry first, whose entries have distinct keys and in which equal values come
from equal keys: where the latest value is still that of an older part, there is none since. -/
theorem none_since {ω : Type} (key : α → κ) (value : α → Option ω) {since older : List α}
    (hsame : (since ++ older).findSome? value = older.findSome? value)
    (hkeys : ((since ++ older).map key).Nodup)
    (hvalues : ∀ x ∈ since ++ older, ∀ y ∈ since ++ older, ∀ v, value x = some v →
      value y = some v → key x = key y) :
    ∀ x ∈ since, value x = none := by
  rw [← List.findSome?_eq_none_iff]
  cases hfirst : since.findSome? value with
  | none => rfl
  | some v =>
    rw [List.findSome?_append, hfirst, Option.some_or] at hsame
    obtain ⟨x, hx, hxv⟩ := List.exists_of_findSome?_eq_some hfirst
    obtain ⟨y, hy, hyv⟩ := List.exists_of_findSome?_eq_some hsame.symm
    have hkey := hvalues x (by simp [hx]) y (by simp [hy]) v hxv hyv
    rw [List.map_append, List.nodup_append] at hkeys
    exact absurd hkey (hkeys.2.2 _ (List.mem_map_of_mem hx) _ (List.mem_map_of_mem hy))

variable [DecidableEq κ]

/-- The rows without those of the given keys, and the new rows. -/
def replace (key : α → κ) (rows : List α) (keys : List κ) (added : List α) : List α :=
  (rows.filter fun row => key row ∉ keys) ++ added

theorem mem_replace {row : α} :
    row ∈ replace key rows keys added ↔ row ∈ rows ∧ key row ∉ keys ∨ row ∈ added := by
  simp [replace]

/-- Keys stay distinct when the new ones are, and were free or have been taken out. -/
theorem nodup_replace (hrows : (rows.map key).Nodup) (hadded : (added.map key).Nodup)
    (hfresh : ∀ row ∈ added, key row ∈ keys ∨ key row ∉ rows.map key) :
    ((replace key rows keys added).map key).Nodup := by
  rw [replace, List.map_append, List.nodup_append]
  refine ⟨hrows.sublist (List.filter_sublist.map key), hadded, ?_⟩
  intro k hk k' hk' heq
  obtain ⟨row, hrow, rfl⟩ := List.mem_map.mp hk
  obtain ⟨row', hrow', rfl⟩ := List.mem_map.mp hk'
  obtain ⟨hmem, hkept⟩ := List.mem_filter.mp hrow
  rcases hfresh row' hrow' with hout | hfree
  · exact absurd (heq ▸ hout) (by simpa using hkept)
  · exact hfree (heq ▸ List.mem_map_of_mem hmem)

/-- Taking rows out of a table and putting them back rearranges it. -/
theorem replace_perm (hrows : (rows.map key).Nodup) (hremoved : (removed.map key).Nodup)
    (hsub : ∀ row ∈ removed, row ∈ rows) :
    (replace key rows (removed.map key) removed).Perm rows := by
  have hnodup : (replace key rows (removed.map key) removed).Nodup :=
    (nodup_replace hrows hremoved fun row hrow => .inl (List.mem_map_of_mem hrow)).of_map key
  refine (List.perm_ext_iff_of_nodup hnodup (hrows.of_map key)).mpr fun row => ?_
  rw [mem_replace]
  refine ⟨fun h => h.elim (·.1) (hsub row), fun hrow => ?_⟩
  by_cases hkey : key row ∈ removed.map key
  · obtain ⟨row', hrow', heq⟩ := List.mem_map.mp hkey
    exact .inr (List.inj_on_of_nodup_map hrows (hsub row' hrow') hrow heq ▸ hrow')
  · exact .inl ⟨hrow, hkey⟩

/-- **A total changes by what is put in less what is taken out.** -/
theorem sum_replace (f : α → Nat) (hrows : (rows.map key).Nodup)
    (hremoved : (removed.map key).Nodup) (hsub : ∀ row ∈ removed, row ∈ rows) :
    ((replace key rows (removed.map key) added).map f).sum + (removed.map f).sum =
      (rows.map f).sum + (added.map f).sum := by
  have hperm := ((replace_perm hrows hremoved hsub).map f).sum_eq
  rw [replace, List.map_append, List.sum_append] at hperm ⊢
  omega

/-! ## Rows in the order of their keys -/

section Ordered
variable {ι : Type} [LinearOrder ι] {index : α → ι} {row new : α}

/-- Put a row in its place, over the row that has its key. -/
def upsert (index : α → ι) (new : α) : List α → List α
  | [] => [new]
  | row :: rows =>
    if index new < index row then new :: row :: rows
    else if index row < index new then row :: upsert index new rows
    else new :: rows

section
variable (hrows : rows.Pairwise fun a b => index a < index b)
include hrows

theorem mem_upsert :
    row ∈ upsert index new rows ↔ row = new ∨ row ∈ rows ∧ index row ≠ index new := by
  induction rows with
  | nil => simp [upsert]
  | cons first rows ih =>
    obtain ⟨hfirst, hrest⟩ := List.pairwise_cons.mp hrows
    rw [upsert]
    split_ifs with hbefore hafter
    · -- the rows that follow are greater still
      have hne : row ∈ first :: rows → index row ≠ index new := by
        rintro hmem
        rcases List.mem_cons.mp hmem with rfl | hmem
        · exact hbefore.ne'
        · exact (hbefore.trans (hfirst row hmem)).ne'
      rw [List.mem_cons]
      exact or_congr_right ⟨fun hmem => ⟨hmem, hne hmem⟩, And.left⟩
    · rw [List.mem_cons, ih hrest, List.mem_cons]
      constructor
      · rintro (rfl | rfl | ⟨hmem, hne⟩)
        · exact .inr ⟨.inl rfl, hafter.ne⟩
        · exact .inl rfl
        · exact .inr ⟨.inr hmem, hne⟩
      · rintro (rfl | ⟨rfl | hmem, hne⟩)
        · exact .inr (.inl rfl)
        · exact .inl rfl
        · exact .inr (.inr ⟨hmem, hne⟩)
    · have hsame : index first = index new := le_antisymm (not_lt.mp hbefore) (not_lt.mp hafter)
      rw [List.mem_cons, List.mem_cons]
      constructor
      · rintro (rfl | hmem)
        · exact .inl rfl
        · exact .inr ⟨.inr hmem, (hsame ▸ hfirst row hmem).ne'⟩
      · rintro (rfl | ⟨rfl | hmem, hne⟩)
        · exact .inl rfl
        · exact absurd hsame hne
        · exact .inr hmem

theorem pairwise_upsert : (upsert index new rows).Pairwise fun a b => index a < index b := by
  induction rows with
  | nil => simp [upsert]
  | cons first rows ih =>
    obtain ⟨hfirst, hrest⟩ := List.pairwise_cons.mp hrows
    rw [upsert]
    split_ifs with hbefore hafter
    · refine List.pairwise_cons.mpr ⟨fun a ha => ?_, hrows⟩
      rcases List.mem_cons.mp ha with rfl | ha
      · exact hbefore
      · exact hbefore.trans (hfirst a ha)
    · refine List.pairwise_cons.mpr ⟨fun a ha => ?_, ih hrest⟩
      rcases (mem_upsert hrest).mp ha with rfl | ⟨ha, -⟩
      · exact hafter
      · exact hfirst a ha
    · have hsame : index first = index new := le_antisymm (not_lt.mp hbefore) (not_lt.mp hafter)
      exact List.pairwise_cons.mpr ⟨fun a ha => hsame ▸ hfirst a ha, hrest⟩

/-- A row with a new key is added. -/
theorem upsert_perm (hnew : ∀ row ∈ rows, index row ≠ index new) :
    (upsert index new rows).Perm (new :: rows) := by
  have hnodup {rows : List α} (h : rows.Pairwise fun a b => index a < index b) : rows.Nodup :=
    h.imp fun hlt he => absurd (congrArg index he) hlt.ne
  have hfresh : new ∉ rows := fun hmem => hnew new hmem rfl
  refine (List.perm_ext_iff_of_nodup (hnodup (pairwise_upsert hrows))
    (List.nodup_cons.mpr ⟨hfresh, hnodup hrows⟩)).mpr fun row => ?_
  rw [mem_upsert hrows, List.mem_cons]
  exact or_congr_right ⟨And.left, fun hmem => ⟨hmem, hnew row hmem⟩⟩

/-- A row with a known key is replaced. -/
theorem length_upsert_of_mem {old : α} (hold : old ∈ rows) (hindex : index old = index new) :
    (upsert index new rows).length = rows.length := by
  induction rows with
  | nil => cases hold
  | cons first rows ih =>
    obtain ⟨hfirst, hrest⟩ := List.pairwise_cons.mp hrows
    rw [upsert]
    rcases List.mem_cons.mp hold with rfl | hold
    · rw [hindex, if_neg (lt_irrefl _), if_neg (lt_irrefl _)]
      rfl
    · have hlt : index first < index new := hindex ▸ hfirst old hold
      rw [if_neg hlt.asymm, if_pos hlt, List.length_cons, ih hrest hold, List.length_cons]

end

end Ordered

end Table
