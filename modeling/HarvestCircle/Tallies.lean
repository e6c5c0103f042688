import Mathlib.Algebra.Ring.Nat
import Mathlib.Algebra.BigOperators.Group.List.Basic
import Mathlib.Algebra.Order.BigOperators.Group.List
import Mathlib.Algebra.Order.Group.Nat
import HarvestCircle.Checked

/-! # Tallies

A tally is a map in which a loop adds up amounts by key.  Its values may be of any type that
is read as a number; whether an amount can be added is the loop's own affair.  After any
number of rows the tally has the keys of the rows, each with what its rows add up to
(`Counts`).
-/
namespace Tallies
variable {κ β : Type} [DecidableEq κ]

/-- What the rows of a key add up to. -/
def total (rows : List (κ × Nat)) (k : κ) : Nat :=
  ((rows.filter fun row => row.1 = k).map Prod.snd).sum

@[simp] theorem total_nil (k : κ) : total [] k = 0 := rfl

theorem total_append (rows rows' : List (κ × Nat)) (k : κ) :
    total (rows ++ rows') k = total rows k + total rows' k := by
  simp [total]

theorem total_singleton (k k' : κ) (a : Nat) : total [(k, a)] k' = if k = k' then a else 0 := by
  by_cases hk : k = k' <;> simp [total, hk]

theorem total_eq_zero {rows : List (κ × Nat)} {k : κ} (h : k ∉ rows.map Prod.fst) :
    total rows k = 0 := by
  have hnone : rows.filter (fun row => row.1 = k) = [] := by
    rw [List.filter_eq_nil_iff]
    intro row hrow hkey
    exact h (List.mem_map.mpr ⟨row, hrow, by simpa using hkey⟩)
  simp [total, hnone]

theorem total_perm {rows rows' : List (κ × Nat)} (h : rows.Perm rows') (k : κ) :
    total rows k = total rows' k :=
  ((h.filter _).map _).sum_eq

theorem total_le_sum (rows : List (κ × Nat)) (k : κ) : total rows k ≤ (rows.map Prod.snd).sum :=
  List.Sublist.sum_le_sum (List.filter_sublist.map _) (by simp)

/-- Rows that all have the key. -/
theorem total_same {k : κ} (amounts : List Nat) :
    total (amounts.map (Prod.mk k)) k = amounts.sum := by
  induction amounts with
  | nil => rfl
  | cons a amounts ih =>
    rw [List.map_cons, ← List.singleton_append, total_append, total_singleton, if_pos rfl, ih,
      List.sum_cons]

theorem total_filter (p : κ → Prop) [DecidablePred p] (rows : List (κ × Nat)) (k : κ) :
    total (rows.filter fun row => p row.1) k = if p k then total rows k else 0 := by
  by_cases hk : p k
  · rw [if_pos hk, total, total, List.filter_filter]
    refine congrArg (fun l : List (κ × Nat) => (l.map Prod.snd).sum) (List.filter_congr ?_)
    intro row _
    by_cases hrow : row.1 = k
    · simp [hrow, hk]
    · simp [hrow]
  · rw [if_neg hk, total_eq_zero]
    intro hmem
    obtain ⟨row, hrow, rfl⟩ := List.mem_map.mp hmem
    exact hk (by simpa using (List.mem_filter.mp hrow).2)

/-- Values that are dealt out to owners by key, where every key has one owner. -/
theorem flatMap_filter_perm {α : Type} {owners : List α} {owner : α → κ} {key : β → κ}
    (howners : (owners.map owner).Nodup) {l : List β} (hl : ∀ b ∈ l, key b ∈ owners.map owner) :
    (owners.flatMap fun a => l.filter fun b => key b = owner a).Perm l := by
  induction owners generalizing l with
  | nil =>
    obtain rfl : l = [] := List.eq_nil_iff_forall_not_mem.mpr fun b hb => by simpa using hl b hb
    simp
  | cons a owners ih =>
    obtain ⟨hfresh, hrest⟩ := List.nodup_cons.mp howners
    -- the others get nothing of what the first owner gets
    have hothers : owners.flatMap (fun c => l.filter fun b => key b = owner c) =
        owners.flatMap (fun c => (l.filter fun b => key b ≠ owner a).filter
          fun b => key b = owner c) := by
      refine List.flatMap_congr fun c hc => ?_
      rw [List.filter_filter]
      refine List.filter_congr fun b _ => ?_
      by_cases hb : key b = owner c
      · have hne : key b ≠ owner a := fun heq =>
          hfresh (heq ▸ hb ▸ List.mem_map_of_mem (f := owner) hc)
        simp [hb, hb ▸ hne]
      · simp [hb]
    have hperm := ih hrest (l := l.filter fun b => key b ≠ owner a) fun b hb => by
      obtain ⟨hmem, hne⟩ := List.mem_filter.mp hb
      exact (List.mem_cons.mp (hl b hmem)).resolve_left (by simpa using hne)
    rw [List.flatMap_cons, hothers]
    refine (hperm.append_left _).trans ?_
    simpa only [ne_eq, decide_not] using
      List.filter_append_perm (fun b => decide (key b = owner a)) l

/-- The totals of all owners are the total of all rows. -/
theorem sum_total {α : Type} {owners : List α} {owner : α → κ}
    (howners : (owners.map owner).Nodup) {rows : List (κ × Nat)}
    (hrows : ∀ row ∈ rows, row.1 ∈ owners.map owner) :
    (owners.map fun a => total rows (owner a)).sum = (rows.map Prod.snd).sum := by
  have hperm := flatMap_filter_perm howners hrows
  rw [← (hperm.map Prod.snd).sum_eq, List.map_flatMap, List.flatMap_def, List.sum_flatten,
    List.map_map]
  rfl

end Tallies

namespace Tallies
variable {κ β : Type} [LinearOrder κ]

/-- The map has the keys of the rows, each with its total. -/
structure Counts (value : β → Nat) (m : Std.TreeMap κ β) (rows : List (κ × Nat)) : Prop where
  keys : ∀ k, k ∈ m ↔ k ∈ rows.map Prod.fst
  amounts : ∀ k v, m[k]? = some v → value v = total rows k

variable {value : β → Nat} {m : Std.TreeMap κ β} {rows : List (κ × Nat)}

theorem counts_empty : Counts value (∅ : Std.TreeMap κ β) [] := ⟨by simp, by simp⟩

/-- What the map reads at a key, where a missing key counts nothing. -/
theorem Counts.getD (h : Counts value m rows) {zero : β} (hzero : value zero = 0) (k : κ) :
    value (m[k]?.getD zero) = total rows k := by
  cases hv : m[k]? with
  | none =>
    have hmem : k ∉ rows.map Prod.fst := by
      rw [← h.keys, Std.TreeMap.mem_iff_isSome_getElem?, hv]
      simp
    rw [Option.getD_none, hzero, total_eq_zero hmem]
  | some v => exact h.amounts k v hv

theorem Counts.isEmpty_iff (h : Counts value m rows) : m.isEmpty = true ↔ rows = [] := by
  rw [Std.TreeMap.isEmpty_iff_forall_not_mem, List.eq_nil_iff_forall_not_mem]
  constructor
  · intro hnone row hrow
    exact hnone row.1 ((h.keys row.1).mpr (List.mem_map_of_mem hrow))
  · intro hnone k hk
    obtain ⟨row, hrow, -⟩ := List.mem_map.mp ((h.keys k).mp hk)
    exact hnone row hrow

/-- What the map has at a key. -/
theorem Counts.getElem?_eq_some (h : Counts value m rows) (hvalue : Function.Injective value)
    {k : κ} {v : β} : m[k]? = some v ↔ k ∈ rows.map Prod.fst ∧ total rows k = value v := by
  rw [← h.keys, Std.TreeMap.mem_iff_isSome_getElem?, Option.isSome_iff_exists]
  constructor
  · intro hv
    exact ⟨⟨v, hv⟩, (h.amounts k v hv).symm⟩
  · rintro ⟨⟨v', hv'⟩, htotal⟩
    rw [hv', hvalue ((h.amounts k v' hv').trans htotal)]

variable [Std.LawfulEqOrd κ]

theorem Counts.insert (h : Counts value m rows) {k : κ} {v : β} {a : Nat}
    (hv : value v = total rows k + a) : Counts value (m.insert k v) (rows ++ [(k, a)]) where
  keys k' := by
    rw [Std.TreeMap.mem_insert, h.keys, Std.LawfulEqCmp.compare_eq_iff_eq]
    simp [or_comm, eq_comm]
  amounts k' v' hv' := by
    rw [total_append, total_singleton]
    rw [Std.TreeMap.getElem?_insert] at hv'
    by_cases hk : k = k'
    · subst hk
      rw [if_pos Std.ReflCmp.compare_self, Option.some.injEq] at hv'
      rw [if_pos rfl, ← hv', hv]
    · rw [if_neg (fun heq => hk (Std.LawfulEqCmp.eq_of_compare heq))] at hv'
      rw [if_neg hk, Nat.add_zero, h.amounts k' v' hv']

theorem Counts.erase (h : Counts value m rows) (k : κ) :
    Counts value (m.erase k) (rows.filter fun row => row.1 ≠ k) where
  keys k' := by
    rw [Std.TreeMap.mem_erase, h.keys, Ne, Std.LawfulEqCmp.compare_eq_iff_eq]
    simp only [List.mem_map, List.mem_filter, decide_eq_true_eq]
    constructor
    · rintro ⟨hne, row, hrow, rfl⟩
      exact ⟨row, ⟨hrow, Ne.symm hne⟩, rfl⟩
    · rintro ⟨row, ⟨hrow, hne⟩, rfl⟩
      exact ⟨Ne.symm hne, row, hrow, rfl⟩
  amounts k' v hv := by
    rw [Std.TreeMap.getElem?_erase] at hv
    split at hv
    · cases hv
    · rename_i hne
      have hk : k' ≠ k := fun heq => hne (heq ▸ Std.ReflCmp.compare_self)
      rw [total_filter (· ≠ k), if_pos hk, h.amounts k' v hv]

end Tallies
