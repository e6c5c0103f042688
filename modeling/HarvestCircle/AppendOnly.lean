import Mathlib.Data.List.Forall2

/-! # Lists that only grow

The entries of a list stay where they are.  An entry may change in the ways that are
allowed to it, and new entries come after the old ones.
-/
namespace AppendOnly
variable {α : Type} {R : α → α → Prop} {l l' l'' : List α}

/-- Each entry of `l` stays in place, changed at most by `R`, and others come after them. -/
def Grows (R : α → α → Prop) (l l' : List α) : Prop :=
  ∃ kept more, l' = kept ++ more ∧ List.Forall₂ R l kept

theorem forall₂_trans (htrans : ∀ a b c, R a b → R b c → R a c) (h : List.Forall₂ R l l')
    (h' : List.Forall₂ R l' l'') : List.Forall₂ R l l'' := by
  induction h generalizing l'' with
  | nil =>
    cases h'
    exact .nil
  | cons hab _ ih =>
    cases h' with
    | cons hbc hrest => exact .cons (htrans _ _ _ hab hbc) (ih hrest)

theorem grows_refl (hrefl : ∀ a, R a a) (l : List α) : Grows R l l :=
  ⟨l, [], (List.append_nil l).symm, List.forall₂_same.mpr fun a _ => hrefl a⟩

theorem Grows.trans (htrans : ∀ a b c, R a b → R b c → R a c) (h : Grows R l l')
    (h' : Grows R l' l'') : Grows R l l'' := by
  obtain ⟨kept, more, rfl, hkept⟩ := h
  obtain ⟨kept', more', rfl, hkept'⟩ := h'
  -- what became of the entries that were kept so far
  have hfirst : List.Forall₂ R kept (kept'.take kept.length) := by
    simpa using List.forall₂_take kept.length hkept'
  refine ⟨kept'.take kept.length, kept'.drop kept.length ++ more', ?_, ?_⟩
  · rw [← List.append_assoc, List.take_append_drop]
  · exact forall₂_trans htrans hkept hfirst

/-- New entries at the end. -/
theorem grows_append (hrefl : ∀ a, R a a) (l more : List α) : Grows R l (l ++ more) :=
  ⟨l, more, rfl, List.forall₂_same.mpr fun a _ => hrefl a⟩

/-- The last entry changes, and new ones may follow it. -/
theorem grows_last (hrefl : ∀ a, R a a) {a b : α} (h : R a b) (l more : List α) :
    Grows R (l ++ [a]) (l ++ b :: more) := by
  refine ⟨l ++ [b], more, (List.append_assoc l [b] more).symm, ?_⟩
  exact List.rel_append (List.forall₂_same.mpr fun a _ => hrefl a) (.cons h .nil)

end AppendOnly
