import Mathlib.Data.Finset.Basic
import Mathlib.Data.List.Chain

/-! # Descent in a parent forest

Nodes carry a key and possibly the key of a parent.  Some nodes are chosen
(`base`), and some nodes pass membership on from their parent (`edge`): a key
belongs when its node is chosen, or passes membership on and its parent belongs
(`Member`).

Two programs compute this.  `sweep` goes through a list once and asks of each node
whether its parent is already in; it is right as soon as no parent comes after
its child (`mem_sweep`).  `climb` starts at one key and follows parents; it stops
at the goal, at a node that does not pass membership on, or at a root, and it
needs no more steps than the rank of the key it starts from (`climb_stops`).

Membership of a key is settled by the part of the forest above it, so nodes
added below never change it (`member_extend_iff`).
-/
namespace Descent
variable {ν κ : Type}

/-- How a node is named and what it hangs from. -/
structure Family (ν κ : Type) where
  key : ν → κ
  parent : ν → Option κ

namespace Family
variable (F : Family ν κ) (edge base : ν → Prop)

/-- The keys that belong: chosen, or passed on from a parent that belongs. -/
inductive Member (l : List ν) : κ → Prop where
  | base {n : ν} : n ∈ l → base n → Member l (F.key n)
  | inherit {n : ν} {p : κ} : n ∈ l → edge n → F.parent n = some p → Member l p →
      Member l (F.key n)

/-- Every parent named by a node of `l` is itself in `l`. -/
def Closed (l : List ν) : Prop :=
  ∀ n ∈ l, ∀ p, F.parent n = some p → ∃ m ∈ l, F.key m = p

variable {F edge base}

theorem Member.exists_node {l : List ν} {k : κ} (h : F.Member edge base l k) :
    ∃ n ∈ l, F.key n = k := by
  cases h with
  | base hn _ => exact ⟨_, hn, rfl⟩
  | inherit hn _ _ _ => exact ⟨_, hn, rfl⟩

/-- Membership only reads keys, parents and the two predicates. -/
theorem Member.mono {edge' base' : ν → Prop} {l l' : List ν} {k : κ}
    (hsub : ∀ n ∈ l, ∃ n' ∈ l', F.key n' = F.key n ∧ F.parent n' = F.parent n ∧
      (edge n → edge' n') ∧ (base n → base' n'))
    (h : F.Member edge base l k) : F.Member edge' base' l' k := by
  induction h with
  | base hn hb =>
    obtain ⟨n', hn', hkey, _, _, hbase⟩ := hsub _ hn
    exact hkey ▸ .base hn' (hbase hb)
  | inherit hn he hp _ ih =>
    obtain ⟨n', hn', hkey, hparent, hedge, _⟩ := hsub _ hn
    exact hkey ▸ .inherit hn' (hedge he) (hparent.trans hp) ih

/-- A family of choices: a key belongs to their union when it belongs to one of them. -/
theorem member_exists_iff {ι : Type} {I : List ι} {base' : ι → ν → Prop} {l : List ν} {k : κ} :
    F.Member edge (fun n => ∃ i ∈ I, base' i n) l k ↔ ∃ i ∈ I, F.Member edge (base' i) l k := by
  constructor
  · intro h
    induction h with
    | base hn hb =>
      obtain ⟨i, hi, hb⟩ := hb
      exact ⟨i, hi, .base hn hb⟩
    | inherit hn he hp _ ih =>
      obtain ⟨i, hi, hmem⟩ := ih
      exact ⟨i, hi, .inherit hn he hp hmem⟩
  · rintro ⟨i, hi, h⟩
    exact h.mono fun n hn => ⟨n, hn, rfl, rfl, id, fun hb => ⟨i, hi, hb⟩⟩

/-- With unique keys, membership of a node is decided at that node. -/
theorem member_iff {l : List ν} (hkeys : ∀ a ∈ l, ∀ b ∈ l, F.key a = F.key b → a = b)
    {n : ν} (hn : n ∈ l) :
    F.Member edge base l (F.key n) ↔
      base n ∨ (edge n ∧ ∃ p, F.parent n = some p ∧ F.Member edge base l p) := by
  constructor
  · intro h
    generalize hk : F.key n = k at h
    cases h with
    | base hm hb =>
      obtain rfl := hkeys n hn _ hm hk
      exact .inl hb
    | inherit hm he hp hmem =>
      obtain rfl := hkeys n hn _ hm hk
      exact .inr ⟨he, _, hp, hmem⟩
  · rintro (hb | ⟨he, p, hp, hmem⟩)
    · exact .base hn hb
    · exact .inherit hn he hp hmem

/-- **Later nodes change nothing above them.**  When every node of a closed forest
`l` still has its counterpart in `l'`, the membership of every key of `l` is the same
in both, whatever else `l'` holds. -/
theorem member_extend_iff {edge' base' : ν → Prop} {l l' : List ν} (hclosed : F.Closed l)
    (hkeys : ∀ a ∈ l', ∀ b ∈ l', F.key a = F.key b → a = b)
    (hkept : ∀ n ∈ l, ∃ n' ∈ l', F.key n' = F.key n ∧ F.parent n' = F.parent n ∧
      (edge n ↔ edge' n') ∧ (base n ↔ base' n')) {n : ν} (hn : n ∈ l) :
    F.Member edge' base' l' (F.key n) ↔ F.Member edge base l (F.key n) := by
  constructor
  · intro h
    -- induction over the derivation: each parent it passes through is old again
    have general : ∀ k, F.Member edge' base' l' k → ∀ m ∈ l, F.key m = k →
        F.Member edge base l k := by
      intro k hk
      induction hk with
      | @base a ha hb =>
        intro m hm hkey
        obtain ⟨m', hm', hkey', _, _, hbase⟩ := hkept m hm
        obtain rfl := hkeys a ha m' hm' (hkey.symm.trans hkey'.symm)
        exact hkey ▸ .base hm (hbase.mpr hb)
      | @inherit a p ha he hp _ ih =>
        intro m hm hkey
        obtain ⟨m', hm', hkey', hparent, hedge, _⟩ := hkept m hm
        obtain rfl := hkeys a ha m' hm' (hkey.symm.trans hkey'.symm)
        obtain ⟨q, hq, hqkey⟩ := hclosed m hm p (hparent.symm.trans hp)
        exact hkey ▸ .inherit hm (hedge.mpr he) (hparent.symm.trans hp) (ih q hq hqkey)
    exact general _ h n hn rfl
  · refine Member.mono fun m hm => ?_
    obtain ⟨m', hm', hkey, hparent, hedge, hbase⟩ := hkept m hm
    exact ⟨m', hm', hkey, hparent, hedge.mp, hbase.mp⟩

/-! ## One pass in parent-first order -/

section Sweep
variable [DecidableEq κ] (F) (edge base) [DecidablePred edge] [DecidablePred base]

/-- Whether the node enters, given the keys already in. -/
def Enters (included : Finset κ) (n : ν) : Prop :=
  base n ∨ (edge n ∧ ∃ p ∈ F.parent n, p ∈ included)

instance (included : Finset κ) : DecidablePred (F.Enters edge base included) := fun n =>
  inferInstanceAs (Decidable (base n ∨ (edge n ∧ ∃ p ∈ F.parent n, p ∈ included)))

/-- One step of the pass. -/
def sweepStep (included : Finset κ) (n : ν) : Finset κ :=
  if F.Enters edge base included n then insert (F.key n) included else included

/-- The keys that entered, after one pass over the list. -/
def sweep (l : List ν) : Finset κ := l.foldl (F.sweepStep edge base) ∅

variable {F edge base}

theorem sweep_concat (l : List ν) (n : ν) :
    F.sweep edge base (l ++ [n]) = F.sweepStep edge base (F.sweep edge base l) n := by
  simp [sweep]

theorem mem_sweepStep {included : Finset κ} {n : ν} {k : κ} :
    k ∈ F.sweepStep edge base included n ↔
      k ∈ included ∨ (k = F.key n ∧ F.Enters edge base included n) := by
  unfold sweepStep
  split
  · rename_i h
    simp only [Finset.mem_insert, h, and_true]
    exact or_comm
  · rename_i h
    simp [h]

theorem sweep_sound {l : List ν} {k : κ} (h : k ∈ F.sweep edge base l) :
    F.Member edge base l k := by
  induction l using List.reverseRecOn generalizing k with
  | nil => simp [sweep] at h
  | append_singleton l n ih =>
    have keep : ∀ k, F.Member edge base l k → F.Member edge base (l ++ [n]) k := fun k hk =>
      hk.mono fun m hm => ⟨m, List.mem_append_left _ hm, rfl, rfl, id, id⟩
    have hlast : n ∈ l ++ [n] := by simp
    rw [sweep_concat, mem_sweepStep] at h
    rcases h with h | ⟨rfl, hb | ⟨he, p, hp, hin⟩⟩
    · exact keep k (ih h)
    · exact .base hlast hb
    · exact .inherit hlast he hp (keep p (ih hin))

/-- A key that entered did so at its own node. -/
theorem mem_sweep_of_append {pre post : List ν} {k : κ} (hpost : ∀ m ∈ post, F.key m ≠ k)
    (h : k ∈ F.sweep edge base (pre ++ post)) : k ∈ F.sweep edge base pre := by
  induction post using List.reverseRecOn with
  | nil => simpa using h
  | append_singleton post n ih =>
    rw [← List.append_assoc, sweep_concat, mem_sweepStep] at h
    rcases h with h | ⟨hk, _⟩
    · exact ih (fun m hm => hpost m (List.mem_append_left _ hm)) h
    · exact absurd hk.symm (hpost n (by simp))

theorem sweep_mono {pre post : List ν} {k : κ} (h : k ∈ F.sweep edge base pre) :
    k ∈ F.sweep edge base (pre ++ post) := by
  induction post using List.reverseRecOn with
  | nil => simpa using h
  | append_singleton post n ih =>
    rw [← List.append_assoc, sweep_concat, mem_sweepStep]
    exact .inl ih

/-- No parent stands at or after its child. -/
def ParentFirst (l : List ν) : Prop :=
  ∀ pre n post, l = pre ++ n :: post → ∀ p, F.parent n = some p → ∀ m ∈ n :: post, F.key m ≠ p

/-- **One pass computes membership** when parents come first. -/
theorem mem_sweep {l : List ν} (horder : F.ParentFirst l) {k : κ} :
    k ∈ F.sweep edge base l ↔ F.Member edge base l k := by
  refine ⟨sweep_sound, fun h => ?_⟩
  have enter : ∀ pre n post, l = pre ++ n :: post →
      F.Enters edge base (F.sweep edge base pre) n → F.key n ∈ F.sweep edge base l := by
    intro pre n post hl hn
    have hstep : F.key n ∈ F.sweep edge base (pre ++ [n]) := by
      rw [sweep_concat, mem_sweepStep]
      exact .inr ⟨rfl, hn⟩
    have hlist : l = (pre ++ [n]) ++ post := by simpa using hl
    rw [hlist]
    exact sweep_mono hstep
  induction h with
  | @base n hn hb =>
    obtain ⟨pre, post, hl⟩ := List.append_of_mem hn
    exact enter pre n post hl (.inl hb)
  | @inherit n p hn he hp _ ih =>
    obtain ⟨pre, post, hl⟩ := List.append_of_mem hn
    have hpre : p ∈ F.sweep edge base pre :=
      mem_sweep_of_append (horder pre n post hl p hp) (hl ▸ ih)
    exact enter pre n post hl (.inr ⟨he, p, hp, hpre⟩)

end Sweep

/-! ## Following parents from one key -/

section Climb
variable [DecidableEq κ] (F) (edge) [DecidablePred edge]

/-- Follow parents from `k` towards `goal`; `none` when the fuel runs out first. -/
def climb (find : κ → Option ν) (goal : κ) : Nat → κ → Option Bool
  | 0, _ => none
  | fuel + 1, k =>
    match find k with
    | none => some false
    | some n =>
      if k = goal then some true
      else if ¬ edge n then some false
      else
        match F.parent n with
        | none => some false
        | some p => climb find goal fuel p

variable {F edge}

/-- **The walk ends** within the rank of the node it starts from, when parents
have smaller rank. -/
theorem climb_stops {find : κ → Option ν} {goal : κ} (rank : ν → Nat)
    (hrank : ∀ k n p m, find k = some n → F.parent n = some p → find p = some m → rank m < rank n) :
    ∀ fuel k, 0 < fuel → (∀ n, find k = some n → rank n + 1 < fuel) →
      ∃ b, F.climb edge find goal fuel k = some b := by
  intro fuel
  induction fuel with
  | zero => intro k h; exact absurd h (Nat.lt_irrefl 0)
  | succ fuel ih =>
    intro k _ hfuel
    rw [climb]
    cases hk : find k with
    | none => exact ⟨false, rfl⟩
    | some n =>
      dsimp only
      split
      · exact ⟨true, rfl⟩
      split
      · exact ⟨false, rfl⟩
      cases hp : F.parent n with
      | none => exact ⟨false, rfl⟩
      | some p =>
        have hn := hfuel n hk
        refine ih p (by omega) fun m hm => ?_
        have hlt := hrank k n p m hk hp hm
        omega

/-- **A walk that ends answers membership** of the family below `goal`. -/
theorem climb_eq_some {l : List ν} {find : κ → Option ν} {goal : κ}
    (hfind : ∀ k n, find k = some n ↔ n ∈ l ∧ F.key n = k) :
    ∀ fuel k b, F.climb edge find goal fuel k = some b →
      (b = true ↔ F.Member edge (fun n => F.key n = goal) l k) := by
  have hkeys : ∀ a ∈ l, ∀ b ∈ l, F.key a = F.key b → a = b := by
    intro a ha b hb he
    have h1 := (hfind (F.key b) a).mpr ⟨ha, he⟩
    have h2 := (hfind (F.key b) b).mpr ⟨hb, rfl⟩
    exact Option.some.inj (h1.symm.trans h2)
  intro fuel
  induction fuel with
  | zero => intro k b h; cases h
  | succ fuel ih =>
    intro k b h
    rw [climb] at h
    cases hk : find k with
    | none =>
      rw [hk] at h
      obtain rfl := Option.some.inj h
      simp only [Bool.false_eq_true, false_iff]
      intro hmem
      obtain ⟨n, hn, hkey⟩ := hmem.exists_node
      rw [(hfind k n).mpr ⟨hn, hkey⟩] at hk
      cases hk
    | some n =>
      obtain ⟨hn, rfl⟩ := (hfind k n).mp hk
      rw [hk] at h
      dsimp only at h
      rw [member_iff hkeys hn]
      split at h
      · rename_i hgoal
        obtain rfl := Option.some.inj h
        simp [hgoal]
      rename_i hgoal
      split at h
      · rename_i hedge
        obtain rfl := Option.some.inj h
        simp [hgoal, hedge]
      rename_i hedge
      cases hp : F.parent n with
      | none =>
        rw [hp] at h
        obtain rfl := Option.some.inj h
        simp [hgoal]
      | some p =>
        rw [hp] at h
        rw [ih p b h]
        simp only [hgoal, not_not.mp hedge, false_or, true_and, Option.some.injEq,
          exists_eq_left']

/-! ### The chain of parents -/

variable (F) in
/-- The keys from `goal` down to `k`, found by following parents from `k`. -/
def route (find : κ → Option ν) (goal : κ) : Nat → κ → Option (List κ)
  | 0, _ => none
  | fuel + 1, k =>
    if k = goal then some [k]
    else do
      let n ← find k
      let p ← F.parent n
      return (← route find goal fuel p) ++ [k]

variable (F) in
/-- `p` is the parent of `k`. -/
def IsParent (find : κ → Option ν) (p k : κ) : Prop := ∃ n, find k = some n ∧ F.parent n = some p

/-- A route runs from the goal to the key, from parent to child. -/
theorem route_eq_some {find : κ → Option ν} {goal : κ} {fuel : Nat} {k : κ} {path : List κ}
    (h : F.route find goal fuel k = some path) :
    path.head? = some goal ∧ path.getLast? = some k ∧ path.IsChain (F.IsParent find) := by
  induction fuel generalizing k path with
  | zero => cases h
  | succ fuel ih =>
    rw [route] at h
    split at h
    · rename_i hgoal
      obtain rfl := Option.some.inj h
      exact ⟨by rw [hgoal, List.head?_singleton], rfl, .singleton k⟩
    · simp only [Option.bind_eq_bind, Option.bind_eq_some_iff, Option.pure_def,
        Option.some.injEq] at h
      obtain ⟨n, hn, p, hp, rest, hrest, rfl⟩ := h
      obtain ⟨hhead, hlast, hchain⟩ := ih hrest
      refine ⟨by rw [List.head?_append, hhead]; rfl, by simp, ?_⟩
      refine List.isChain_append.mpr ⟨hchain, .singleton k, fun x hx y hy => ?_⟩
      rw [hlast, Option.mem_some_iff] at hx
      rw [List.head?_singleton, Option.mem_some_iff] at hy
      exact hx ▸ hy ▸ ⟨n, hn, hp⟩

end Climb

end Family
end Descent
