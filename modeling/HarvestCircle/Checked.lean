import Mathlib.Data.List.Forall2
import Mathlib.Order.Basic
import Mathlib.Data.List.Sort
import Mathlib.Data.List.Destutter

/-! # Fallible computations, read backwards

A planner is a sequence of checks in `Except`: each one either refuses, and then
the whole plan is refused with that error, or passes and the next one runs.  The
equations here turn "the plan was accepted" into the conjunction of everything
its checks established, and back: `refuse_eq_ok` for one check, `bind_eq_ok` for
a sequence, `forM_eq_ok` for a check made of every element of a list.  `accepted` is
the set of the rules for a sequence of checks, and `passed` that for their conditions.

A loop that carries an accumulator is a `foldlM`.  `foldlM_invariant` is its
invariant rule, `foldlM_succeeds` the rule for proving that it is accepted at
all; both hand the proof the part of the list already consumed.
-/
namespace Checked
variable {ε ε' α β σ : Type}

/-- Stop with `e` when `bad` holds. -/
def refuse (bad : Prop) [Decidable bad] (e : ε) : Except ε Unit :=
  if bad then .error e else .ok ()

/-- The value, or the error that stands for its absence. -/
def okOr (x : Option α) (e : ε) : Except ε α :=
  match x with
  | some a => .ok a
  | none => .error e

/-- The same outcome with the error translated. -/
def mapErr (f : ε → ε') (x : Except ε α) : Except ε' α :=
  match x with
  | .ok a => .ok a
  | .error e => .error (f e)

/-- The same outcome, with its value carrying the proof that this computation gave it. -/
def attach (x : Except ε α) : Except ε { a : α // x = .ok a } :=
  match x with
  | .ok a => .ok ⟨a, rfl⟩
  | .error e => .error e

variable {u : Unit} {κ : Type}

@[simp] theorem refuse_eq_ok {bad : Prop} [Decidable bad] {e : ε} :
    refuse bad e = .ok u ↔ ¬ bad := by
  by_cases h : bad <;> simp [refuse, h]

@[simp] theorem okOr_eq_ok {x : Option α} {e : ε} {a : α} :
    okOr x e = .ok a ↔ x = some a := by
  cases x <;> simp [okOr]

@[simp] theorem mapErr_eq_ok {f : ε → ε'} {x : Except ε α} {a : α} :
    mapErr f x = .ok a ↔ x = .ok a := by
  cases x <;> simp [mapErr]

@[simp] theorem bind_eq_ok {x : Except ε α} {f : α → Except ε β} {b : β} :
    (x >>= f) = .ok b ↔ ∃ a, x = .ok a ∧ f a = .ok b := by
  cases x <;> simp [bind, Except.bind]

theorem map_eq_ok {x : Except ε α} {f : α → β} {b : β} :
    x.map f = .ok b ↔ ∃ a, x = .ok a ∧ f a = b := by
  cases x <;> simp [Except.map]

theorem attach_bind_eq_ok {x : Except ε α} {f : { a : α // x = .ok a } → Except ε β} {b : β} :
    attach x >>= f = .ok b ↔ ∃ a, ∃ h : x = .ok a, f ⟨a, h⟩ = .ok b := by
  cases x with
  | error e => simp [attach]
  | ok a =>
    constructor
    · exact fun h => ⟨a, rfl, h⟩
    · rintro ⟨_, h, hf⟩
      cases h
      exact hf

@[simp] theorem pure_eq_ok {a b : α} : (pure a : Except ε α) = .ok b ↔ a = b := by
  simp [pure, Except.pure]

@[simp] theorem throw_ne_ok {e : ε} {a : α} : (throw e : Except ε α) ≠ .ok a := by
  simp [throw, throwThe, MonadExceptOf.throw]

/-- Success with a value nobody looks at is success. -/
@[simp] theorem exists_unit_and {p : Unit → Prop} : (∃ u, p u) ↔ p () :=
  ⟨fun ⟨_, h⟩ => h, fun h => ⟨(), h⟩⟩

/-- The rules together, to take a plan apart: `simp only [plan, accepted] at h`. -/
theorem accepted :
    (∀ {ε α β : Type} {x : Except ε α} {f : α → Except ε β} {b : β},
      (x >>= f) = .ok b ↔ ∃ a, x = .ok a ∧ f a = .ok b) ∧
    (∀ {ε α : Type} {a b : α}, (pure a : Except ε α) = .ok b ↔ a = b) ∧
    (∀ {ε : Type} {bad : Prop} [Decidable bad] {e : ε} {u : Unit}, refuse bad e = .ok u ↔ ¬ bad) ∧
    (∀ {ε ε' α : Type} {f : ε → ε'} {x : Except ε α} {a : α}, mapErr f x = .ok a ↔ x = .ok a) ∧
    (∀ {ε α : Type} {x : Option α} {e : ε} {a : α}, okOr x e = .ok a ↔ x = some a) ∧
    ∀ {p : Unit → Prop}, (∃ u, p u) ↔ p () :=
  ⟨bind_eq_ok, pure_eq_ok, refuse_eq_ok, mapErr_eq_ok, okOr_eq_ok, exists_unit_and⟩

/-- What a check that passed says: the rules to negate the condition it refuses. -/
theorem passed :
    (∀ {a b : Prop}, ¬ (a ∨ b) ↔ ¬ a ∧ ¬ b) ∧ (∀ {a : Prop}, ¬ ¬ a ↔ a) ∧
    (∀ {α : Type} {a b : α}, a ≠ b ↔ ¬ a = b) ∧
    (∀ {α : Type} [LT α] {a b : α}, a > b ↔ b < a) ∧
    (∀ {α : Type} [LE α] {a b : α}, a ≥ b ↔ b ≤ a) ∧
    (∀ {α : Type} [LinearOrder α] {a b : α}, ¬ a < b ↔ b ≤ a) ∧
    ∀ {α : Type} [LinearOrder α] {a b : α}, ¬ a ≤ b ↔ b < a :=
  ⟨not_or, not_not, Iff.rfl, Iff.rfl, Iff.rfl, not_lt, not_le⟩

@[simp] theorem ok_bind {a : α} {f : α → Except ε β} : (Except.ok a >>= f) = f a := rfl

theorem forM_eq_ok {l : List α} {f : α → Except ε Unit} :
    l.forM f = .ok u ↔ ∀ a ∈ l, f a = .ok () := by
  induction l with
  | nil => simp [List.forM]
  | cons a l ih =>
    change (f a >>= fun _ => l.forM f) = .ok u ↔ _
    rw [bind_eq_ok]
    simp only [ih, exists_unit_and, List.mem_cons, forall_eq_or_imp]

/-- **The invariant rule of a checked loop.**  `P done s` speaks of the elements
already consumed and the accumulator they produced; the step may use where in
the list it stands. -/
theorem foldlM_invariant {f : σ → α → Except ε σ} (P : List α → σ → Prop) {l : List α} {s s' : σ}
    (hinit : P [] s)
    (step : ∀ done a rest t t', l = done ++ a :: rest → P done t → f t a = .ok t' →
      P (done ++ [a]) t')
    (hrun : l.foldlM f s = .ok s') : P l s' := by
  have general : ∀ (rest done : List α) (t : σ), l = done ++ rest → P done t →
      rest.foldlM f t = .ok s' → P l s' := by
    intro rest
    induction rest with
    | nil =>
      intro done t hl hP hf
      simp only [List.foldlM_nil, pure_eq_ok] at hf
      rwa [hl, List.append_nil, ← hf]
    | cons a rest ih =>
      intro done t hl hP hf
      rw [List.foldlM_cons, bind_eq_ok] at hf
      obtain ⟨t', ht', hrest⟩ := hf
      exact ih (done ++ [a]) t' (by simpa using hl) (step done a rest t t' hl hP ht') hrest
  exact general l [] s rfl hinit hrun

/-- A history is replayed from its start, one entry after the other. -/
def replay (start : Except ε σ) (step : σ → α → Except ε σ) (history : List α) : Except ε σ := do
  let state ← start
  history.foldlM step state

section Replay
variable {start : Except ε σ} {step : σ → α → Except ε σ} {earlier later : List α} {a : α} {s : σ}

theorem replay_concat : replay start step (earlier ++ [a]) = .ok s ↔
    ∃ before, replay start step earlier = .ok before ∧ step before a = .ok s := by
  simp only [replay, List.foldlM_append, List.foldlM_cons, List.foldlM_nil, bind_eq_ok, pure_eq_ok,
    exists_eq_right]
  constructor
  · rintro ⟨state, hstart, before, hbefore, hstep⟩
    exact ⟨before, ⟨state, hstart, hbefore⟩, hstep⟩
  · rintro ⟨before, ⟨state, hstart, hbefore⟩, hstep⟩
    exact ⟨state, hstart, before, hbefore, hstep⟩

/-- Every entry of a replayed history was entered after those before it. -/
theorem exists_of_replay (h : replay start step (earlier ++ a :: later) = .ok s) :
    ∃ before after, replay start step earlier = .ok before ∧ step before a = .ok after := by
  simp only [replay, List.foldlM_append, List.foldlM_cons, bind_eq_ok] at h
  obtain ⟨state, hstart, before, hbefore, after, hafter, -⟩ := h
  exact ⟨before, after, bind_eq_ok.mpr ⟨state, hstart, hbefore⟩, hafter⟩

end Replay

/-- **A checked loop runs to its end** when its invariant lets every step pass
and is kept by it. -/
theorem foldlM_succeeds {f : σ → α → Except ε σ} (P : List α → σ → Prop) {l : List α} {s : σ}
    (hinit : P [] s)
    (step : ∀ done a rest t, l = done ++ a :: rest → P done t →
      ∃ t', f t a = .ok t' ∧ P (done ++ [a]) t') :
    ∃ s', l.foldlM f s = .ok s' ∧ P l s' := by
  have general : ∀ (rest done : List α) (t : σ), l = done ++ rest → P done t →
      ∃ s', rest.foldlM f t = .ok s' ∧ P l s' := by
    intro rest
    induction rest with
    | nil =>
      intro done t hl hP
      exact ⟨t, rfl, by rwa [hl, List.append_nil]⟩
    | cons a rest ih =>
      intro done t hl hP
      obtain ⟨t', ht', hP'⟩ := step done a rest t hl hP
      obtain ⟨s', hs', hPs⟩ := ih (done ++ [a]) t' (by simpa using hl) hP'
      exact ⟨s', by rw [List.foldlM_cons, ht', ok_bind, hs'], hPs⟩
  exact general l [] s rfl hinit

/-- **A computation as a test.**  It passes exactly when `P` holds, and what it returns then
satisfies `Q`. -/
@[mk_iff] structure Tests (x : Except ε α) (P : Prop) (Q : α → Prop) : Prop where
  passes : (∃ a, x = .ok a) ↔ P
  keeps : ∀ a, x = .ok a → Q a

section
variable {x : Except ε α} {P P' : Prop} {Q : α → Prop}

theorem Tests.congr (h : Tests x P Q) (hiff : P ↔ P') : Tests x P' Q :=
  ⟨h.passes.trans hiff, h.keeps⟩

/-- One test after the other, where the second is only about what passes the first. -/
theorem Tests.bind {f : α → Except ε β} {R : β → Prop} (h : Tests x P Q) (hfirst : P' → P)
    (hsecond : P → ∀ a, Q a → Tests (f a) P' R) : Tests (x >>= f) P' R := by
  simp only [tests_iff, bind_eq_ok]
  constructor
  · constructor
    · rintro ⟨b, a, ha, hb⟩
      exact (hsecond (h.passes.mp ⟨a, ha⟩) a (h.keeps a ha)).passes.mp ⟨b, hb⟩
    · intro hP'
      obtain ⟨a, ha⟩ := h.passes.mpr (hfirst hP')
      obtain ⟨b, hb⟩ := (hsecond (hfirst hP') a (h.keeps a ha)).passes.mpr hP'
      exact ⟨b, a, ha, hb⟩
  · rintro b ⟨a, ha, hb⟩
    exact (hsecond (h.passes.mp ⟨a, ha⟩) a (h.keeps a ha)).keeps b hb

end

/-- **A checked loop as a test.**  If each step passes exactly when `P` holds of the list with its
element, the loop passes exactly when `P` holds of the whole list.  `Q` is what the accumulator
knows. -/
theorem foldlM_tests {f : σ → α → Except ε σ} (P : List α → Prop) (Q : List α → σ → Prop)
    {l : List α} {s : σ} (hmono : ∀ done rest, P (done ++ rest) → P done)
    (hstep : ∀ done a rest s, l = done ++ a :: rest → P done → Q done s →
      Tests (f s a) (P (done ++ [a])) (Q (done ++ [a])))
    (hP : P []) (hQ : Q [] s) : Tests (l.foldlM f s) (P l) (Q l) := by
  have hrun : ∀ s', l.foldlM f s = .ok s' → P l ∧ Q l s' := fun s' h => by
    refine foldlM_invariant (fun done s => P done ∧ Q done s) ⟨hP, hQ⟩ ?_ h
    rintro done a rest t t' hsplit ⟨hdone, ht⟩ hf
    obtain ⟨htest, hkept⟩ := hstep done a rest t hsplit hdone ht
    exact ⟨htest.mp ⟨t', hf⟩, hkept t' hf⟩
  refine ⟨⟨fun ⟨s', h⟩ => (hrun s' h).1, fun hl => ?_⟩, fun s' h => (hrun s' h).2⟩
  obtain ⟨s', hs', -⟩ := foldlM_succeeds (fun done s => P done ∧ Q done s) ⟨hP, hQ⟩
    (f := f) (l := l) fun done a rest t hsplit ⟨hdone, ht⟩ => by
      obtain ⟨htest, hkept⟩ := hstep done a rest t hsplit hdone ht
      have hnext : P (done ++ [a]) := hmono _ rest (by simpa [hsplit] using hl)
      obtain ⟨t', ht'⟩ := htest.mpr hnext
      exact ⟨t', ht', hnext, hkept t' ht'⟩
  exact ⟨s', hs'⟩

/-- A loop none of whose steps can fail. -/
theorem foldlM_total {f : σ → α → Except ε σ} {l : List α}
    (step : ∀ a ∈ l, ∀ t, ∃ t', f t a = .ok t') (s : σ) : ∃ s', l.foldlM f s = .ok s' := by
  obtain ⟨s', hs', -⟩ := foldlM_succeeds (f := f) (l := l) (s := s) (fun _ _ => True) trivial
    fun done a rest t hl _ => by
      obtain ⟨t', ht'⟩ := step a (by simp [hl]) t
      exact ⟨t', ht', trivial⟩
  exact ⟨s', hs'⟩

theorem exists_of_isOk {r : Except ε α} (h : r.isOk = true) : ∃ a, r = .ok a := by
  cases r with
  | error e => cases h
  | ok a => exact ⟨a, rfl⟩

/-- A loop whose steps do all that another's do. -/
theorem foldlM_imp {f g : σ → α → Except ε σ} {l : List α}
    (step : ∀ a ∈ l, ∀ s s', f s a = .ok s' → g s a = .ok s')
    {s s' : σ} (h : l.foldlM f s = .ok s') : l.foldlM g s = .ok s' := by
  induction l generalizing s with
  | nil => exact h
  | cons a l ih =>
    rw [List.foldlM_cons, bind_eq_ok] at h ⊢
    obtain ⟨t, ht, hrest⟩ := h
    exact ⟨t, step a List.mem_cons_self s t ht,
      ih (fun b hb => step b (List.mem_cons_of_mem _ hb)) hrest⟩

/-- A loop that ended well has passed each element. -/
theorem exists_step_of_foldlM {f : σ → α → Except ε σ} {l : List α} {s s' : σ}
    (h : l.foldlM f s = .ok s') {a : α} (ha : a ∈ l) : ∃ t t', f t a = .ok t' := by
  refine foldlM_invariant (fun done _ => ∀ b ∈ done, ∃ t t', f t b = .ok t') (by simp) ?_ h a ha
  intro done b rest t t' _ hdone hstep c hc
  rcases List.mem_append.mp hc with hc | hc
  · exact hdone c hc
  · exact ⟨t, t', List.mem_singleton.mp hc ▸ hstep⟩

/-- A loop that checks each element and updates its state without failing. -/
theorem foldlM_check {check : α → Except ε Unit} {f : σ → α → σ} (l : List α) (s s' : σ) :
    l.foldlM (fun t a => do check a; return f t a) s = .ok s' ↔
      (∀ a ∈ l, check a = .ok ()) ∧ l.foldl f s = s' := by
  induction l generalizing s with
  | nil => simp
  | cons a l ih =>
    simp only [List.foldlM_cons, bind_eq_ok, exists_unit_and, pure_eq_ok, List.mem_cons,
      forall_eq_or_imp, List.foldl_cons, and_assoc, ← ih]
    constructor
    · rintro ⟨_, ha, rfl, hl⟩
      exact ⟨ha, hl⟩
    · rintro ⟨ha, hl⟩
      exact ⟨f s a, ha, rfl, hl⟩

/-- A fallible map succeeds when it does at every element, in order. -/
theorem mapM_eq_ok {f : α → Except ε β} {l : List α} {l' : List β} :
    l.mapM f = .ok l' ↔ List.Forall₂ (fun a b => f a = .ok b) l l' := by
  induction l generalizing l' with
  | nil => simp only [List.mapM_nil, pure_eq_ok, List.forall₂_nil_left_iff]; exact eq_comm
  | cons a l ih =>
    simp only [List.mapM_cons, bind_eq_ok, pure_eq_ok, List.forall₂_cons_left_iff, ih]
    constructor
    · rintro ⟨b, hb, bs, hbs, rfl⟩
      exact ⟨b, bs, hb, hbs, rfl⟩
    · rintro ⟨b, bs, hb, hbs, rfl⟩
      exact ⟨b, hb, bs, hbs, rfl⟩

theorem mapM_succeeds {f : α → Except ε β} {l : List α} (h : ∀ a ∈ l, ∃ b, f a = .ok b) :
    ∃ l', l.mapM f = .ok l' := by
  induction l with
  | nil => exact ⟨[], rfl⟩
  | cons a l ih =>
    obtain ⟨b, hb⟩ := h a List.mem_cons_self
    obtain ⟨l', hl'⟩ := ih fun a ha => h a (List.mem_cons_of_mem _ ha)
    exact ⟨b :: l', by rw [List.mapM_cons, hb, ok_bind, hl', ok_bind]; rfl⟩

/-- A fallible step on an optional value. -/
theorem option_mapM_eq_ok {f : α → Except ε β} {x : Option α} {y : Option β} :
    x.mapM f = .ok y ↔ (x = none ∧ y = none) ∨ ∃ a b, x = some a ∧ y = some b ∧ f a = .ok b := by
  cases x with
  | none =>
    simp only [Option.mapM_none, pure_eq_ok, reduceCtorEq, false_and, exists_false, or_false,
      true_and]
    exact eq_comm
  | some a =>
    cases h : f a with
    | error e => simp [Option.mapM_some, h, Functor.map, Except.map]
    | ok b => simp [Option.mapM_some, h, Functor.map, Except.map, eq_comm]

theorem mem_of_mapM {f : α → Except ε β} {l : List α} {l' : List β} (h : l.mapM f = .ok l')
    (b : β) : b ∈ l' ↔ ∃ a ∈ l, f a = .ok b := by
  rw [mapM_eq_ok] at h
  induction h with
  | nil => simp
  | cons hab _ ih =>
    simp only [List.mem_cons, ih, exists_eq_or_imp, hab, Except.ok.injEq]
    exact or_congr_left eq_comm

/-- Related lists pair every element of the first with one of the second. -/
theorem exists_zip_of_forall₂ {R : α → β → Prop} {l : List α} {l' : List β}
    (h : List.Forall₂ R l l') {a : α} (ha : a ∈ l) : ∃ b, (a, b) ∈ l.zip l' ∧ R a b := by
  induction h with
  | nil => cases ha
  | cons hab _ ih =>
    rcases List.mem_cons.mp ha with rfl | ha
    · exact ⟨_, List.mem_cons_self, hab⟩
    · obtain ⟨b, hb, hR⟩ := ih ha
      exact ⟨b, List.mem_cons_of_mem _ hb, hR⟩

theorem exists_of_forall₂ {R : α → β → Prop} {l : List α} {l' : List β} (h : List.Forall₂ R l l')
    {a : α} (ha : a ∈ l) : ∃ b ∈ l', R a b := by
  obtain ⟨b, hb, hR⟩ := exists_zip_of_forall₂ h ha
  exact ⟨b, (List.of_mem_zip hb).2, hR⟩

theorem exists_of_mapM {f : α → Except ε β} {l : List α} {l' : List β} (h : l.mapM f = .ok l')
    {a : α} (ha : a ∈ l) : ∃ b ∈ l', f a = .ok b := exists_of_forall₂ (mapM_eq_ok.mp h) ha

/-- Related lists agree on what the relation preserves. -/
theorem map_eq_of_forall₂ {γ : Type} {R : α → β → Prop} {f : α → γ} {g : β → γ} {l : List α}
    {l' : List β} (h : List.Forall₂ R l l') (hR : ∀ a b, R a b → f a = g b) :
    l.map f = l'.map g := by
  rw [← List.forall₂_eq_eq_eq, List.forall₂_map_left_iff, List.forall₂_map_right_iff]
  exact h.imp hR

theorem length_of_mapM {f : α → Except ε β} {l : List α} {l' : List β} (h : l.mapM f = .ok l') :
    l'.length = l.length := (mapM_eq_ok.mp h).length_eq.symm

/-- **A loop seen through one observation.**  When each element either updates what is
observed or leaves it, the loop updates it with the elements that do. -/
theorem foldlM_observe {ρ : Type} {step : σ → α → Except ε σ} (look : σ → ρ)
    (covers : α → Prop) [DecidablePred covers] (g : ρ → α → ρ)
    (hstep : ∀ t a t', step t a = .ok t' → look t' = if covers a then g (look t) a else look t)
    {l : List α} {s s' : σ} (h : l.foldlM step s = .ok s') :
    look s' = (l.filter fun a => covers a).foldl g (look s) := by
  induction l generalizing s with
  | nil =>
    simp only [List.foldlM_nil, pure_eq_ok] at h
    rw [h]
    rfl
  | cons a l ih =>
    simp only [List.foldlM_cons, bind_eq_ok] at h
    obtain ⟨t, ht, hrest⟩ := h
    rw [ih hrest, hstep s a t ht]
    by_cases hc : covers a
    · rw [if_pos hc, List.filter_cons_of_pos (by simpa using hc), List.foldl_cons]
    · rw [if_neg hc, List.filter_cons_of_neg (by simpa using hc)]

/-- A check made of each element, given the elements before it. -/
def forPrefix (check : List α → α → Except ε Unit) : List α → List α → Except ε Unit
  | _, [] => .ok ()
  | done, a :: rest => do
    check done a
    forPrefix check (done ++ [a]) rest

theorem forPrefix_eq_ok {check : List α → α → Except ε Unit} {done l : List α} :
    forPrefix check done l = .ok u ↔
      ∀ pre a post, l = pre ++ a :: post → check (done ++ pre) a = .ok () := by
  induction l generalizing done with
  | nil =>
    simp only [forPrefix, true_iff]
    intro pre a post h
    simp at h
  | cons b l ih =>
    simp only [forPrefix, bind_eq_ok, exists_unit_and, ih]
    constructor
    · rintro ⟨hb, hrest⟩ pre a post h
      cases pre with
      | nil =>
        obtain ⟨rfl, rfl⟩ := List.cons.inj h
        simpa using hb
      | cons c pre =>
        obtain ⟨rfl, rfl⟩ := List.cons.inj h
        simpa using hrest pre a post rfl
    · intro h
      refine ⟨by simpa using h [] b l rfl, fun pre a post hl => ?_⟩
      have := h (b :: pre) a post (by rw [hl]; rfl)
      simpa using this

/-- What holds of each element after those before it, when one more is added. -/
theorem forall_split_concat {P : List α → α → Prop} {l : List α} {a : α} :
    (∀ pre b post, l ++ [a] = pre ++ b :: post → P pre b) ↔
      (∀ pre b post, l = pre ++ b :: post → P pre b) ∧ P l a := by
  constructor
  · intro h
    refine ⟨fun pre b post hl => h pre b (post ++ [a]) ?_, h l a [] rfl⟩
    rw [hl, List.append_assoc, List.cons_append]
  · rintro ⟨hl, ha⟩ pre b post h
    rcases List.eq_nil_or_concat post with rfl | ⟨post, c, rfl⟩
    · obtain ⟨rfl, hb⟩ := List.append_inj' h rfl
      obtain rfl := List.singleton_inj.mp hb
      exact ha
    · rw [List.concat_eq_append, ← List.cons_append, ← List.append_assoc] at h
      exact hl pre b post (List.append_inj_left' h rfl)

/-- One more element keeps the keys distinct if its key is new. -/
theorem nodup_map_concat {key : α → κ} {l : List α} {a : α} :
    ((l ++ [a]).map key).Nodup ↔ (l.map key).Nodup ∧ key a ∉ l.map key := by
  rw [List.map_append, List.map_singleton, List.nodup_append]
  constructor
  · rintro ⟨hl, -, hne⟩
    exact ⟨hl, fun ha => hne _ ha _ (List.mem_singleton_self _) rfl⟩
  · rintro ⟨hl, ha⟩
    refine ⟨hl, List.nodup_singleton _, fun k hk k' hk' => ?_⟩
    rw [List.mem_singleton.mp hk']
    exact fun heq => ha (heq ▸ hk)

/-- A check that no earlier element has the same key: the keys are distinct. -/
theorem nodup_map_iff_fresh {key : α → κ} {l : List α} :
    (l.map key).Nodup ↔
      ∀ pre a post, l = pre ++ a :: post → ∀ b ∈ pre, key b ≠ key a := by
  induction l with
  | nil => simp
  | cons b l ih =>
    rw [List.map_cons, List.nodup_cons, ih, List.mem_map]
    constructor
    · rintro ⟨hb, hl⟩ pre a post h c hc
      cases pre with
      | nil => cases hc
      | cons d pre =>
        obtain ⟨rfl, rfl⟩ := List.cons.inj h
        rcases List.mem_cons.mp hc with rfl | hc
        · exact fun he => hb ⟨a, by simp, he.symm⟩
        · exact hl pre a post rfl c hc
    · intro h
      refine ⟨?_, fun pre a post hl c hc => ?_⟩
      · rintro ⟨a, ha, he⟩
        obtain ⟨pre, post, rfl⟩ := List.append_of_mem ha
        exact h (b :: pre) a post rfl b List.mem_cons_self he.symm
      · exact h (b :: pre) a post (by rw [hl]; rfl) c (List.mem_cons_of_mem _ hc)

/-- Among elements with distinct keys the first with a key is the one that has it. -/
theorem find?_key_eq_some [DecidableEq κ] {key : α → κ} {l : List α} (hkeys : (l.map key).Nodup)
    {k : κ} {a : α} : l.find? (fun b => key b = k) = some a ↔ a ∈ l ∧ key a = k := by
  constructor
  · intro h
    exact ⟨List.mem_of_find?_eq_some h, by simpa using List.find?_some h⟩
  · rintro ⟨ha, hkey⟩
    cases hfind : l.find? (fun b => key b = k) with
    | none => exact absurd hkey (by simpa using List.find?_eq_none.mp hfind a ha)
    | some b =>
      have hb : key b = k := by simpa using List.find?_some hfind
      rw [List.inj_on_of_nodup_map hkeys (List.mem_of_find?_eq_some hfind) ha (hb.trans hkey.symm)]

/-- With distinct keys, each key has one element. -/
theorem filter_key_eq_singleton [DecidableEq κ] {key : α → κ} {l : List α}
    (hnodup : (l.map key).Nodup) {a : α} (ha : a ∈ l) :
    l.filter (fun b => key b = key a) = [a] := by
  induction l with
  | nil => cases ha
  | cons b l ih =>
    obtain ⟨hfresh, hrest⟩ := List.nodup_cons.mp hnodup
    rcases List.mem_cons.mp ha with rfl | ha
    · rw [List.filter_cons_of_pos (by simp), List.filter_eq_nil_iff.mpr]
      intro c hc he
      exact hfresh (List.mem_map.mpr ⟨c, hc, by simpa using he⟩)
    · rw [List.filter_cons_of_neg, ih hrest ha]
      intro he
      exact hfresh (List.mem_map.mpr ⟨a, ha, (by simpa using he : key b = key a).symm⟩)

/-- A sort followed by a check that no neighbours are equal: the keys increase. -/
theorem pairwise_lt_of_isChain_ne [LinearOrder κ] (key : α → κ) {l : List α}
    (hsorted : l.Pairwise fun a b => key a ≤ key b) (hne : l.IsChain fun a b => key a ≠ key b) :
    l.Pairwise fun a b => key a < key b := by
  let lt (a b : α) : Prop := key a < key b
  have : Trans lt lt lt := ⟨lt_trans⟩
  have hlt : l.IsChain lt := List.isChain_iff_getElem.mpr fun i hi =>
    lt_of_le_of_ne (List.isChain_iff_getElem.mp hsorted.isChain i hi)
      (List.isChain_iff_getElem.mp hne i hi)
  exact List.isChain_iff_pairwise.mp hlt

/-- Two lists in strictly increasing order of a key with the same elements are equal. -/
theorem eq_of_pairwise_lt [LinearOrder κ] (key : α → κ) {l l' : List α}
    (hl : l.Pairwise fun a b => key a < key b) (hl' : l'.Pairwise fun a b => key a < key b)
    (hmem : ∀ a, a ∈ l ↔ a ∈ l') : l = l' := by
  have hnodup : ∀ {m : List α}, m.Pairwise (fun a b => key a < key b) → m.Nodup := fun hm =>
    hm.imp fun hlt he => absurd (congrArg key he) hlt.ne
  have hperm : l.Perm l' := (List.perm_ext_iff_of_nodup (hnodup hl) (hnodup hl')).mpr hmem
  exact hperm.eq_of_pairwise (fun a b _ _ h h' => absurd (h.trans h') (lt_irrefl _)) hl hl'

/-- Leaving out neighbours with the key of the one before them loses no key. -/
theorem exists_mem_destutter [DecidableEq κ] {key : α → κ} {l : List α} {a : α} (h : a ∈ l) :
    ∃ b ∈ l.destutter fun x y => key x ≠ key y, key b = key a := by
  cases l with
  | nil => cases h
  | cons first l =>
    rw [List.destutter_cons']
    induction l generalizing first with
    | nil => exact ⟨first, by simp, by simp_all⟩
    | cons second l ih =>
      rw [List.destutter'_cons]
      rcases List.mem_cons.mp h with rfl | hrest
      · split
        · exact ⟨a, List.mem_cons_self, rfl⟩
        · exact ih a List.mem_cons_self
      · split
        · obtain ⟨b, hb, hkey⟩ := ih second hrest
          exact ⟨b, List.mem_cons_of_mem _ hb, hkey⟩
        · rename_i hsame
          rw [not_not] at hsame
          rcases List.mem_cons.mp hrest with rfl | hl
          · exact ⟨first, List.mem_destutter' _ _ first, hsame⟩
          · exact ih first (List.mem_cons_of_mem _ hl)

/-! ## Maps keyed by a part of their values -/

section Keyed
variable {κ : Type} [LinearOrder κ] [Std.LawfulEqOrd κ] {key : β → κ} {m : Std.TreeMap κ β}

/-- The values of a map, in the order of their keys. -/
def values (m : Std.TreeMap κ β) : List β := m.toList.map (·.2)

theorem mem_values (hkey : ∀ k v, m[k]? = some v → key v = k) {v : β} :
    v ∈ values m ↔ m[key v]? = some v := by
  rw [values, List.mem_map]
  constructor
  · rintro ⟨⟨k, _⟩, hx, rfl⟩
    have hget := Std.TreeMap.mem_toList_iff_getElem?_eq_some.mp hx
    rwa [hkey k _ hget]
  · intro h
    exact ⟨(key v, v), Std.TreeMap.mem_toList_iff_getElem?_eq_some.mpr h, rfl⟩

theorem values_sorted (hkey : ∀ k v, m[k]? = some v → key v = k) :
    (values m).Pairwise fun a b => key a < key b := by
  rw [values, List.pairwise_map]
  refine (Std.TreeMap.ordered_keys_toList (t := m)).imp_of_mem fun {x y} hx hy hlt => ?_
  rw [hkey x.1 x.2 (Std.TreeMap.mem_toList_iff_getElem?_eq_some.mp hx),
    hkey y.1 y.2 (Std.TreeMap.mem_toList_iff_getElem?_eq_some.mp hy)]
  exact compare_lt_iff_lt.mp hlt

end Keyed

/-! ## Questions -/

/-- The computation answers whether `P`, and does not refuse. -/
def Answers (x : Except ε Bool) (P : Prop) : Prop := ∃ b, x = .ok b ∧ (b = true ↔ P)

section Answers
variable {x y : Except ε Bool} {P Q : Prop}

theorem Answers.eq_true_iff (h : Answers x P) : x = .ok true ↔ P := by
  obtain ⟨b, rfl, hb⟩ := h
  rw [Except.ok.injEq]
  exact hb

theorem Answers.congr (h : Answers x P) (hiff : P ↔ Q) : Answers x Q := by
  obtain ⟨b, hx, hb⟩ := h
  exact ⟨b, hx, hb.trans hiff⟩

theorem answers_pure (b : Bool) : Answers (pure b : Except ε Bool) (b = true) := ⟨b, rfl, Iff.rfl⟩

/-- One question after the other, until one is answered yes. -/
theorem Answers.orElse (h : Answers x P) (h' : Answers y Q) :
    Answers (x >>= fun b => if b = true then pure true else y) (P ∨ Q) := by
  obtain ⟨b, rfl, hb⟩ := h
  by_cases hP : P
  · exact ⟨true, by simp [hb.mpr hP, pure, Except.pure], by simp [hP]⟩
  · obtain ⟨b', hy, hb'⟩ := h'
    exact ⟨b', by simp [mt hb.mp hP, hy], by simp [hP, hb']⟩

/-- A question that is only asked under a condition. -/
theorem Answers.onlyIf (b : Bool) (h : Answers x P) :
    Answers (if b = true then x else pure false) (b = true ∧ P) := by
  cases b with
  | false => exact ⟨false, rfl, by simp⟩
  | true => exact h.congr (by simp)

theorem Answers.anyM {p : α → Except ε Bool} {P : α → Prop} {l : List α}
    (h : ∀ a ∈ l, Answers (p a) (P a)) : Answers (l.anyM p) (∃ a ∈ l, P a) := by
  induction l with
  | nil => exact ⟨false, rfl, by simp⟩
  | cons a l ih =>
    have htail := ih fun b hb => h b (List.mem_cons_of_mem a hb)
    rw [List.anyM_cons]
    exact ((h a List.mem_cons_self).orElse htail).congr (by simp)

end Answers

end Checked
