import Mathlib.Order.Bounds.Basic
import HarvestCircle.Returns

/-! # When things can have happened

An occurrence says which instants are possible for an event: one, those of an interval,
or any.  Instants are integers here, so that nothing is bounded by the clock that
records them.

The causal floor of a group is carried from one observation to the next.  It accepts
exactly the observations that can have happened in their order, and it is never later
than it has to be (`floor_is_least`).
-/
namespace HarvestCircle
open Checked

namespace Occurrence

/-- The event can have happened at this instant. -/
def Allows : Occurrence → Int → Prop
  | known time, t => t = time.seconds
  | interval earliest latest, t => earliest.seconds ≤ t ∧ t ≤ latest.seconds
  | unknown, _ => True

/-- There is an instant at which it can have happened. -/
def Possible (occurred : Occurrence) : Prop := ∃ t, occurred.Allows t

variable {occurred : Occurrence}

theorem allows_iff {t : Int} :
    occurred.Allows t ↔ ∀ b ∈ occurred.bounds, b.1.seconds ≤ t ∧ t ≤ b.2.seconds := by
  cases occurred with
  | known time =>
    simp only [Allows, bounds, Option.mem_def, Option.some.injEq, forall_eq']
    omega
  | interval earliest latest => simp [Allows, bounds]
  | unknown => simp [Allows, bounds]

theorem possible_iff : occurred.Possible ↔ ∀ b ∈ occurred.bounds, b.1 ≤ b.2 := by
  simp only [Possible, allows_iff, UnixTimestamp.le_iff]
  constructor
  · rintro ⟨t, ht⟩ b hb
    have := ht b hb
    omega
  · intro h
    cases hb : occurred.bounds with
    | none => exact ⟨0, by simp⟩
    | some b =>
      have := h b hb
      refine ⟨b.1.seconds, ?_⟩
      rintro c ⟨⟩
      omega

section
variable {occurred : Occurrence} {b : UnixTimestamp × UnixTimestamp}

theorem allows_of_none (h : occurred.bounds = none) (t : Int) : occurred.Allows t := by
  simp [allows_iff, h]

theorem allows_between (h : occurred.bounds = some b) {t : Int} (hfirst : b.1.seconds ≤ t)
    (hlast : t ≤ b.2.seconds) : occurred.Allows t := by
  rw [allows_iff, h]
  rintro _ ⟨⟩
  exact ⟨hfirst, hlast⟩

theorem Possible.span (hpossible : occurred.Possible) (h : occurred.bounds = some b) :
    b.1.seconds ≤ b.2.seconds := possible_iff.mp hpossible b h

theorem Possible.allows_first (hpossible : occurred.Possible) (h : occurred.bounds = some b) :
    occurred.Allows b.1.seconds :=
  allows_between h le_rfl (by exact_mod_cast hpossible.span h)

theorem Possible.allows_last (hpossible : occurred.Possible) (h : occurred.bounds = some b) :
    occurred.Allows b.2.seconds :=
  allows_between h (by exact_mod_cast hpossible.span h) le_rfl

end

/-- A review may settle an unknown time or narrow an interval, nothing else. -/
def refines (original verified : Occurrence) : Bool :=
  match original.bounds, verified.bounds with
  | none, _ => true
  | some (a, b), some (c, d) => a ≤ c ∧ d ≤ b
  | some _, none => false

theorem ValidAt.possible {recordedAt : UnixTimestamp} (h : occurred.ValidAt recordedAt) :
    occurred.Possible := by
  cases occurred with
  | known time => exact ⟨time.seconds, rfl⟩
  | interval earliest latest => exact possible_iff.mpr (by simpa [bounds] using h.1)
  | unknown => exact ⟨0, trivial⟩

end Occurrence

/-! ## The causal floor -/

namespace PhysicalStockGroup
variable {t : Int} {instants : List Int} {occurred : Occurrence} {middle : PhysicalStockGroup}

theorem laterFloor_le {a b : Option UnixTimestamp} :
    (∀ f ∈ laterFloor a b, f.seconds ≤ t) ↔
      (∀ f ∈ a, f.seconds ≤ t) ∧ ∀ f ∈ b, f.seconds ≤ t := by
  cases a with
  | none => simp [laterFloor]
  | some a =>
    cases b with
    | none => simp [laterFloor]
    | some b =>
      simp only [laterFloor, Option.mem_def, Option.some.injEq, forall_eq']
      rcases le_total a b with hle | hle
      · rw [max_eq_right hle]
        have := UnixTimestamp.le_iff.mp hle
        omega
      · rw [max_eq_left hle]
        have := UnixTimestamp.le_iff.mp hle
        omega

/-- A group after one more observation of it, with the time it was recorded. -/
def observe (group : PhysicalStockGroup) (observation : Occurrence × UnixTimestamp) :
    Except MovementError PhysicalStockGroup := do
  let floor ← group.observationFloor observation.1 observation.2
  return { group with causalFloor := floor }

/-- Observations one after another, the floor carried along. -/
def observeAll (group : PhysicalStockGroup) (observations : List (Occurrence × UnixTimestamp)) :
    Except MovementError PhysicalStockGroup :=
  observations.foldlM observe group

theorem observe_eq_ok {group group' : PhysicalStockGroup}
    {observation : Occurrence × UnixTimestamp} :
    group.observe observation = .ok group' ↔ observation.1.ValidAt observation.2 ∧
      (∀ f ∈ group.causalFloor, endsBefore f observation.1 = false) ∧
      group' = { group with
        causalFloor := laterFloor group.causalFloor (observedFrom observation.1) } := by
  simp only [observe, observationFloor, Occurrence.validate, accepted, Decidable.not_not,
    not_exists, not_and, Bool.not_eq_true]
  constructor
  · rintro ⟨floor, ⟨hvalid, hends, rfl⟩, rfl⟩
    exact ⟨hvalid, hends, rfl⟩
  · rintro ⟨hvalid, hends, rfl⟩
    exact ⟨_, ⟨hvalid, hends, rfl⟩, rfl⟩

@[simp] theorem observeAll_cons {group group' : PhysicalStockGroup}
    {observation : Occurrence × UnixTimestamp} {rest : List (Occurrence × UnixTimestamp)} :
    group.observeAll (observation :: rest) = .ok group' ↔
      ∃ next, group.observe observation = .ok next ∧ next.observeAll rest = .ok group' := by
  simp only [observeAll, List.foldlM_cons, bind_eq_ok]

variable {later : List (Occurrence × UnixTimestamp)} {floor : Option UnixTimestamp}
  {f recordedAt : UnixTimestamp} {next final now source : PhysicalStockGroup}
  {catalog : ReferenceCatalog} {stockRevision : HubRevision}

theorem observeAll_append {group group' : PhysicalStockGroup}
    {observations : List (Occurrence × UnixTimestamp)} :
    group.observeAll (observations ++ later) = .ok group' ↔
      ∃ next, group.observeAll observations = .ok next ∧ next.observeAll later = .ok group' := by
  simp only [observeAll, List.foldlM_append, bind_eq_ok]

/-- Instants chosen for the observations: possible for each, in their order, none before the
floor. -/
structure InOrder (floor : Option UnixTimestamp)
    (observations : List (Occurrence × UnixTimestamp)) (instants : List Int) : Prop where
  allowed : List.Forall₂ (fun observation t => observation.1.Allows t) observations instants
  ordered : instants.Pairwise (· ≤ ·)
  after : ∀ f ∈ floor, ∀ t ∈ instants, f.seconds ≤ t

/-- The floor, and the instants chosen for the observations that know something of their time. -/
def Spoken (floor : Option UnixTimestamp) (observations : List (Occurrence × UnixTimestamp))
    (instants : List Int) : Set Int :=
  { v | (∃ f ∈ floor, v = f.seconds) ∨
    ∃ observation t, (observation, t) ∈ observations.zip instants ∧
      observation.1 ≠ .unknown ∧ v = t }

variable {group group' : PhysicalStockGroup} {observation : Occurrence × UnixTimestamp}
  {observations : List (Occurrence × UnixTimestamp)}

theorem spoken_nil (floor : Option UnixTimestamp) (instants : List Int) :
    Spoken floor [] instants = { v : Int | ∃ f ∈ floor, v = f.seconds } := by
  simp [Spoken]

theorem mem_spoken_cons {v : Int} :
    v ∈ Spoken floor (observation :: observations) (t :: instants) ↔
      (∃ f ∈ floor, v = f.seconds) ∨ (observation.1 ≠ .unknown ∧ v = t) ∨
      ∃ o s, (o, s) ∈ observations.zip instants ∧ o.1 ≠ .unknown ∧ v = s := by
  simp only [Spoken, Set.mem_ofPred_eq, List.zip_cons_cons, List.mem_cons, Prod.mk.injEq]
  constructor
  · rintro (hfloor | ⟨o, s, ⟨rfl, rfl⟩ | hrest, hspeaks, rfl⟩)
    · exact .inl hfloor
    · exact .inr (.inl ⟨hspeaks, rfl⟩)
    · exact .inr (.inr ⟨o, v, hrest, hspeaks, rfl⟩)
  · rintro (hfloor | ⟨hspeaks, rfl⟩ | ⟨o, s, hrest, hspeaks, rfl⟩)
    · exact .inl hfloor
    · exact .inr ⟨observation, v, .inl ⟨rfl, rfl⟩, hspeaks, rfl⟩
    · exact .inr ⟨o, v, .inr hrest, hspeaks, rfl⟩

/-- The earliest instant of an occurrence is not after any possible one. -/
theorem observedFrom_le (h : occurred.Allows t) : ∀ f ∈ observedFrom occurred, f.seconds ≤ t := by
  cases occurred with
  | known time => simpa [observedFrom] using h.ge
  | interval earliest latest => simpa [observedFrom] using h.1
  | unknown => simp [observedFrom]

/-- An instant from the floor on is possible only for an observation the floor accepts. -/
theorem not_endsBefore (h : occurred.Allows t) (hf : f.seconds ≤ t) :
    endsBefore f occurred = false := by
  cases occurred with
  | known time =>
    simp only [Occurrence.Allows] at h
    simp only [endsBefore, decide_eq_false_iff_not, UnixTimestamp.lt_iff]
    omega
  | interval earliest latest =>
    simp only [Occurrence.Allows] at h
    simp only [endsBefore, decide_eq_false_iff_not, UnixTimestamp.lt_iff]
    omega
  | unknown => rfl

/-- Instants chosen for a sequence let its first observation pass, and are chosen for the rest
from the new floor on. -/
theorem InOrder.observe (hvalid : observation.1.ValidAt observation.2)
    (h : InOrder group.causalFloor (observation :: observations) (t :: instants)) :
    ∃ next, group.observe observation = .ok next ∧
      InOrder next.causalFloor observations instants := by
  obtain ⟨hallows, hrest⟩ := List.forall₂_cons.mp h.allowed
  obtain ⟨hfirst, hordered⟩ := List.pairwise_cons.mp h.ordered
  have hfloor : ∀ f ∈ group.causalFloor, f.seconds ≤ t := fun f hf =>
    h.after f hf t List.mem_cons_self
  refine ⟨_, observe_eq_ok.mpr ⟨hvalid, fun f hf => not_endsBefore hallows (hfloor f hf), rfl⟩,
    hrest, hordered, fun f hf s hs => ?_⟩
  have hle := laterFloor_le.mpr ⟨hfloor, observedFrom_le hallows⟩ f hf
  exact hle.trans (hfirst s hs)

/-- **The floor accepts what can have happened in order.** -/
theorem InOrder.observeAll (hvalid : ∀ o ∈ observations, o.1.ValidAt o.2)
    (h : InOrder group.causalFloor observations instants) :
    ∃ final, group.observeAll observations = .ok final := by
  induction observations generalizing group instants with
  | nil => exact ⟨group, rfl⟩
  | cons observation rest ih =>
    cases instants with
    | nil => cases h.allowed
    | cons t instants =>
      obtain ⟨next, hnext, hin⟩ := h.observe (hvalid observation List.mem_cons_self)
      obtain ⟨final, hfinal⟩ := ih (fun o ho => hvalid o (List.mem_cons_of_mem _ ho)) hin
      exact ⟨final, observeAll_cons.mpr ⟨next, hnext, hfinal⟩⟩

/-- An integer not after any of finitely many. -/
theorem exists_forall_le (instants : List Int) : ∃ t, ∀ s ∈ instants, t ≤ s := by
  induction instants with
  | nil => exact ⟨0, by simp⟩
  | cons s instants ih =>
    obtain ⟨t, ht⟩ := ih
    refine ⟨min s t, fun r hr => ?_⟩
    rcases List.mem_cons.mp hr with rfl | hr
    · exact min_le_left _ _
    · exact (min_le_right _ _).trans (ht r hr)

/-- An accepted observation can have happened as soon as the new floor says. -/
theorem allows_laterFloor (hpossible : occurred.Possible)
    (hends : ∀ f ∈ floor, endsBefore f occurred = false)
    (hf : f ∈ laterFloor floor (observedFrom occurred)) : occurred.Allows f.seconds := by
  cases occurred with
  | unknown => trivial
  | known time =>
    cases floor with
    | none => simp_all [laterFloor, observedFrom, Occurrence.Allows]
    | some g =>
      have hle : g ≤ time := by simpa [endsBefore] using hends g rfl
      obtain rfl : max g time = f := by simpa [laterFloor, observedFrom] using hf
      rw [max_eq_right hle]
      rfl
  | interval earliest latest =>
    have hspan : earliest ≤ latest := by
      simpa [Occurrence.bounds] using Occurrence.possible_iff.mp hpossible
    cases floor with
    | none =>
      obtain rfl : earliest = f := by simpa [laterFloor, observedFrom] using hf
      exact ⟨le_refl _, by exact_mod_cast hspan⟩
    | some g =>
      have hle : g ≤ latest := by simpa [endsBefore] using hends g rfl
      obtain rfl : max g earliest = f := by simpa [laterFloor, observedFrom] using hf
      have hfirst := UnixTimestamp.le_iff.mp (le_max_right g earliest)
      have hlast := UnixTimestamp.le_iff.mp (max_le hle hspan)
      exact ⟨by exact_mod_cast hfirst, by exact_mod_cast hlast⟩

/-- An observation that knows something of its time leaves a floor. -/
theorem exists_laterFloor (h : occurred ≠ .unknown) (floor : Option UnixTimestamp) :
    ∃ f, f ∈ laterFloor floor (observedFrom occurred) := by
  cases occurred with
  | unknown => exact absurd rfl h
  | known time => cases floor <;> simp [laterFloor, observedFrom]
  | interval earliest latest => cases floor <;> simp [laterFloor, observedFrom]

/-- Instants chosen for the rest from the new floor on, with the earliest instant the first
observation can have: nothing later than the rest speaks of is added. -/
theorem InOrder.extend (hnext : group.observe observation = .ok next)
    (h : InOrder next.causalFloor observations instants) :
    ∃ t, InOrder group.causalFloor (observation :: observations) (t :: instants) ∧
      (observation.1 ≠ .unknown → ∃ f ∈ next.causalFloor, t = f.seconds) := by
  obtain ⟨hvalid, hends, rfl⟩ := observe_eq_ok.mp hnext
  -- the first instant: the new floor, or one early enough where there is none
  have hchoice : ∃ t : Int, observation.1.Allows t ∧ (∀ s ∈ instants, t ≤ s) ∧
      (∀ f ∈ group.causalFloor, f.seconds ≤ t) ∧
      (observation.1 ≠ .unknown →
        ∃ f ∈ laterFloor group.causalFloor (observedFrom observation.1), t = f.seconds) := by
    cases hfloor : laterFloor group.causalFloor (observedFrom observation.1) with
    | none =>
      have hunknown : observation.1 = .unknown := by
        by_contra hne
        obtain ⟨f, hf⟩ := exists_laterFloor hne group.causalFloor
        rw [hfloor] at hf
        cases hf
      have hnone : group.causalFloor = none := by
        cases hcausal : group.causalFloor with
        | none => rfl
        | some f => simp [hcausal, hunknown, laterFloor, observedFrom] at hfloor
      obtain ⟨t, ht⟩ := exists_forall_le instants
      exact ⟨t, hunknown ▸ trivial, ht, by simp [hnone], fun hne => absurd hunknown hne⟩
    | some f =>
      have hbound : ∀ g ∈ laterFloor group.causalFloor (observedFrom observation.1),
          (g.seconds : Int) ≤ f.seconds := by simp [hfloor]
      exact ⟨f.seconds, allows_laterFloor hvalid.possible hends hfloor,
        fun s hs => h.after f hfloor s hs, (laterFloor_le.mp hbound).1, fun _ => ⟨f, rfl, rfl⟩⟩
  obtain ⟨t, hallows, hfirst, hafter, hspoken⟩ := hchoice
  refine ⟨t, ⟨.cons hallows h.allowed, List.pairwise_cons.mpr ⟨hfirst, h.ordered⟩, ?_⟩, hspoken⟩
  intro f hf s hs
  rcases List.mem_cons.mp hs with rfl | hs
  · exact hafter f hf
  · exact (hafter f hf).trans (hfirst s hs)

/-- What was accepted can have happened in order. -/
theorem exists_inOrder (h : group.observeAll observations = .ok final) :
    ∃ instants, InOrder group.causalFloor observations instants := by
  induction observations generalizing group with
  | nil => exact ⟨[], .nil, .nil, by simp⟩
  | cons observation rest ih =>
    obtain ⟨next, hnext, hrest⟩ := observeAll_cons.mp h
    obtain ⟨instants, hin⟩ := ih hrest
    obtain ⟨t, ht, -⟩ := hin.extend hnext
    exact ⟨t :: instants, ht⟩

/-- With the first instant as early as it can be, the first observation adds nothing later than
the new floor. -/
theorem isGreatest_spoken_cons (hnext : group.observe observation = .ok next)
    (hafter : ∀ f ∈ group.causalFloor, f.seconds ≤ t)
    (hspoken : observation.1 ≠ .unknown → ∃ f ∈ next.causalFloor, t = f.seconds) (v : Int) :
    IsGreatest (Spoken group.causalFloor (observation :: observations) (t :: instants)) v ↔
      IsGreatest (Spoken next.causalFloor observations instants) v := by
  obtain ⟨-, -, rfl⟩ := observe_eq_ok.mp hnext
  by_cases hunknown : observation.1 = .unknown
  · -- nothing is said of the first instant, and the floor stays
    have hfloor : laterFloor group.causalFloor (observedFrom observation.1) =
        group.causalFloor := by
      rw [hunknown]
      cases group.causalFloor <;> rfl
    have hsame : Spoken group.causalFloor (observation :: observations) (t :: instants) =
        Spoken group.causalFloor observations instants := by
      ext w
      rw [mem_spoken_cons]
      simp [Spoken, hunknown]
    rw [hsame, hfloor]
  · obtain ⟨f, hf, rfl⟩ := hspoken hunknown
    have hmem : (f.seconds : Int) ∈ Spoken group.causalFloor (observation :: observations)
        (f.seconds :: instants) := mem_spoken_cons.mpr (.inr (.inl ⟨hunknown, rfl⟩))
    have hmem' : (f.seconds : Int) ∈
        Spoken (laterFloor group.causalFloor (observedFrom observation.1)) observations instants :=
      .inl ⟨f, hf, rfl⟩
    constructor
    · rintro ⟨hv, hbound⟩
      refine ⟨?_, fun w hw => ?_⟩
      · rcases mem_spoken_cons.mp hv with ⟨g, hg, rfl⟩ | ⟨-, rfl⟩ | hrest
        · rwa [le_antisymm (hafter g hg) (hbound hmem)]
        · exact hmem'
        · exact .inr hrest
      · rcases hw with ⟨g, hg, rfl⟩ | hrest
        · rw [Option.mem_unique hg hf]
          exact hbound hmem
        · exact hbound (mem_spoken_cons.mpr (.inr (.inr hrest)))
    · rintro ⟨hv, hbound⟩
      refine ⟨?_, fun w hw => ?_⟩
      · rcases hv with ⟨g, hg, rfl⟩ | hrest
        · rw [Option.mem_unique hg hf]
          exact hmem
        · exact mem_spoken_cons.mpr (.inr (.inr hrest))
      · rcases mem_spoken_cons.mp hw with ⟨g, hg, rfl⟩ | ⟨-, rfl⟩ | hrest
        · exact (hafter g hg).trans (hbound hmem')
        · exact hbound hmem'
        · exact hbound (.inr hrest)

/-- **The floor is attained**: one choice of instants for everything accepted says nothing later
than the floor after a first part. -/
theorem exists_inOrder_isGreatest (hmiddle : group.observeAll observations = .ok middle)
    (hfinal : middle.observeAll later = .ok final) :
    ∃ instants, InOrder group.causalFloor (observations ++ later) instants ∧
      ∀ v, IsGreatest (Spoken group.causalFloor observations instants) v ↔
        ∃ f ∈ middle.causalFloor, v = f.seconds := by
  induction observations generalizing group with
  | nil =>
    cases hmiddle
    obtain ⟨instants, hin⟩ := exists_inOrder hfinal
    refine ⟨instants, hin, fun v => ?_⟩
    rw [spoken_nil]
    constructor
    · exact fun h => h.1
    · rintro ⟨f, hf, rfl⟩
      refine ⟨⟨f, hf, rfl⟩, ?_⟩
      rintro w ⟨g, hg, rfl⟩
      rw [Option.mem_unique hg hf]
  | cons observation rest ih =>
    obtain ⟨next, hnext, hrest⟩ := observeAll_cons.mp hmiddle
    obtain ⟨instants, hin, hgreatest⟩ := ih hrest
    obtain ⟨t, ht, hspoken⟩ := hin.extend hnext
    refine ⟨t :: instants, ht, fun v => ?_⟩
    rw [isGreatest_spoken_cons hnext (fun f hf => ht.after f hf t List.mem_cons_self) hspoken,
      hgreatest]

/-- **The floor is never too late**: no choice of instants ends earlier. -/
theorem floor_le_of_upperBound {v : Int} (hmiddle : group.observeAll observations = .ok middle)
    (hallowed : List.Forall₂ (fun o t => o.1.Allows t) observations
      (instants.take observations.length))
    (hbound : v ∈ upperBounds (Spoken group.causalFloor observations instants)) :
    ∀ f ∈ middle.causalFloor, f.seconds ≤ v := by
  induction observations generalizing group instants with
  | nil =>
    cases hmiddle
    exact fun f hf => hbound (.inl ⟨f, hf, rfl⟩)
  | cons observation rest ih =>
    cases instants with
    | nil => cases hallowed
    | cons t instants =>
      obtain ⟨hallows, hrest⟩ := List.forall₂_cons.mp hallowed
      obtain ⟨next, hnext, hmiddle⟩ := observeAll_cons.mp hmiddle
      obtain ⟨-, -, rfl⟩ := observe_eq_ok.mp hnext
      refine ih hmiddle hrest ?_
      have hold : ∀ f ∈ group.causalFloor, f.seconds ≤ v := fun f hf =>
        hbound (mem_spoken_cons.mpr (.inl ⟨f, hf, rfl⟩))
      have hnew : ∀ f ∈ observedFrom observation.1, f.seconds ≤ v := by
        intro f hf
        have hspeaks : observation.1 ≠ .unknown := by
          intro hunknown
          rw [hunknown] at hf
          cases hf
        exact (observedFrom_le hallows f hf).trans
          (hbound (mem_spoken_cons.mpr (.inr (.inl ⟨hspeaks, rfl⟩))))
      rintro w (⟨f, hf, rfl⟩ | hlater)
      · exact laterFloor_le.mpr ⟨hold, hnew⟩ f hf
      · exact hbound (mem_spoken_cons.mpr (.inr (.inr hlater)))

/-- The floor is absent while there was none and nothing was known. -/
theorem floor_eq_none (h : group.observeAll observations = .ok middle) :
    middle.causalFloor = none ↔
      group.causalFloor = none ∧ ∀ o ∈ observations, o.1 = .unknown := by
  induction observations generalizing group with
  | nil =>
    cases h
    simp
  | cons observation rest ih =>
    obtain ⟨next, hnext, hrest⟩ := observeAll_cons.mp h
    obtain ⟨-, -, rfl⟩ := observe_eq_ok.mp hnext
    rw [ih hrest]
    have hfloor : laterFloor group.causalFloor (observedFrom observation.1) = none ↔
        group.causalFloor = none ∧ observation.1 = .unknown := by
      cases group.causalFloor <;> cases observation.1 <;> simp [laterFloor, observedFrom]
    simp only [hfloor, List.mem_cons, forall_eq_or_imp, and_assoc]

/-! ## Groups that are moved and divided -/

/-- A group followed through moves of it and into the portions taken from it, with what was
observed each time. -/
inductive Followed (source : PhysicalStockGroup) :
    List (Occurrence × UnixTimestamp) → PhysicalStockGroup → Prop
  | start : Followed source [] source
  | moved {seen : List (Occurrence × UnixTimestamp)} {now : PhysicalStockGroup}
      {command : MovementCommand} {catalog : ReferenceCatalog} {stockRevision : HubRevision}
      {separatedGroupId : HubRecordId} {recordedAt : UnixTimestamp} {movement : MovementPlan}
      (followed : Followed source seen now)
      (planned : command.plan catalog stockRevision now separatedGroupId recordedAt =
        .ok movement) :
      Followed source (seen ++ [(command.occurred, recordedAt)]) movement.moved
  | divided {seen : List (Occurrence × UnixTimestamp)} {now : PhysicalStockGroup}
      {command : SplitCommand} {catalog : ReferenceCatalog} {stockRevision : HubRevision}
      {portionId : HubRecordId} {recordedAt : UnixTimestamp} {split : SplitPlan}
      (followed : Followed source seen now)
      (planned : command.plan catalog stockRevision now portionId recordedAt = .ok split) :
      Followed source (seen ++ [(command.occurred, recordedAt)]) split.portion

theorem movement_floor {command : MovementCommand} {separatedGroupId : HubRecordId}
    {movement : MovementPlan}
    (h : command.plan catalog stockRevision group separatedGroupId recordedAt = .ok movement) :
    group.observationFloor command.occurred recordedAt = .ok movement.moved.causalFloor := by
  simp only [MovementCommand.plan, accepted] at h
  obtain ⟨-, -, -, floor, hfloor, destination, -, -, partition, -, arrivals, -, -, rests, -,
    revision, -, rfl⟩ := h
  exact hfloor

theorem split_floor {command : SplitCommand} {portionId : HubRecordId} {split : SplitPlan}
    (h : command.plan catalog stockRevision group portionId recordedAt = .ok split) :
    group.observationFloor command.occurred recordedAt = .ok split.portion.causalFloor := by
  simp only [SplitCommand.plan, accepted] at h
  obtain ⟨-, -, -, floor, hfloor, partition, -, remainder, -, -, -, revision, -, location, -,
    rfl⟩ := h
  exact hfloor

/-- One more observation, of a group with the same floor. -/
theorem observeAll_concat (hobserved : ∃ seen, source.observeAll observations = .ok seen ∧
      seen.causalFloor = now.causalFloor)
    (hfloor : now.observationFloor observation.1 observation.2 = .ok group'.causalFloor) :
    ∃ seen, source.observeAll (observations ++ [observation]) = .ok seen ∧
      seen.causalFloor = group'.causalFloor := by
  obtain ⟨seen, hseen, hsame⟩ := hobserved
  have hnext : seen.observationFloor observation.1 observation.2 = .ok group'.causalFloor := by
    unfold observationFloor at hfloor ⊢
    rw [hsame]
    exact hfloor
  refine ⟨{ seen with causalFloor := group'.causalFloor }, ?_, rfl⟩
  rw [observeAll_append]
  refine ⟨seen, hseen, ?_⟩
  rw [observeAll_cons]
  refine ⟨_, ?_, rfl⟩
  rw [observe, hnext]
  rfl

/-- A followed group carries the floor of what was observed of it. -/
theorem Followed.observed (h : Followed source observations now) :
    ∃ seen, source.observeAll observations = .ok seen ∧ seen.causalFloor = now.causalFloor := by
  induction h with
  | start => exact ⟨source, rfl, rfl⟩
  | moved _ planned ih => exact observeAll_concat ih (movement_floor planned)
  | divided _ planned ih => exact observeAll_concat ih (split_floor planned)

end PhysicalStockGroup

open PhysicalStockGroup in
/-- **The causal floor accepts exactly what can have happened in order**, and after any first part
it is the least that the floor before and the instants of the observations can come to.  A group
that is moved and divided carries this floor. -/
theorem floor_is_least (group : PhysicalStockGroup)
    (observations : List (Occurrence × UnixTimestamp))
    (hvalid : ∀ o ∈ observations, o.1.ValidAt o.2) :
    ((∃ final, group.observeAll observations = .ok final) ↔
      ∃ instants, InOrder group.causalFloor observations instants) ∧
    (∀ first later middle final, observations = first ++ later →
      group.observeAll first = .ok middle → middle.observeAll later = .ok final →
      (middle.causalFloor = none ↔
        group.causalFloor = none ∧ ∀ o ∈ first, o.1 = .unknown) ∧
      ∀ f ∈ middle.causalFloor,
        IsLeast { v : Int | ∃ instants, InOrder group.causalFloor observations instants ∧
          IsGreatest (Spoken group.causalFloor first instants) v } f.seconds) ∧
    ∀ now, Followed group observations now →
      ∃ final, group.observeAll observations = .ok final ∧ final.causalFloor = now.causalFloor := by
  refine ⟨⟨fun ⟨_, h⟩ => exists_inOrder h, fun ⟨_, h⟩ => h.observeAll hvalid⟩, ?_,
    fun now h => h.observed⟩
  rintro first later middle final rfl hmiddle hfinal
  refine ⟨floor_eq_none hmiddle, fun f hf => ⟨?_, ?_⟩⟩
  · obtain ⟨instants, hin, hgreatest⟩ := exists_inOrder_isGreatest hmiddle hfinal
    exact ⟨instants, hin, (hgreatest _).mpr ⟨f, hf, rfl⟩⟩
  · rintro v ⟨instants, hin, hgreatest⟩
    refine floor_le_of_upperBound hmiddle ?_ hgreatest.2 f hf
    have htake := List.forall₂_take first.length hin.allowed
    rwa [List.take_left] at htake

/-- The crate seen within ten seconds, then at a time nobody noted, then five seconds in. -/
def crateSightings : List (Occurrence × UnixTimestamp) :=
  [(.interval crateTime (.of 1010), .of 1020),
    (.unknown, .of 1020), (.known (.of 1005), .of 1030)]

/-- The sightings can have happened in order, none of the first two after second 1000. -/
theorem floor_is_least_crate :
    (∃ instants, PhysicalStockGroup.InOrder crate.causalFloor crateSightings instants) ∧
    IsLeast { v : Int | ∃ instants, PhysicalStockGroup.InOrder none crateSightings instants ∧
      IsGreatest (PhysicalStockGroup.Spoken none (crateSightings.take 2) instants) v } 1000 := by
  obtain ⟨haccepted, hleast, -⟩ := floor_is_least crate crateSightings (by decide)
  have hfirst : crate.observeAll (crateSightings.take 2) =
      .ok { crate with causalFloor := some crateTime } := by decide
  have hlater : { crate with causalFloor := some crateTime }.observeAll (crateSightings.drop 2) =
      .ok { crate with causalFloor := some (.of 1005) } := by decide
  refine ⟨haccepted.mp ⟨_, PhysicalStockGroup.observeAll_append.mpr ⟨_, hfirst, hlater⟩⟩, ?_⟩
  exact (hleast _ _ _ _ rfl hfirst hlater).2 crateTime rfl

end HarvestCircle
