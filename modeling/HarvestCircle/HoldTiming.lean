import HarvestCircle.Instants

/-! # Whether a hold was in force when stock left

A departure, the placement of a hold and its release are each known only as an
occurrence.  `classifyHoldTiming` compares their bounds.  What it says is read here
against the instants the three occurrences allow: it gives a verdict exactly when all
of them agree on it (`classifyHoldTiming_exact`).
-/
namespace HarvestCircle
open Checked

/-- The departure against the hold in time. -/
inductive HistoricalHoldTiming where
  | establishedBreach
  | beforeHold
  | afterRelease
  | timingUnknown
  deriving DecidableEq, Repr

/-- An interval that ends before it begins. -/
def Occurrence.Inverted : Occurrence → Prop
  | .interval earliest latest => earliest > latest
  | _ => False

instance : DecidablePred Occurrence.Inverted
  | .known _ => inferInstanceAs (Decidable False)
  | .interval _ _ => inferInstanceAs (Decidable (_ > _))
  | .unknown => inferInstanceAs (Decidable False)

/-- The restriction holds from its placement up to, but not at, its release. -/
def classifyHoldTiming (departure effective : Occurrence) (released : Option Occurrence) :
    HistoricalHoldTiming :=
  if departure.Inverted ∨ effective.Inverted ∨ ∃ release ∈ released, release.Inverted then
    .timingUnknown
  else if ∃ hold ∈ effective.bounds, ∃ release ∈ released.bind Occurrence.bounds,
      release.2 < hold.1 then .timingUnknown
  else
    match departure.bounds with
    | none => .timingUnknown
    | some (earliest, latest) =>
      if ∃ hold ∈ effective.bounds, latest < hold.1 then .beforeHold
      else if ∃ release ∈ released.bind Occurrence.bounds, release.2 ≤ earliest then .afterRelease
      else if (∃ hold ∈ effective.bounds, hold.2 ≤ earliest) ∧
          (∀ release ∈ released, ∃ bound ∈ release.bounds, latest < bound.1) then
        .establishedBreach
      else .timingUnknown

/-! ## What the occurrences allow -/

/-- One instant for each of the departure, the placement and the release. -/
structure HoldChoice where
  departure : Int
  placement : Int
  release : Option Int

/-- The instants are possible, and the hold is not released before it is placed. -/
structure HoldChoice.Consistent (departure placement : Occurrence) (release : Option Occurrence)
    (choice : HoldChoice) : Prop where
  departure_allowed : departure.Allows choice.departure
  placement_allowed : placement.Allows choice.placement
  release_allowed : Option.Rel Occurrence.Allows release choice.release
  ordered : ∀ t ∈ choice.release, choice.placement ≤ t

/-- What the instants say. -/
def HoldChoice.Shows (choice : HoldChoice) : HistoricalHoldTiming → Prop
  | .establishedBreach =>
    choice.placement ≤ choice.departure ∧ ∀ t ∈ choice.release, choice.departure < t
  | .beforeHold => choice.departure < choice.placement
  | .afterRelease => ∃ t ∈ choice.release, t ≤ choice.departure
  | .timingUnknown => False

theorem Occurrence.not_inverted_iff {occurred : Occurrence} :
    ¬ occurred.Inverted ↔ occurred.Possible := by
  rw [Occurrence.possible_iff]
  cases occurred <;> simp [Occurrence.Inverted, Occurrence.bounds]

section
variable {departure placement : Occurrence} {release : Option Occurrence}

/-- The release ends before the placement begins. -/
def ReleasedFirst (placement : Occurrence) (release : Option Occurrence) : Prop :=
  ∃ hold ∈ placement.bounds, ∃ r ∈ release.bind Occurrence.bounds, r.2 < hold.1

/-- Some instant of the placement has an instant of the release that is not before it, unless the
release ends first: the earliest possible placement goes with the latest possible release. -/
theorem exists_early_placement (hplacement : placement.Possible)
    (hrelease : ∀ r ∈ release, r.Possible) (hfirst : ¬ ReleasedFirst placement release) (b : Int) :
    ∃ h r, placement.Allows h ∧ Option.Rel Occurrence.Allows release r ∧ (∀ t ∈ r, h ≤ t) ∧
      (∀ hold ∈ placement.bounds, h = hold.1.seconds) ∧ (placement.bounds = none → h ≤ b) ∧
      ∀ o ∈ release, ∃ t ∈ r, (∀ bound ∈ o.bounds, t = bound.2.seconds) ∧
        (o.bounds = none → b ≤ t) := by
  have hstart : ∃ h, placement.Allows h ∧ (∀ hold ∈ placement.bounds, h = hold.1.seconds) ∧
      (placement.bounds = none → h ≤ b ∧ ∀ r ∈ release.bind Occurrence.bounds,
        h ≤ r.2.seconds) := by
    cases hbounds : placement.bounds with
    | none =>
      cases hr : release.bind Occurrence.bounds with
      | none => exact ⟨b, Occurrence.allows_of_none hbounds b, by simp, by simp⟩
      | some r =>
        refine ⟨min b r.2.seconds, Occurrence.allows_of_none hbounds _, by simp, ?_⟩
        simp
    | some hold => exact ⟨hold.1.seconds, hplacement.allows_first hbounds, by simp, by simp⟩
  obtain ⟨h, hallowed, hknown, hunknown⟩ := hstart
  cases release with
  | none => exact ⟨h, none, hallowed, .none, by simp, hknown, fun hn => (hunknown hn).1, by simp⟩
  | some o =>
    cases hbounds : o.bounds with
    | none =>
      refine ⟨h, some (max h b), hallowed, .some (Occurrence.allows_of_none hbounds _),
        by simp, hknown, fun hn => (hunknown hn).1, ?_⟩
      rintro _ ⟨⟩
      exact ⟨max h b, rfl, by simp [hbounds], fun _ => le_max_right _ _⟩
    | some r =>
      have hle : h ≤ r.2.seconds := by
        cases hp : placement.bounds with
        | none => exact (hunknown hp).2 r (by simpa using hbounds)
        | some hold =>
          rw [hknown hold hp]
          by_contra hlt
          refine hfirst ⟨hold, hp, r, by simpa using hbounds, ?_⟩
          rw [UnixTimestamp.lt_iff]
          omega
      refine ⟨h, some r.2.seconds, hallowed, .some ((hrelease o rfl).allows_last hbounds), ?_,
        hknown, fun hn => (hunknown hn).1, ?_⟩
      · rintro _ ⟨⟩
        exact hle
      · rintro _ ⟨⟩
        exact ⟨_, rfl, by simp [hbounds], by simp [hbounds]⟩

section
variable (hdeparture : departure.Possible) (hplacement : placement.Possible)
  (hrelease : ∀ r ∈ release, r.Possible) (hfirst : ¬ ReleasedFirst placement release)
include hdeparture hplacement hrelease hfirst

theorem exists_consistent : ∃ choice, HoldChoice.Consistent departure placement release choice := by
  obtain ⟨d, hd⟩ := hdeparture
  obtain ⟨h, r, hh, hr, hordered, -⟩ := exists_early_placement hplacement hrelease hfirst 0
  exact ⟨⟨d, h, r⟩, hd, hh, hr, hordered⟩

/-- Stock left before the hold under every choice exactly if the departure ends before the
placement begins. -/
theorem forall_beforeHold_iff :
    (∀ choice, HoldChoice.Consistent departure placement release choice →
      choice.Shows .beforeHold) ↔
    ∃ leaving ∈ departure.bounds, ∃ hold ∈ placement.bounds, leaving.2 < hold.1 := by
  constructor
  · intro hall
    cases hbounds : departure.bounds with
    | none =>
      -- any instant is possible for the departure, the placement's own among them
      obtain ⟨h, r, hh, hr, hordered, -⟩ := exists_early_placement hplacement hrelease hfirst 0
      have hd := Occurrence.allows_of_none hbounds h
      exact absurd (hall ⟨h, h, r⟩ ⟨hd, hh, hr, hordered⟩) (lt_irrefl h)
    | some leaving =>
      obtain ⟨h, r, hh, hr, hordered, hknown, hunknown, -⟩ :=
        exists_early_placement hplacement hrelease hfirst leaving.2.seconds
      have hbefore : (leaving.2.seconds : Int) < h := hall ⟨leaving.2.seconds, h, r⟩
        ⟨hdeparture.allows_last hbounds, hh, hr, hordered⟩
      refine ⟨leaving, rfl, ?_⟩
      cases hp : placement.bounds with
      | none =>
        have := hunknown hp
        omega
      | some hold =>
        refine ⟨hold, rfl, ?_⟩
        rw [hknown hold hp] at hbefore
        exact_mod_cast hbefore
  · rintro ⟨leaving, hleaving, hold, hhold, hlt⟩ choice hc
    have hd := Occurrence.allows_iff.mp hc.departure_allowed leaving hleaving
    have hh := Occurrence.allows_iff.mp hc.placement_allowed hold hhold
    rw [UnixTimestamp.lt_iff] at hlt
    show choice.departure < choice.placement
    omega

/-- Stock left after the release under every choice exactly if the release ends before the
departure begins. -/
theorem forall_afterRelease_iff :
    (∀ choice, HoldChoice.Consistent departure placement release choice →
      choice.Shows .afterRelease) ↔
    ∃ leaving ∈ departure.bounds, ∃ r ∈ release.bind Occurrence.bounds, r.2 ≤ leaving.1 := by
  constructor
  · intro hall
    cases hbounds : departure.bounds with
    | none =>
      obtain ⟨h, r, hh, hr, hordered, -⟩ := exists_early_placement hplacement hrelease hfirst 0
      have hd := Occurrence.allows_of_none hbounds (h - 1)
      obtain ⟨t, ht, hle⟩ := hall ⟨h - 1, h, r⟩ ⟨hd, hh, hr, hordered⟩
      have := hordered t ht
      dsimp only at hle
      omega
    | some leaving =>
      obtain ⟨h, r, hh, hr, hordered, -, -, hlast⟩ :=
        exists_early_placement hplacement hrelease hfirst (leaving.1.seconds + 1)
      obtain ⟨t, ht, hle⟩ := hall ⟨leaving.1.seconds, h, r⟩
        ⟨hdeparture.allows_first hbounds, hh, hr, hordered⟩
      refine ⟨leaving, rfl, ?_⟩
      cases hr with
      | none => cases ht
      | @some o s _ =>
        obtain ⟨t', ht', hknown, hunknown⟩ := hlast o rfl
        obtain rfl := Option.mem_unique ht ht'
        dsimp only at hle
        cases ho : o.bounds with
        | none =>
          have := hunknown ho
          omega
        | some bound =>
          refine ⟨bound, by simpa using ho, ?_⟩
          rw [hknown bound ho] at hle
          exact_mod_cast hle
  · rintro ⟨leaving, hleaving, r, hr, hle⟩ choice hc
    have hd := Occurrence.allows_iff.mp hc.departure_allowed leaving hleaving
    obtain ⟨o, rfl, ho⟩ := Option.bind_eq_some_iff.mp hr
    obtain ⟨cd, cp, cr⟩ := choice
    cases hc.release_allowed with
    | some hallowed =>
      have ht := Occurrence.allows_iff.mp hallowed r ho
      rw [UnixTimestamp.le_iff] at hle
      refine ⟨_, rfl, ?_⟩
      dsimp only at hd ⊢
      omega

variable {leaving : UnixTimestamp × UnixTimestamp}

/-- During a hold under every choice: any release begins after stock has left. -/
theorem leaving_before_release (hleaving : departure.bounds = some leaving)
    (hall : ∀ choice, HoldChoice.Consistent departure placement release choice →
      choice.Shows .establishedBreach) :
    ∀ o ∈ release, ∃ bound ∈ o.bounds, leaving.2 < bound.1 := by
  rintro o rfl
  have hd := hdeparture.allows_last hleaving
  obtain ⟨h, r, hh, -, hordered, -, -, hlast⟩ :=
    exists_early_placement hplacement hrelease hfirst 0
  obtain ⟨t, ht, hknown, -⟩ := hlast o rfl
  cases ho : o.bounds with
  | none =>
    -- it may be released as soon as it is placed
    have hnow := Occurrence.allows_of_none ho h
    obtain ⟨hafter, hbefore⟩ := hall ⟨leaving.2.seconds, h, some h⟩ ⟨hd, hh, .some hnow, by simp⟩
    exact absurd (hbefore h rfl) (not_lt.mpr hafter)
  | some bound =>
    have hends := hordered t ht
    rw [hknown bound ho] at hends
    have hspan := (hrelease o rfl).span ho
    have hearly : o.Allows (max (bound.1.seconds : Int) h) :=
      Occurrence.allows_between ho (le_max_left _ _) (by omega)
    obtain ⟨hafter, hbefore⟩ := hall ⟨leaving.2.seconds, h, some (max (bound.1.seconds : Int) h)⟩
      ⟨hd, hh, .some hearly, by simp⟩
    have hlt := hbefore _ rfl
    dsimp only at hafter hlt
    refine ⟨bound, rfl, ?_⟩
    rw [UnixTimestamp.lt_iff]
    omega

/-- During a hold under every choice: it is placed no later than stock leaves, even as late as its
release allows. -/
theorem placement_le_leaving (hleaving : departure.bounds = some leaving)
    (hall : ∀ choice, HoldChoice.Consistent departure placement release choice →
      choice.Shows .establishedBreach) {h : Int} (hh : placement.Allows h)
    (hle : ∀ r ∈ release.bind Occurrence.bounds, h ≤ r.2.seconds) : h ≤ leaving.1.seconds := by
  have hbefore := leaving_before_release hdeparture hplacement hrelease hfirst hleaving hall
  have hd := hdeparture.allows_first hleaving
  cases release with
  | none => exact (hall ⟨leaving.1.seconds, h, none⟩ ⟨hd, hh, .none, by simp⟩).1
  | some o =>
    obtain ⟨bound, hbound, -⟩ := hbefore o rfl
    have ho := (hrelease o rfl).allows_last hbound
    exact (hall ⟨leaving.1.seconds, h, some bound.2.seconds⟩
      ⟨hd, hh, .some ho, by simpa using hle bound (by simpa using hbound)⟩).1

theorem placement_before_leaving (hleaving : departure.bounds = some leaving)
    (hall : ∀ choice, HoldChoice.Consistent departure placement release choice →
      choice.Shows .establishedBreach) : ∃ hold ∈ placement.bounds, hold.2 ≤ leaving.1 := by
  have hspan := hdeparture.span hleaving
  have hbefore := leaving_before_release hdeparture hplacement hrelease hfirst hleaving hall
  have hlate := fun {h : Int} => placement_le_leaving (h := h) hdeparture hplacement hrelease hfirst
    hleaving hall
  -- the end of the release, which is after the departure
  have hafter : ∀ r ∈ release.bind Occurrence.bounds, leaving.2.seconds < r.2.seconds := by
    intro r hr
    obtain ⟨o, ho, hbound⟩ := Option.bind_eq_some_iff.mp hr
    obtain ⟨bound, hmem, hlt⟩ := hbefore o ho
    obtain rfl := Option.mem_unique hmem hbound
    have := (hrelease o ho).span hbound
    rw [UnixTimestamp.lt_iff] at hlt
    omega
  cases hr : release.bind Occurrence.bounds with
  | none =>
    cases hp : placement.bounds with
    | none =>
      have := hlate (Occurrence.allows_of_none hp (leaving.1.seconds + 1)) (by simp [hr])
      omega
    | some hold =>
      have := hlate (hplacement.allows_last hp) (by simp [hr])
      exact ⟨hold, rfl, by exact_mod_cast this⟩
  | some r =>
    have hlt := hafter r hr
    cases hp : placement.bounds with
    | none =>
      have := hlate (Occurrence.allows_of_none hp r.2.seconds) (by rw [hr]; rintro _ ⟨⟩; rfl)
      omega
    | some hold =>
      have hstarts : hold.1.seconds ≤ r.2.seconds := by
        by_contra hgt
        exact hfirst ⟨hold, hp, r, hr, UnixTimestamp.lt_iff.mpr (by omega)⟩
      have hheld := hplacement.span hp
      have hh : placement.Allows (min (hold.2.seconds : Int) r.2.seconds) :=
        Occurrence.allows_between hp (by omega) (min_le_left _ _)
      have := hlate hh (by rw [hr]; rintro _ ⟨⟩; exact min_le_right _ _)
      refine ⟨hold, rfl, ?_⟩
      rw [UnixTimestamp.le_iff]
      omega

/-- Stock left during the hold under every choice exactly if the placement ends before the
departure begins, and the departure before any release begins. -/
theorem forall_breach_iff :
    (∀ choice, HoldChoice.Consistent departure placement release choice →
      choice.Shows .establishedBreach) ↔
    ∃ leaving ∈ departure.bounds, (∃ hold ∈ placement.bounds, hold.2 ≤ leaving.1) ∧
      ∀ o ∈ release, ∃ bound ∈ o.bounds, leaving.2 < bound.1 := by
  constructor
  · intro hall
    cases hbounds : departure.bounds with
    | none =>
      obtain ⟨h, r, hh, hr, hordered, -⟩ := exists_early_placement hplacement hrelease hfirst 0
      have hd := Occurrence.allows_of_none hbounds (h - 1)
      obtain ⟨hafter, -⟩ := hall ⟨h - 1, h, r⟩ ⟨hd, hh, hr, hordered⟩
      dsimp only at hafter
      omega
    | some leaving =>
      exact ⟨leaving, rfl,
        placement_before_leaving hdeparture hplacement hrelease hfirst hbounds hall,
        leaving_before_release hdeparture hplacement hrelease hfirst hbounds hall⟩
  · rintro ⟨leaving, hleaving, ⟨hold, hhold, hle⟩, hbefore⟩ choice hc
    have hd := Occurrence.allows_iff.mp hc.departure_allowed leaving hleaving
    have hh := Occurrence.allows_iff.mp hc.placement_allowed hold hhold
    rw [UnixTimestamp.le_iff] at hle
    obtain ⟨cd, cp, cr⟩ := choice
    dsimp only at hd hh
    refine ⟨by dsimp only; omega, fun t ht => ?_⟩
    cases hc.release_allowed with
    | none => cases ht
    | some hallowed =>
      cases ht
      obtain ⟨bound, hbound, hlt⟩ := hbefore _ rfl
      have := Occurrence.allows_iff.mp hallowed bound hbound
      rw [UnixTimestamp.lt_iff] at hlt
      dsimp only
      omega

end

variable {choice : HoldChoice}

section
variable (hc : choice.Consistent departure placement release)
include hc

/-- A release that ends before the placement begins leaves no consistent choice. -/
theorem not_releasedFirst : ¬ ReleasedFirst placement release := by
  rintro ⟨hold, hhold, r, hr, hlt⟩
  obtain ⟨o, rfl, ho⟩ := Option.bind_eq_some_iff.mp hr
  have hh := Occurrence.allows_iff.mp hc.placement_allowed hold hhold
  have hordered := hc.ordered
  obtain ⟨cd, cp, cr⟩ := choice
  cases hc.release_allowed with
  | some hallowed =>
    have ht := Occurrence.allows_iff.mp hallowed r ho
    have hle := hordered _ rfl
    rw [UnixTimestamp.lt_iff] at hlt
    dsimp only at hh hle
    omega

/-- A consistent choice shows one thing only. -/
theorem HoldChoice.Consistent.unique {a b : HistoricalHoldTiming} (ha : choice.Shows a)
    (hb : choice.Shows b) : a = b := by
  have hordered := hc.ordered
  cases a <;> cases b <;> first
    | rfl
    | exact absurd ha id
    | exact absurd hb id
    | skip
  case establishedBreach.beforeHold =>
    exact absurd hb (not_lt.mpr ha.1)
  case beforeHold.establishedBreach =>
    exact absurd ha (not_lt.mpr hb.1)
  case establishedBreach.afterRelease =>
    obtain ⟨t, ht, hle⟩ := hb
    exact absurd (ha.2 t ht) (not_lt.mpr hle)
  case afterRelease.establishedBreach =>
    obtain ⟨t, ht, hle⟩ := ha
    exact absurd (hb.2 t ht) (not_lt.mpr hle)
  case beforeHold.afterRelease =>
    obtain ⟨t, ht, hle⟩ := hb
    exact absurd ha (not_lt.mpr ((hordered t ht).trans hle))
  case afterRelease.beforeHold =>
    obtain ⟨t, ht, hle⟩ := ha
    exact absurd hb (not_lt.mpr ((hordered t ht).trans hle))

theorem HoldChoice.Consistent.possible :
    departure.Possible ∧ placement.Possible ∧ ∀ r ∈ release, r.Possible := by
  refine ⟨⟨_, hc.departure_allowed⟩, ⟨_, hc.placement_allowed⟩, ?_⟩
  rintro r rfl
  obtain ⟨cd, cp, cr⟩ := choice
  cases hc.release_allowed with
  | some hallowed => exact ⟨_, hallowed⟩

end

variable {verdict : HistoricalHoldTiming}

/-- The verdicts of the comparison, one condition each. -/
theorem classifyHoldTiming_eq (hdeparture : departure.Possible) (hplacement : placement.Possible)
    (hrelease : ∀ r ∈ release, r.Possible) (hfirst : ¬ ReleasedFirst placement release)
    (hv : verdict ≠ .timingUnknown) :
    classifyHoldTiming departure placement release = verdict ↔
      ∀ choice, HoldChoice.Consistent departure placement release choice →
        choice.Shows verdict := by
  have hinverted : ¬ (departure.Inverted ∨ placement.Inverted ∨ ∃ r ∈ release, r.Inverted) := by
    rintro (h | h | ⟨r, hr, h⟩)
    · exact Occurrence.not_inverted_iff.mpr hdeparture h
    · exact Occurrence.not_inverted_iff.mpr hplacement h
    · exact Occurrence.not_inverted_iff.mpr (hrelease r hr) h
  obtain ⟨choice, hc⟩ := exists_consistent hdeparture hplacement hrelease hfirst
  have hbefore := forall_beforeHold_iff hdeparture hplacement hrelease hfirst
  have hafter := forall_afterRelease_iff hdeparture hplacement hrelease hfirst
  have hbreach := forall_breach_iff hdeparture hplacement hrelease hfirst
  -- what every choice shows is unique, since there is a choice
  have hunique : ∀ {a b : HistoricalHoldTiming},
      (∀ choice, HoldChoice.Consistent departure placement release choice → choice.Shows a) →
      (∀ choice, HoldChoice.Consistent departure placement release choice → choice.Shows b) →
      a = b := fun ha hb => hc.unique (ha choice hc) (hb choice hc)
  unfold ReleasedFirst at hfirst
  rw [classifyHoldTiming, if_neg hinverted, if_neg hfirst]
  cases hd : departure.bounds with
  | none =>
    refine iff_of_false hv.symm fun hall => ?_
    cases verdict with
    | establishedBreach => simpa [hd] using hbreach.mp hall
    | beforeHold => simpa [hd] using hbefore.mp hall
    | afterRelease => simpa [hd] using hafter.mp hall
    | timingUnknown => exact hv rfl
  | some leaving =>
    simp only [hd, Option.mem_def, Option.some.injEq, exists_eq_left'] at hbefore hafter hbreach
    dsimp only [Option.mem_def]
    split_ifs with h₁ h₂ h₃
    · have hall := hbefore.mpr h₁
      exact ⟨fun h => h ▸ hall, fun h => hunique hall h⟩
    · have hall := hafter.mpr h₂
      exact ⟨fun h => h ▸ hall, fun h => hunique hall h⟩
    · have hall := hbreach.mpr h₃
      exact ⟨fun h => h ▸ hall, fun h => hunique hall h⟩
    · refine iff_of_false hv.symm fun hall => ?_
      cases verdict with
      | establishedBreach => exact h₃ (hbreach.mp hall)
      | beforeHold => exact h₁ (hbefore.mp hall)
      | afterRelease => exact h₂ (hafter.mp hall)
      | timingUnknown => exact hv rfl

theorem definite_iff (hdeparture : departure.Possible) (hplacement : placement.Possible)
    (hrelease : ∀ r ∈ release, r.Possible) (hv : verdict ≠ .timingUnknown) :
    classifyHoldTiming departure placement release = verdict ↔
      (∃ choice, HoldChoice.Consistent departure placement release choice) ∧
      ∀ choice, HoldChoice.Consistent departure placement release choice →
        choice.Shows verdict := by
  by_cases hfirst : ReleasedFirst placement release
  · refine iff_of_false ?_ fun ⟨⟨choice, hc⟩, _⟩ => not_releasedFirst hc hfirst
    intro h
    refine hv (h.symm.trans ?_)
    unfold ReleasedFirst at hfirst
    rw [classifyHoldTiming, if_pos hfirst, ite_self]
  · rw [classifyHoldTiming_eq hdeparture hplacement hrelease hfirst hv]
    exact (and_iff_right (exists_consistent hdeparture hplacement hrelease hfirst)).symm

/-- A breach is read off the bounds. -/
theorem bounds_of_breach (h : classifyHoldTiming departure placement release = .establishedBreach) :
    ∃ leaving ∈ departure.bounds, (∃ hold ∈ placement.bounds, hold.2 ≤ leaving.1) ∧
      ∀ o ∈ release, ∃ bound ∈ o.bounds, leaving.2 < bound.1 := by
  rw [classifyHoldTiming] at h
  split at h
  · cases h
  split at h
  · cases h
  cases hd : departure.bounds with
  | none => simp [hd] at h
  | some leaving =>
    simp only [hd] at h
    split_ifs at h with _ _ hbreach
    exact ⟨leaving, rfl, hbreach⟩

/-- A consistent choice of narrower occurrences is one of the wider. -/
theorem HoldChoice.Consistent.widen {narrowed placed : Occurrence} {lifted : Option Occurrence}
    (hc : choice.Consistent narrowed placed lifted)
    (hdeparture : ∀ t, narrowed.Allows t → departure.Allows t)
    (hplacement : ∀ t, placed.Allows t → placement.Allows t)
    (hrelease : Option.Rel (fun n r => ∀ t, Occurrence.Allows n t → r.Allows t) lifted release) :
    choice.Consistent departure placement release where
  departure_allowed := hdeparture _ hc.departure_allowed
  placement_allowed := hplacement _ hc.placement_allowed
  release_allowed := by
    obtain ⟨cd, cp, cr⟩ := choice
    cases hc.release_allowed with
    | none =>
      cases hrelease
      exact .none
    | some hallowed =>
      cases hrelease with
      | some hsub => exact .some (hsub _ hallowed)
  ordered := hc.ordered

/-- A verdict is given exactly when some choice of instants is consistent and all consistent
choices show it; so narrowing the occurrences, as long as a consistent choice is left, keeps it. -/
theorem classifyHoldTiming_exact (departure placement : Occurrence) (release : Option Occurrence)
    (hdeparture : departure.Possible) (hplacement : placement.Possible)
    (hrelease : ∀ r ∈ release, r.Possible) (verdict : HistoricalHoldTiming)
    (hv : verdict ≠ .timingUnknown) :
    (classifyHoldTiming departure placement release = verdict ↔
      (∃ choice, HoldChoice.Consistent departure placement release choice) ∧
      ∀ choice, HoldChoice.Consistent departure placement release choice →
        choice.Shows verdict) ∧
    ∀ narrowed placed lifted, (∀ t, narrowed.Allows t → departure.Allows t) →
      (∀ t, placed.Allows t → placement.Allows t) →
      Option.Rel (fun n r => ∀ t, Occurrence.Allows n t → r.Allows t) lifted release →
      (∃ choice, HoldChoice.Consistent narrowed placed lifted choice) →
      classifyHoldTiming departure placement release = verdict →
      classifyHoldTiming narrowed placed lifted = verdict := by
  have hexact := definite_iff hdeparture hplacement hrelease hv
  refine ⟨hexact, ?_⟩
  rintro narrowed placed lifted hd hp hr ⟨choice, hc⟩ hverdict
  obtain ⟨hnarrowed, hplaced, hlifted⟩ := hc.possible
  refine (definite_iff hnarrowed hplaced hlifted hv).mpr ⟨⟨choice, hc⟩, fun choice hc => ?_⟩
  exact (hexact.mp hverdict).2 choice (hc.widen hd hp hr)

end

/-- Stock that left between ten and twenty, under a hold placed at five and lifted after thirty. -/
theorem classifyHoldTiming_exact_crate :
    classifyHoldTiming (.interval (.of 10) (.of 20)) (.known (.of 5))
      (some (.interval (.of 30) (.of 40))) = .establishedBreach ∧
    (∃ choice, HoldChoice.Consistent (.interval (.of 10) (.of 20))
      (.known (.of 5)) (some (.interval (.of 30) (.of 40))) choice) ∧
    ∀ choice, HoldChoice.Consistent (.interval (.of 10) (.of 20))
      (.known (.of 5)) (some (.interval (.of 30) (.of 40))) choice →
      choice.Shows .establishedBreach := by
  have hverdict : classifyHoldTiming (.interval (.of 10) (.of 20))
      (.known (.of 5)) (some (.interval (.of 30) (.of 40))) =
      .establishedBreach := by decide
  refine ⟨hverdict, (classifyHoldTiming_exact _ _ _ ⟨10, ?_⟩ ⟨5, ?_⟩ ?_ _ ?_).1.mp hverdict⟩
  · simp [Occurrence.Allows]
  · simp [Occurrence.Allows]
  · rintro _ ⟨⟩
    exact ⟨30, by simp [Occurrence.Allows]⟩
  · decide

end HarvestCircle
