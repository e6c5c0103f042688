import Mathlib.Data.List.Chain
import HarvestCircle.ChangeStream

/-! # What a subscriber sees

The accepted changes are strictly ordered and each names the revision before it.  A
receiver delivers some of them, in that order, beginning with the one at subscription
time; and when it has nothing left to do it has delivered the last one.
-/
namespace HarvestCircle

namespace Subscription

/-- What holds of a subscription between any two steps. -/
structure Sound (subscription : Subscription) : Prop where
  ordered : subscription.accepted.Pairwise fun a b => b.snapshot.IsNewerThan a.snapshot
  linked : subscription.accepted.IsChain fun a b => b.previousRevision = some a.revision
  latest : subscription.accepted.getLast? = some subscription.latest
  queued : ∀ change ∈ subscription.queue, change ∈ subscription.accepted
  delivered_mem : ∀ change ∈ subscription.delivered, change ∈ subscription.accepted
  delivered_ordered :
    subscription.delivered.Pairwise fun a b => b.snapshot.IsNewerThan a.snapshot
  last : subscription.lastDelivered = subscription.delivered.getLast?.map (·.snapshot)
  first : subscription.delivered = [] →
    (subscription.stage = .idle ∨ subscription.stage = .polling) ∧
      subscription.queue.head? = subscription.accepted.head?
  begins : subscription.delivered ≠ [] →
    subscription.delivered.head? = subscription.accepted.head?
  waiting : subscription.stage = .waiting → subscription.queue = [] →
    subscription.delivered.getLast? = subscription.accepted.getLast?

variable {subscription : Subscription}

theorem subscribe_sound (capacity : Nat) (positive : 0 < capacity) (snapshot : PublishedSnapshot) :
    (subscribe capacity positive snapshot).Sound := by
  constructor <;> simp [subscribe]

/-- The accepted changes before the latest one, and it. -/
theorem Sound.accepted_eq (h : subscription.Sound) :
    ∃ earlier, subscription.accepted = earlier ++ [subscription.latest] :=
  List.getLast?_eq_some_iff.mp h.latest

variable {change : SnapshotChange}

section
variable (h : subscription.Sound)
include h

/-- The latest change is newer than every other that was accepted. -/
theorem Sound.latest_newest (hchange : change ∈ subscription.accepted) :
    change = subscription.latest ∨ subscription.latest.snapshot.IsNewerThan change.snapshot := by
  obtain ⟨earlier, hearlier⟩ := h.accepted_eq
  have hordered := h.ordered
  rw [hearlier] at hchange hordered
  rcases List.mem_append.mp hchange with hmem | hmem
  · exact .inr ((List.pairwise_append.mp hordered).2.2 change hmem _ (List.mem_singleton_self _))
  · exact .inl (List.mem_singleton.mp hmem)

theorem Sound.send (hnewer : change.snapshot.IsNewerThan subscription.latest.snapshot)
    (hprevious : change.previousRevision = some subscription.latest.revision) :
    (subscription.send change).Sound := by
  have hqueue : (subscription.send change).queue ≠ [] := by
    simp only [Subscription.send]
    split
    · simp
    · rename_i hfull
      have := subscription.positive
      intro hempty
      rw [hempty] at hfull
      simp at hfull
      omega
  have haccepted : subscription.accepted ≠ [] := by
    intro hempty
    have := h.latest
    rw [hempty] at this
    cases this
  refine {
    ordered := ?_
    linked := ?_
    latest := by simp [Subscription.send]
    queued := fun c hc => ?_
    delivered_mem := fun c hc => List.mem_append_left _ (h.delivered_mem c hc)
    delivered_ordered := h.delivered_ordered
    last := h.last
    first := fun hnone => ?_
    begins := fun hsome => ?_
    waiting := fun _ hempty => absurd hempty hqueue }
  · refine List.pairwise_append.mpr ⟨h.ordered, List.pairwise_singleton _ _, fun a ha b hb => ?_⟩
    rw [List.mem_singleton.mp hb]
    rcases h.latest_newest ha with rfl | hlatest
    · exact hnewer
    · exact hlatest.trans hnewer
  · refine List.isChain_append.mpr ⟨h.linked, List.isChain_singleton _, fun a ha b hb => ?_⟩
    rw [h.latest] at ha
    obtain rfl := Option.some.inj ha
    obtain rfl := Option.some.inj hb
    exact hprevious
  · simp only [Subscription.send] at hc ⊢
    split at hc
    · rcases List.mem_append.mp hc with hc | hc
      · exact List.mem_append_left _ (h.queued c hc)
      · exact List.mem_append_right _ hc
    · exact List.mem_append_left _ (h.queued c hc)
  · obtain ⟨hstage, hhead⟩ := h.first hnone
    refine ⟨hstage, ?_⟩
    obtain ⟨initial, rest, hinitial⟩ := List.exists_cons_of_ne_nil haccepted
    rw [hinitial] at hhead
    obtain ⟨rest', hrest'⟩ := List.head?_eq_some_iff.mp hhead
    simp only [Subscription.send, hinitial, hrest']
    split <;> simp
  · refine (h.begins hsome).trans ?_
    obtain ⟨initial, rest, hinitial⟩ := List.exists_cons_of_ne_nil haccepted
    simp [Subscription.send, hinitial]

/-- Delivering an accepted change that is newer; the first one is the one at subscription. -/
theorem Sound.deliver (hchange : change ∈ subscription.accepted)
    (hnewer : subscription.Newer change)
    (hfirst : subscription.delivered = [] → subscription.accepted.head? = some change) :
    (subscription.deliver change).Sound where
  ordered := h.ordered
  linked := h.linked
  latest := h.latest
  queued := h.queued
  delivered_mem := fun c hc => by
    rcases List.mem_append.mp hc with hc | hc
    · exact h.delivered_mem c hc
    · exact List.mem_singleton.mp hc ▸ hchange
  delivered_ordered := by
    refine List.pairwise_append.mpr ⟨h.delivered_ordered, List.pairwise_singleton _ _, ?_⟩
    intro a ha b hb
    rw [List.mem_singleton.mp hb]
    -- the last delivered one is newer than those before it
    obtain ⟨earlier, d, hd⟩ := List.eq_nil_or_concat'  subscription.delivered |>.resolve_left
      (List.ne_nil_of_mem ha)
    have hlast : change.snapshot.IsNewerThan d.snapshot := by
      refine hnewer d.snapshot ?_
      rw [h.last, hd]
      simp
    have hordered := h.delivered_ordered
    rw [hd] at ha hordered
    rcases List.mem_append.mp ha with ha | ha
    · exact ((List.pairwise_append.mp hordered).2.2 a ha d (by simp)).trans hlast
    · exact List.mem_singleton.mp ha ▸ hlast
  last := by simp [Subscription.deliver]
  first := by simp [Subscription.deliver]
  begins := fun _ => by
    by_cases hnone : subscription.delivered = []
    · simp [Subscription.deliver, hnone, hfirst hnone]
    · refine Eq.trans ?_ (h.begins hnone)
      obtain ⟨d, rest, hd⟩ := List.exists_cons_of_ne_nil hnone
      simp [Subscription.deliver, hd]
  waiting := by simp [Subscription.deliver]

/-- **A receiver that finds nothing newer in the cell has delivered everything to the last.** -/
theorem Sound.caught_up (hsome : subscription.delivered ≠ [])
    (hold : ¬ subscription.Newer subscription.latest) :
    subscription.delivered.getLast? = subscription.accepted.getLast? := by
  obtain ⟨earlier, d, hd⟩ := (List.eq_nil_or_concat' subscription.delivered).resolve_left hsome
  have hlast : subscription.delivered.getLast? = some d := by simp [hd]
  rw [hlast, h.latest]
  rcases h.latest_newest (h.delivered_mem d (by simp [hd])) with rfl | hnewer
  · rfl
  · refine absurd (fun delivered hdelivered => ?_) hold
    rw [h.last, hlast] at hdelivered
    obtain rfl := Option.some.inj hdelivered
    exact hnewer

/-- The flags and the stage may change without a delivery, except that a receiver starts to
wait only when it has caught up. -/
theorem Sound.restage {sending receiving : Bool} {stage : ReceiveStage}
    (hfirst : subscription.delivered = [] → stage = .idle ∨ stage = .polling)
    (hwaiting : stage = .waiting → subscription.queue = [] →
      subscription.delivered.getLast? = subscription.accepted.getLast?) :
    Sound { subscription with sending, receiving, stage } where
  ordered := h.ordered
  linked := h.linked
  latest := h.latest
  queued := h.queued
  delivered_mem := h.delivered_mem
  delivered_ordered := h.delivered_ordered
  last := h.last
  first := fun hnone => ⟨hfirst hnone, (h.first hnone).2⟩
  begins := h.begins
  waiting := hwaiting

theorem Sound.flags (sending receiving : Bool) : Sound { subscription with sending, receiving } :=
  h.restage (fun hnone => (h.first hnone).1) h.waiting

/-- A change is taken from the queue. -/
theorem Sound.take {rest : List SnapshotChange} (hqueue : subscription.queue = change :: rest) :
    (subscription.take change rest).Sound := by
  have hchange : change ∈ subscription.accepted := h.queued change (by simp [hqueue])
  have hpopped : subscription.delivered ≠ [] → ∀ stage, stage ≠ .waiting →
      Sound { subscription with queue := rest, stage } := fun hsome stage hstage => {
    ordered := h.ordered
    linked := h.linked
    latest := h.latest
    queued := fun c hc => h.queued c (by simp [hqueue, hc])
    delivered_mem := h.delivered_mem
    delivered_ordered := h.delivered_ordered
    last := h.last
    first := fun hnone => absurd hnone hsome
    begins := h.begins
    waiting := fun hwaiting => absurd hwaiting hstage }
  simp only [Subscription.take]
  split
  · rename_i hnewer
    by_cases hnone : subscription.delivered = []
    · -- the first one: everything else is as it was
      have hinitial : subscription.accepted.head? = some change := by
        rw [← (h.first hnone).2, hqueue]
        rfl
      have hdelivered := h.deliver hchange hnewer fun _ => hinitial
      exact { hdelivered with
        queued := fun c hc => h.queued c (hqueue ▸ List.mem_cons_of_mem _ hc)
        first := by simp [Subscription.deliver]
        waiting := by simp [Subscription.deliver] }
    · exact (hpopped hnone .idle (by simp)).deliver hchange hnewer fun h' => absurd h' hnone
  · rename_i hold
    refine hpopped (fun hnone => hold fun delivered hdelivered => ?_) .polling (by simp)
    have hlast := h.last
    rw [hnone] at hlast
    rw [hlast] at hdelivered
    cases hdelivered

/-- The cell is not looked at before the first delivery. -/
theorem Sound.delivered_of_retained {queueOpen : Bool}
    (hstage : subscription.stage = .retained queueOpen) : subscription.delivered ≠ [] := by
  intro hnone
  rcases (h.first hnone).1 with hidle | hpolling
  · rw [hidle] at hstage
    cases hstage
  · rw [hpolling] at hstage
    cases hstage

/-- **One read keeps the invariant.** -/
theorem Sound.advance : subscription.advance.1.Sound := by
  unfold Subscription.advance
  split
  · exact h.restage (fun _ => .inr rfl) (by simp)
  · split
    · rename_i hqueue
      exact h.take hqueue
    · rename_i hempty
      refine h.restage (fun hnone => ?_) (by simp)
      have hhead := (h.first hnone).2
      obtain ⟨earlier, hearlier⟩ := h.accepted_eq
      rw [hempty, hearlier] at hhead
      simp at hhead
  · rename_i hstage
    have hsome := h.delivered_of_retained hstage
    dsimp only
    split
    · rename_i hnewer
      refine h.deliver ?_ hnewer fun hnone => absurd hnone hsome
      exact List.mem_of_getLast? h.latest
    · rename_i hold
      split
      · exact h.restage (fun hnone => absurd hnone hsome) fun _ _ => h.caught_up hsome hold
      · exact h.restage (fun _ => .inl rfl) (by simp)
  · split
    · rename_i hqueue
      exact h.take hqueue
    · split
      · exact h
      · exact h.restage (fun _ => .inr rfl) (by simp)

theorem Sound.cancel : subscription.cancel.Sound := by
  unfold Subscription.cancel
  split
  · exact h.restage (fun _ => .inl rfl) (by simp)
  · exact h

/-- A receiver that returns `None` has delivered everything to the last. -/
theorem Sound.caught_up_of_none (hnone : subscription.advance.2 = some none) :
    subscription.delivered.getLast? = subscription.accepted.getLast? := by
  unfold Subscription.advance at hnone
  split at hnone
  · cases hnone
  · split at hnone
    · split at hnone <;> cases hnone
    · cases hnone
  · rename_i hstage
    have hsome := h.delivered_of_retained hstage
    dsimp only at hnone
    split at hnone
    · cases hnone
    · rename_i hold
      exact h.caught_up hsome hold
  · split at hnone
    · split at hnone <;> cases hnone
    · split at hnone <;> cases hnone

/-- Deliveries are some of the accepted changes, in the order they were accepted. -/
theorem Sound.delivered_sublist : subscription.delivered.Sublist subscription.accepted := by
  let later (a b : SnapshotChange) : Prop := b.snapshot.IsNewerThan a.snapshot
  have hantisymm : Std.Antisymm later := ⟨fun a b hab hba =>
    absurd (hab.trans hba) (PublishedSnapshot.not_isNewerThan_self _)⟩
  have hnodup : subscription.delivered.Nodup := by
    refine List.Pairwise.imp (fun {a b} hab => ?_) h.delivered_ordered
    rintro rfl
    exact PublishedSnapshot.not_isNewerThan_self _ hab
  exact List.sublist_of_subperm_of_pairwise
    (List.subperm_of_subset hnodup h.delivered_mem) h.delivered_ordered h.ordered

end

variable {c d : SnapshotChange}

/-- Of two accepted changes the newer one was accepted later. -/
theorem Sound.split_accepted (h : subscription.Sound) (hd : d ∈ subscription.accepted)
    (hc : c ∈ subscription.accepted) (hnewer : c.snapshot.IsNewerThan d.snapshot) :
    ∃ earlier between later, subscription.accepted = earlier ++ d :: between ++ c :: later := by
  obtain ⟨front, later, hsplit⟩ := List.append_of_mem hc
  have hordered := h.ordered
  rw [hsplit] at hd hordered
  rcases List.mem_append.mp hd with hd | hd
  · obtain ⟨earlier, between, rfl⟩ := List.append_of_mem hd
    exact ⟨earlier, between, later, hsplit⟩
  · rcases List.mem_cons.mp hd with rfl | hd
    · exact absurd hnewer (PublishedSnapshot.not_isNewerThan_self _)
    · have hafter := (List.pairwise_cons.mp (List.pairwise_append.mp hordered).2.1).1 d hd
      exact absurd (hafter.trans hnewer) (PublishedSnapshot.not_isNewerThan_self _)

/-- **A delivery shows a gap exactly when a later revision was left out before it.** -/
theorem Sound.gap_iff (h : subscription.Sound) {earlier between later : List SnapshotChange}
    (hsplit : subscription.accepted = earlier ++ d :: between ++ c :: later) :
    c.RecoversGapAfter d.revision ↔ ∃ x ∈ between, d.revision.value < x.revision.value := by
  have hordered : (d :: between).Pairwise fun a b => b.snapshot.IsNewerThan a.snapshot := by
    have := h.ordered
    rw [hsplit] at this
    exact (List.pairwise_append.mp (List.pairwise_append.mp this).1).2.1
  -- the change names the revision of the one accepted just before it
  have hprevious : ∀ p, (d :: between).getLast? = some p →
      c.previousRevision = some p.revision := by
    intro p hp
    have hlinked := h.linked
    rw [hsplit] at hlinked
    refine (List.isChain_append.mp hlinked).2.2 p ?_ c rfl
    rw [List.getLast?_append, hp]
    rfl
  have hgap : ∀ p : SnapshotChange, c.previousRevision = some p.revision →
      (c.RecoversGapAfter d.revision ↔ p.revision.value ≠ d.revision.value) := by
    intro p hp
    rw [SnapshotChange.RecoversGapAfter, hp, ne_eq, ← SnapshotRevision.ext_iff]
    simp
  rcases List.eq_nil_or_concat' between with rfl | ⟨front, p, rfl⟩
  · rw [hgap d (hprevious d rfl)]
    simp
  · rw [hgap p (hprevious p (by rw [← List.cons_append, List.getLast?_concat]))]
    obtain ⟨hlast, hrest⟩ := List.pairwise_cons.mp hordered
    have hle : d.revision.value ≤ p.revision.value := (hlast p (by simp)).revision_le
    constructor
    · intro hne
      exact ⟨p, by simp, by omega⟩
    · rintro ⟨x, hx, hlt⟩
      have hxp : x.revision.value ≤ p.revision.value := by
        rcases List.mem_append.mp hx with hx | hx
        · exact ((List.pairwise_append.mp hrest).2.2 x hx p (by simp)).revision_le
        · exact (congrArg (fun y => y.revision.value) (List.mem_singleton.mp hx)).le
      omega

end Subscription

namespace OrderedSnapshotChanges
open Subscription

/-- Every subscription is sound, and one that is still sent to has the publisher's snapshot. -/
def Sound (changes : OrderedSnapshotChanges) : Prop :=
  ∀ id subscription, changes.subscriptions id = some subscription →
    subscription.Sound ∧
      (subscription.sending = true → subscription.latest.snapshot = changes.latest)

variable {changes : OrderedSnapshotChanges}

theorem Sound.modify (h : changes.Sound) (id : Nat) {f : Subscription → Subscription}
    (hf : ∀ subscription, subscription.Sound → (f subscription).Sound ∧
      (f subscription).latest = subscription.latest ∧
      ((f subscription).sending = true → subscription.sending = true)) :
    (changes.modify id f).Sound := by
  intro other subscription' hsome
  simp only [OrderedSnapshotChanges.modify] at hsome
  split at hsome
  · obtain ⟨subscription, hold, rfl⟩ := Option.map_eq_some_iff.mp hsome
    obtain ⟨hsound, hlatest⟩ := h id subscription hold
    obtain ⟨hsound', hsame, hsending⟩ := hf subscription hsound
    exact ⟨hsound', fun hs => hsame ▸ hlatest (hsending hs)⟩
  · exact h other subscription' hsome

/-- Reads leave the sending side alone. -/
theorem advance_sending (subscription : Subscription) :
    subscription.advance.1.latest = subscription.latest ∧
      subscription.advance.1.sending = subscription.sending := by
  unfold Subscription.advance
  split
  · exact ⟨rfl, rfl⟩
  · split
    · simp only [Subscription.take]
      split <;> exact ⟨rfl, rfl⟩
    · exact ⟨rfl, rfl⟩
  · dsimp only
    split
    · exact ⟨rfl, rfl⟩
    · split <;> exact ⟨rfl, rfl⟩
  · split
    · simp only [Subscription.take]
      split <;> exact ⟨rfl, rfl⟩
    · split <;> exact ⟨rfl, rfl⟩

/-- **One event keeps every subscription sound.** -/
theorem Sound.apply (h : changes.Sound) (event : Event) : (changes.apply event).Sound := by
  cases event with
  | subscribe capacity positive =>
    simp only [OrderedSnapshotChanges.apply, OrderedSnapshotChanges.subscribe]
    split
    · exact h
    · intro id subscription hsome
      dsimp only at hsome
      split at hsome
      · obtain rfl := Option.some.inj hsome
        exact ⟨subscribe_sound capacity positive _, fun _ => rfl⟩
      · exact h id subscription hsome
  | publish snapshot =>
    have hretain : ∀ id subscription', (changes.subscriptions id).map retain = some subscription' →
        subscription'.Sound ∧
          (subscription'.sending = true → subscription'.latest.snapshot = changes.latest) := by
      intro id subscription' hsome
      obtain ⟨subscription, hold, rfl⟩ := Option.map_eq_some_iff.mp hsome
      obtain ⟨hsound, hlatest⟩ := h id subscription hold
      unfold retain
      split
      · exact ⟨hsound, hlatest⟩
      · exact ⟨hsound.flags _ _, by simp⟩
    simp only [OrderedSnapshotChanges.apply, OrderedSnapshotChanges.publish]
    split
    · exact hretain
    · rename_i haccepted
      rw [not_or, not_not] at haccepted
      intro id subscription' hsome
      obtain ⟨subscription, hold, rfl⟩ := Option.map_eq_some_iff.mp hsome
      obtain ⟨hsound, hlatest⟩ := hretain id subscription hold
      dsimp only
      split
      · rename_i hsending
        have hsame := hlatest hsending
        refine ⟨hsound.send (hsame ▸ haccepted.2) ?_, fun _ => rfl⟩
        rw [SnapshotChange.revision, hsame]
      · rename_i hgone
        exact ⟨hsound, fun hsending => absurd hsending hgone⟩
  | close =>
    intro id subscription' hsome
    obtain ⟨subscription, hold, rfl⟩ := Option.map_eq_some_iff.mp hsome
    exact ⟨(h id subscription hold).1.flags _ _, by simp⟩
  | unsubscribe id => exact h.modify id fun s hs => ⟨hs.flags _ _, rfl, by simp⟩
  | advance id =>
    refine h.modify id fun s hs => ?_
    split
    · obtain ⟨hlatest, hsending⟩ := advance_sending s
      exact ⟨hs.advance, hlatest, fun h' => hsending ▸ h'⟩
    · exact ⟨hs, rfl, fun h' => h'⟩
  | cancel id =>
    refine h.modify id fun s hs => ⟨hs.cancel, ?_, ?_⟩
    · unfold Subscription.cancel
      split <;> rfl
    · unfold Subscription.cancel
      split <;> exact fun h' => h'
  | dropReceiver id => exact h.modify id fun s hs => ⟨hs.flags _ _, rfl, fun h' => h'⟩

theorem after_sound (initialSnapshot : PublishedSnapshot) (events : List Event) :
    (after initialSnapshot events).Sound := by
  have general : ∀ changes : OrderedSnapshotChanges, changes.Sound →
      (events.foldl apply changes).Sound := by
    induction events with
    | nil => exact fun _ h => h
    | cons event events ih => exact fun changes h => ih _ (h.apply event)
  refine general _ fun id subscription hsome => ?_
  cases hsome

/-- The snapshot at a revision, outside any runtime session. -/
def plainSnapshot (revision : SnapshotRevision) : PublishedSnapshot :=
  { AppSnapshot.booting with revision, runtimeSession := none }

/-- Two snapshots are published before the receiver of a queue of one first looks; it reads the
queue, then the cell, and then waits. -/
def slowEvents : List Event :=
  [.subscribe 1 Nat.one_pos, .publish (plainSnapshot (.of 1)),
    .publish (plainSnapshot (.of 2))] ++ List.replicate 8 (.advance 1)

end OrderedSnapshotChanges

end HarvestCircle
