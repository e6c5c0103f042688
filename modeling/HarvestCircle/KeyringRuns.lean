import HarvestCircle.KeyringWorker

/-! # What callers of the keyring can rely on

The calls that the store was asked for, and those it is still to be asked for, are in order.  What
a call is told follows from whether its response is still to be sent, and whether the store was
asked: `KeyringCall.Tells`.  A step is about one call, and all others stay where they are.
-/
namespace HarvestCircle
open Linearization

/-! ## One call -/

/-- What holds of a call that the store has answered, that it is or was being asked for, and that
waits for its response. -/
structure KeyringCall.Tells (c : KeyringCall) (answered : KeyringAnswer → Prop)
    (touched waits : Prop) : Prop where
  sent : ∀ answer, c.response = .sent answer → answered answer
  returned : ∀ answer, c.future = .returned (.ok answer) → answered answer
  failed : ∀ error, c.future = .returned (.error error) →
    c.response = .lost ∧ error = Keyring.lostError c.phase
  pending : c.response = .pending ↔ waits
  moved : c.phase = .started ∨ c.phase = .completed → touched
  marked : c.request.carriesPhase = true → touched → c.phase = .started ∨ c.phase = .completed
  lost : c.response = .lost → ∀ answer, ¬ answered answer

namespace KeyringCall.Tells
variable {c : KeyringCall} {answered : KeyringAnswer → Prop} {touched waits : Prop}
  {answer : KeyringAnswer}

theorem receive (h : c.Tells answered touched waits) (sent : c.response = .sent answer) :
    { c with future := .returned (.ok answer) }.Tells answered touched waits := by
  cases h
  constructor <;> grind

theorem lose (h : c.Tells answered touched waits) (lost : c.response = .lost) :
    { c with future := .returned (.error (Keyring.lostError c.phase)) }.Tells answered touched
      waits := by
  cases h
  constructor <;> grind

theorem drop (h : c.Tells answered touched waits) :
    { c with phase := Keyring.cancel c.phase, future := .dropped }.Tells answered touched
      waits := by
  cases h
  constructor <;> grind [Keyring.cancel]

theorem begin (h : c.Tells answered touched True) :
    { c with phase := .started }.Tells answered True True := by
  cases h
  constructor <;> grind

theorem beginLoad (h : c.Tells answered touched waits) (carries : c.request.carriesPhase = false) :
    c.Tells answered True waits :=
  { h with moved := fun _ => trivial, marked := by simp [carries] }

theorem perform (h : c.Tells answered touched True) {answered' : KeyringAnswer → Prop}
    (hmono : ∀ answer, answered answer → answered' answer) : c.Tells answered' touched True := by
  cases h
  constructor <;> grind

theorem finish (h : c.Tells answered True True) :
    { c with phase := if c.request.carriesPhase then .completed else c.phase }.Tells answered True
      True := by
  cases h
  constructor <;> grind

theorem respond (h : c.Tells answered touched True) (hanswered : answered answer) :
    { c with response := .sent answer }.Tells answered touched False := by
  cases h
  constructor <;> grind

/-- The request is dropped before the store was asked. -/
theorem lapse (h : c.Tells answered touched waits) (hnone : ∀ answer, ¬ answered answer) :
    { c with response := .lost }.Tells answered touched False := by
  cases h
  constructor <;> grind

end KeyringCall.Tells

/-! ## The worker -/

namespace KeyringThread

/-- The call whose response the thread is to send. -/
def answering : KeyringThread → List Nat
  | .took call | .started call | .performed call _ | .finished call _ => [call]
  | .receiving | .leaving | .stopped | .crashed _ => []

/-- The call it has and has not asked the store for, or not to the end. -/
def unperformed : KeyringThread → List Nat
  | .took call | .started call | .crashed call => [call]
  | _ => []

end KeyringThread

namespace Keyring
open KeyringThread
variable {σ : Type}

def Answered (s : Keyring σ) (call : Nat) (answer : KeyringAnswer) : Prop :=
  (call, answer) ∈ s.performed

def Crashed (s : Keyring σ) : Prop := ∃ call, s.thread = .crashed call

/-- The store is being asked for the call, was asked for it, or may have been when it panicked. -/
def Touched (s : Keyring σ) (call : Nat) : Prop :=
  (∃ answer, s.Answered call answer) ∨ s.thread = .started call ∨ s.thread = .crashed call

/-- The calls the store was asked for, and those it is still to be asked for, in order. -/
def agenda (s : Keyring σ) : List Nat :=
  s.performed.map Prod.fst ++ (s.thread.unperformed ++ s.queued)

/-- The calls that a response is still to be sent to. -/
def unanswered (s : Keyring σ) : List Nat := s.thread.answering ++ s.queued

def Tells (s : Keyring σ) (call : Nat) : Prop :=
  (s.calls call).Tells (s.Answered call) (s.Touched call) (call ∈ s.unanswered)

structure Sound (s : Keyring σ) : Prop where
  queue_le : s.queue.length ≤ keyringQueueCapacity
  ordered : s.agenda.Pairwise (· < ·)
  made : ∀ call ∈ s.agenda, call < s.next
  held : ∀ call answer, s.thread = .performed call answer ∨ s.thread = .finished call answer →
    s.Answered call answer
  tells : ∀ call, s.Tells call

variable {store : SecretStore σ} {s t : Keyring σ}

theorem sound_start (initial : σ) : (start initial).Sound where
  queue_le := Nat.zero_le _
  ordered := .nil
  made := by simp [start, agenda, queued, unperformed]
  held := by simp [start]
  tells := fun call => by
    constructor <;> simp [start, Answered, Touched, unanswered, queued, answering]

/-- A step adds the call it makes to the agenda, or only takes calls off. -/
theorem Step.agenda_eq (hstep : Step store s t) :
    t.agenda.Sublist s.agenda ∧ s.next ≤ t.next ∨
      t.agenda = s.agenda ++ [s.next] ∧ t.next = s.next + 1 := by
  cases hstep with
  | submit => exact .inr ⟨by simp [agenda, queued, accept, add, KeyringMessage.call?], rfl⟩
  | refuse => exact .inl ⟨.refl _, Nat.le_succ _⟩
  | receive | lose | drop | takeSender | dropSender => exact .inl ⟨.refl _, le_rfl⟩
  | signalClose => exact .inl ⟨by simp [agenda, queued, KeyringMessage.call?], le_rfl⟩
  | take ready queue | meetClose ready queue =>
    exact .inl ⟨by simp [agenda, queued, ready, queue, unperformed, KeyringMessage.call?,
      List.filterMap_cons], le_rfl⟩
  | hangUp h | begin h | skip h | beginLoad h | perform h | finish h | respond h | complete h
  | crash _ h => exact .inl ⟨by simp [agenda, queued, update, endThread, h, unperformed], le_rfl⟩

/-! ## What one step leaves as it is -/

variable {call : Nat}

theorem Touched.mem_agenda (h : s.Touched call) : call ∈ s.agenda := by
  rcases h with ⟨answer, hanswered⟩ | hthread | hthread
  · exact List.mem_append_left _ (List.mem_map_of_mem (f := Prod.fst) hanswered)
  · simp [agenda, hthread, unperformed]
  · simp [agenda, hthread, unperformed]

theorem Sound.unperformed_spec (h : s.Sound) (hcall : call ∈ s.thread.unperformed ++ s.queued) :
    ∀ answer, ¬ s.Answered call answer := by
  intro answer hanswered
  exact lt_irrefl call ((List.pairwise_append.mp h.ordered).2.2 call
    (List.mem_map_of_mem (f := Prod.fst) hanswered) call hcall)

/-- What the thread answers is on the agenda before all that is queued. -/
theorem Sound.answering_spec (h : s.Sound) (hcall : call ∈ s.thread.answering) :
    call ∈ s.agenda ∧ call ∉ s.queued := by
  cases hthread : s.thread with
  | receiving | leaving | stopped | crashed => simp [hthread, answering] at hcall
  | took other | started other =>
    have hordered := (List.pairwise_append.mp h.ordered).2.1
    rw [hthread, answering, List.mem_singleton] at hcall
    rw [hthread, unperformed, List.singleton_append, List.pairwise_cons] at hordered
    refine ⟨by simp [agenda, hthread, unperformed, hcall], fun hmem => ?_⟩
    exact (hordered.1 call hmem).ne hcall.symm
  | performed other answer | finished other answer =>
    rw [hthread, answering, List.mem_singleton] at hcall
    have hanswered : s.Answered call answer := hcall ▸ h.held other answer (by simp [hthread])
    exact ⟨Touched.mem_agenda (.inl ⟨answer, hanswered⟩),
      fun hmem => h.unperformed_spec (List.mem_append_right _ hmem) answer hanswered⟩

/-- Nothing has happened to a call that is yet to be made. -/
theorem Sound.next_spec (h : s.Sound) : ¬ s.Touched s.next ∧ s.next ∉ s.unanswered := by
  have hagenda : s.next ∉ s.agenda := fun hmem => lt_irrefl _ (h.made _ hmem)
  refine ⟨fun htouched => hagenda htouched.mem_agenda, fun hmem => ?_⟩
  rcases List.mem_append.mp hmem with hmem | hmem
  · exact hagenda (h.answering_spec hmem).1
  · exact hagenda (by simp [agenda, hmem])

theorem tells_of_eq {c : KeyringCall} {answered : KeyringAnswer → Prop} {touched waits : Prop}
    (h : c.Tells answered touched waits) (hcall : t.calls call = c)
    (hanswered : ∀ answer, t.Answered call answer ↔ answered answer)
    (htouched : t.Touched call ↔ touched) (hwaits : call ∈ t.unanswered ↔ waits) :
    t.Tells call := by
  rw [Tells, hcall, htouched, hwaits, funext fun answer => propext (hanswered answer)]
  exact h

/-- All calls stand as they did if the one that a step is about does. -/
theorem Sound.tells_of (h : s.Sound) (call : Nat) (hcall : t.Tells call)
    (hothers : ∀ other ≠ call, t.calls other = s.calls other ∧
      (∀ answer, t.Answered other answer ↔ s.Answered other answer) ∧
      (t.Touched other ↔ s.Touched other) ∧ (other ∈ t.unanswered ↔ other ∈ s.unanswered))
    (other : Nat) : t.Tells other := by
  by_cases heq : other = call
  · rw [heq]
    exact hcall
  · obtain ⟨hsame, hanswered, htouched, hwaits⟩ := hothers other heq
    exact tells_of_eq (h.tells other) hsame hanswered htouched hwaits

/-- The future of a call goes on, and its guard may cancel the request. -/
theorem Sound.tells_update (h : s.Sound) (call : Nat) {f : KeyringCall → KeyringCall}
    (hf : (f (s.calls call)).Tells (s.Answered call) (s.Touched call) (call ∈ s.unanswered)) :
    ∀ other, (s.update call f).Tells other :=
  h.tells_of call (tells_of_eq hf (by simp) (fun _ => .rfl) .rfl .rfl)
    fun other hne => ⟨by simp [hne], fun _ => .rfl, .rfl, .rfl⟩

variable {thread : KeyringThread}

/-- The thread goes on with the request that it has, or is done with it. -/
theorem Sound.tells_goOn (h : s.Sound) {calls : Nat → KeyringCall}
    {performed : List (Nat × KeyringAnswer)} {after : σ} (hold : s.thread.answering = [call])
    (hnew : ∀ c ∈ thread.answering, c = call) (hlive : ∀ c, thread ≠ .crashed c)
    (hcalls : ∀ other ≠ call, calls other = s.calls other) (hperformed : ∀ other ≠ call, ∀ answer,
      (other, answer) ∈ performed ↔ (other, answer) ∈ s.performed)
    (hcall : (s.calls call).Tells (fun answer => (call, answer) ∈ s.performed)
        ((∃ answer, (call, answer) ∈ s.performed) ∨ s.thread = .started call) True →
      (calls call).Tells (fun answer => (call, answer) ∈ performed)
        ((∃ answer, (call, answer) ∈ performed) ∨ thread = .started call)
        (call ∈ thread.answering)) :
    ∀ other, Tells ⟨after, calls, s.next, s.queue, s.sender, thread, performed⟩ other := by
  have hstarted : ∀ {thread : KeyringThread} {c : Nat}, thread = .started c →
      c ∈ thread.answering := by
    rintro _ c rfl
    simp [answering]
  have halive : ∀ c, s.thread ≠ .crashed c := by
    rintro c heq
    simp [heq, answering] at hold
  have htells := h.tells call
  rw [Tells, eq_true (show call ∈ s.unanswered by simp [unanswered, hold]), Touched,
    or_iff_left (halive call)] at htells
  refine h.tells_of call (tells_of_eq (hcall htells) rfl (fun _ => .rfl) ?_ ?_) fun other hne =>
    ⟨hcalls other hne, hperformed other hne, ?_, ?_⟩
  · simp [Touched, Answered, hlive]
  · have hnotMem : call ∉ s.queued := (h.answering_spec (by simp [hold])).2
    exact List.mem_append.trans (or_iff_left hnotMem)
  · have hold' : s.thread ≠ .started other := fun heq => hne (by simpa [hold] using hstarted heq)
    have hnew' : thread ≠ .started other := fun heq => hne (hnew other (hstarted heq))
    simp [Touched, Answered, hlive, halive, hperformed other hne, hold', hnew']
  · have hnew' : other ∉ thread.answering := fun hmem => hne (hnew other hmem)
    simp only [unanswered, List.mem_append, hold, List.mem_singleton, hne, hnew', false_or]
    exact .rfl

/-- The thread ends without having asked the store for what it has or what is queued. -/
theorem Sound.tells_end (h : s.Sound) {lost : List Nat} {after : σ}
    (hold : s.thread.answering = lost) (hunperformed : s.thread.unperformed = lost)
    (hnew : thread.answering = [])
    (htouched : ∀ call, s.thread = .started call ∨ s.thread = .crashed call ↔
      thread = .started call ∨ thread = .crashed call) (call : Nat) :
    Tells { s.endThread thread lost with store := after } call := by
  have hwaits : call ∈ s.unanswered ↔ call ∈ lost ++ s.queued := by rw [unanswered, hold]
  have hnot : call ∉ unanswered { s.endThread thread lost with store := after } := by
    simp [unanswered, queued, endThread, hnew]
  by_cases hmem : call ∈ lost ++ s.queued
  · have hnone := h.unperformed_spec (hunperformed ▸ hmem)
    exact tells_of_eq ((h.tells call).lapse hnone) (if_pos hmem) (fun _ => .rfl)
      (or_congr_right (htouched call).symm) (iff_false_intro hnot)
  · exact tells_of_eq (h.tells call) (if_neg hmem) (fun _ => .rfl)
      (or_congr_right (htouched call).symm) (iff_of_false hnot (mt hwaits.mp hmem))

/-! ## Steps -/

theorem Step.tells (hstep : Step store s t) (h : s.Sound) : ∀ call, t.Tells call := by
  cases hstep with
  | submit request available alive room =>
    obtain ⟨htouched, -⟩ := h.next_spec
    refine h.tells_of s.next ?_ fun other hne => ⟨by simp [accept, hne], fun _ => .rfl, .rfl, ?_⟩
    · have hnew : KeyringCall.Tells ⟨request, .queued, .pending, .waiting⟩ (s.Answered s.next)
          (s.Touched s.next) True := by constructor <;> simp [htouched]
      exact tells_of_eq hnew (by simp [accept]) (fun _ => .rfl) .rfl
        (by simp [unanswered, queued, accept, KeyringMessage.call?])
    · simp [unanswered, queued, accept, add, KeyringMessage.call?, hne]
  | refuse request refused =>
    obtain ⟨htouched, hwaits⟩ := h.next_spec
    refine h.tells_of s.next ?_ fun other hne => ⟨by simp [hne], fun _ => .rfl, .rfl, .rfl⟩
    have hnew : KeyringCall.Tells
        ⟨request, .cancelled, .lost, .returned (.error .keyringUnavailable)⟩ (s.Answered s.next)
          (s.Touched s.next) (s.next ∈ s.unanswered) :=
      ⟨by simp, by simp, by rintro _ ⟨⟩; exact ⟨rfl, rfl⟩, by simp [hwaits], by simp,
        by simp [htouched], fun _ answer hanswered => htouched (.inl ⟨answer, hanswered⟩)⟩
    exact tells_of_eq hnew (by simp) (fun _ => .rfl) .rfl .rfl
  | receive made waiting sent => exact h.tells_update _ ((h.tells _).receive sent)
  | lose made waiting lost => exact h.tells_update _ ((h.tells _).lose lost)
  | drop => exact h.tells_update _ (h.tells _).drop
  | takeSender | dropSender => exact h.tells
  | signalClose =>
    exact fun call => tells_of_eq (h.tells call) rfl (fun _ => .rfl) .rfl
      (by simp [unanswered, queued, KeyringMessage.call?])
  | take ready queue | meetClose ready queue =>
    exact fun call => tells_of_eq (h.tells call) rfl (fun _ => .rfl)
      (by simp [Touched, ready, Answered]) (by simp [unanswered, queued, ready, queue, answering,
        KeyringMessage.call?, List.filterMap_cons])
  | hangUp ready =>
    exact fun call => tells_of_eq (h.tells call) rfl (fun _ => .rfl)
      (by simp [Touched, ready, Answered]) (by simp [unanswered, queued, ready, answering])
  | begin took =>
    exact h.tells_goOn (by rw [took, answering]) (by simp [answering]) (by simp)
      (fun _ hne => by simp [hne]) (fun _ _ _ => .rfl)
      fun htells => by simpa [answering, update] using htells.begin
  | @skip call took =>
    have hnone : ∀ answer, ¬ s.Answered call answer :=
      h.unperformed_spec (by simp [took, unperformed])
    exact h.tells_goOn (by rw [took, answering]) (by simp [answering]) (by simp)
      (fun _ hne => by simp [hne]) (fun _ _ _ => .rfl)
      fun htells => by simpa [answering, update, took] using htells.lapse hnone
  | beginLoad took carries =>
    exact h.tells_goOn (by rw [took, answering]) (by simp [answering]) (by simp) (fun _ _ => rfl)
      (fun _ _ _ => .rfl) fun htells => by simpa [answering] using htells.beginLoad carries
  | @perform call answer after started =>
    exact h.tells_goOn (by rw [started, answering]) (by simp [answering]) (by simp) (fun _ _ => rfl)
      (fun _ hne _ => by simp [hne]) fun htells => by
        simpa [answering, started] using
          htells.perform fun _ => List.mem_append_left [(call, answer)]
  | @finish call answer performed =>
    have htouched : ∃ answer, (call, answer) ∈ s.performed :=
      ⟨_, h.held call answer (.inl performed)⟩
    exact h.tells_goOn (by rw [performed, answering]) (by simp [answering]) (by simp)
      (fun _ hne => by simp [hne]) (fun _ _ _ => .rfl) fun htells => by
        rw [eq_true (Or.inl htouched)] at htells
        simpa [answering, update, htouched] using htells.finish
  | @respond call answer finished =>
    exact h.tells_goOn (by rw [finished, answering]) (by simp [answering]) (by simp)
      (fun _ hne => by simp [hne]) (fun _ _ _ => .rfl) fun htells => by
        simpa [answering, update, finished] using
          htells.respond (h.held call answer (.inr finished))
  | complete leaving =>
    exact h.tells_end (by rw [leaving, answering]) (by simp [leaving, unperformed]) rfl
      (by simp [leaving])
  | crash after started =>
    exact h.tells_end (by rw [started, answering]) (by rw [started, unperformed]) rfl
      (by simp [started])

theorem Step.queue_le (hstep : Step store s t) (h : s.Sound) :
    t.queue.length ≤ keyringQueueCapacity := by
  have hle := h.queue_le
  cases hstep with
  | submit request _ _ room => simpa [accept] using Nat.succ_le_of_lt room
  | signalClose _ _ room => simpa using Nat.succ_le_of_lt room
  | take _ queue | meetClose _ queue =>
    rw [queue] at hle
    exact Nat.le_of_succ_le hle
  | complete | crash => exact Nat.zero_le _
  | refuse | receive | lose | drop | takeSender | dropSender | hangUp | begin | skip | beginLoad
  | perform | finish | respond => exact hle

theorem Step.held (hstep : Step store s t) (h : s.Sound) (call : Nat) (answer : KeyringAnswer)
    (heq : t.thread = .performed call answer ∨ t.thread = .finished call answer) :
    t.Answered call answer := by
  cases hstep with
  | submit | refuse | receive | lose | drop | takeSender | signalClose | dropSender =>
    exact h.held call answer heq
  | take | meetClose | hangUp | begin | skip | beginLoad | respond | complete | crash =>
    simp [endThread] at heq
  | perform =>
    obtain ⟨rfl, rfl⟩ : _ ∧ _ := by simpa using heq
    simp [Answered]
  | finish performed =>
    obtain ⟨rfl, rfl⟩ : _ ∧ _ := by simpa using heq
    exact h.held _ _ (.inl performed)

theorem Step.sound (hstep : Step store s t) (h : s.Sound) : t.Sound := by
  have hagenda : t.agenda.Pairwise (· < ·) ∧ ∀ call ∈ t.agenda, call < t.next := by
    rcases hstep.agenda_eq with ⟨hsub, hle⟩ | ⟨hmore, hnext⟩
    · exact ⟨h.ordered.sublist hsub, fun call hcall => (h.made call (hsub.mem hcall)).trans_le hle⟩
    · rw [hmore, hnext, List.pairwise_append]
      have hlast : ∀ call ∈ s.agenda ++ [s.next], call < s.next + 1 := by
        simpa [or_imp, forall_and] using fun call hcall => Nat.lt_succ_of_lt (h.made call hcall)
      exact ⟨⟨h.ordered, List.pairwise_singleton _ _, by simpa using h.made⟩, hlast⟩
  exact ⟨hstep.queue_le h, hagenda.1, hagenda.2, hstep.held h, hstep.tells h⟩

theorem Reached.sound {initial : σ} (h : Reached store initial s) : s.Sound := by
  induction h with
  | start => exact sound_start initial
  | next _ hstep ih => exact hstep.sound ih

/-! ## One answer after the other -/

theorem Step.next_le (hstep : Step store s t) : s.next ≤ t.next :=
  hstep.agenda_eq.elim And.right fun h => h.2 ▸ Nat.le_succ _

/-- A call stays what it asks for, and cancelled unless the thread is done with it. -/
theorem Step.call_eq (hstep : Step store s t) (hcall : call < s.next) :
    (t.calls call).request = (s.calls call).request ∧
    ((s.calls call).phase = .cancelled →
      (t.calls call).phase = .cancelled ∨ ∃ answer, s.thread = .performed call answer) := by
  cases hstep with
  | submit | refuse => simp +contextual [accept, hcall.ne]
  | receive | lose | drop | begin | skip | finish | respond =>
    simp only [update_calls]
    split <;> simp_all [cancel]
  | complete | crash =>
    simp only [endThread]
    split <;> simp +contextual
  | takeSender | signalClose | dropSender | take | meetClose | hangUp | beginLoad | perform =>
    simp +contextual

/-- The store is asked by the thread only, for the call it has started. -/
theorem Step.asks (hstep : Step store s t) :
    (t.performed = s.performed ∧ (t.store = s.store ∨ t.Crashed) ∧ (s.Crashed → t.Crashed)) ∨
    ∃ call answer, s.thread = .started call ∧ t.performed = s.performed ++ [(call, answer)] ∧
      store.perform (s.calls call).request s.store = (answer, t.store) := by
  cases hstep with
  | perform started performed => exact .inr ⟨_, _, started, rfl, performed⟩
  | crash => exact .inl ⟨rfl, .inr ⟨_, rfl⟩, fun _ => ⟨_, rfl⟩⟩
  | submit | refuse | receive | lose | drop | takeSender | signalClose | dropSender =>
    exact .inl ⟨rfl, .inl rfl, id⟩
  | take h | meetClose h | hangUp h | begin h | skip h | beginLoad h | finish h | respond h
  | complete h => exact .inl ⟨rfl, .inl rfl, fun ⟨c, hc⟩ => by simp [h] at hc⟩

/-- The requests that the store was asked, in order. -/
def asked (s : Keyring σ) : List KeyringRequest :=
  s.performed.map fun entry => (s.calls entry.1).request

/-- The store has answered one request after the other, and is in the state that leaves it in. -/
theorem Reached.ran {initial : σ} (h : Reached store initial s) :
    (run store.perform s.asked initial).1 = s.performed.map Prod.snd ∧
      (¬ s.Crashed → s.store = (run store.perform s.asked initial).2) := by
  induction h with
  | start => exact ⟨rfl, fun _ => rfl⟩
  | @next s t hreached hstep ih =>
    have hsound := hreached.sound
    have hrequests : ∀ entry ∈ s.performed, (t.calls entry.1).request = (s.calls entry.1).request :=
      fun entry hentry => (hstep.call_eq
        (hsound.made _ (List.mem_append_left _ (List.mem_map_of_mem hentry)))).1
    obtain ⟨hanswers, hstore⟩ := ih
    rcases hstep.asks with ⟨hsame, hkept, hcrashed⟩ | ⟨call, answer, hstarted, hmore, hperform⟩
    · have hasked : t.asked = s.asked := by
        rw [asked, hsame]
        exact List.map_congr_left hrequests
      rw [hasked, hsame]
      refine ⟨hanswers, fun hnot => ?_⟩
      rw [hkept.resolve_right hnot]
      exact hstore fun hcrash => hnot (hcrashed hcrash)
    · have hcall : call < s.next :=
        hsound.made call (by simp [agenda, hstarted, unperformed])
      have hasked : t.asked = s.asked ++ [(s.calls call).request] := by
        rw [asked, hmore, List.map_append, List.map_singleton, (hstep.call_eq hcall).1]
        exact congrArg (· ++ _) (List.map_congr_left hrequests)
      have hrunning : s.store = (run store.perform s.asked initial).2 :=
        hstore (by rintro ⟨c, hc⟩; simp [hstarted] at hc)
      rw [hrunning] at hperform
      rw [hasked, run_concat, hmore, hperform, List.map_append, ← hanswers]
      exact ⟨rfl, fun _ => rfl⟩

/-- **The keyring answers as if its callers took turns.**  However calls, dropped futures, closing
and the thread interleave, the store is asked for each call at most once, in the order in which the
calls were made, and whatever is returned to a caller is the store's answer to their request at
that point.  Unless the store panicked, its state is that after all these requests. -/
theorem keyring_is_linearizable {initial : σ} (h : Reached store initial s) :
    Linearizes store.perform initial (fun call => (s.calls call).request)
      (fun call answer => (s.calls call).future = .returned (.ok answer)) s.performed ∧
    (¬ s.Crashed → s.store = (run store.perform s.asked initial).2) ∧
    s.queue.length ≤ keyringQueueCapacity := by
  have hsound := h.sound
  obtain ⟨hanswers, hstore⟩ := h.ran
  exact ⟨⟨(List.pairwise_append.mp hsound.ordered).1, hanswers,
    fun call => (hsound.tells call).returned⟩, hstore, hsound.queue_le⟩

/-! ## Calls that were given up -/

theorem touched_or_waits (h : call ∈ s.agenda) : s.Touched call ∨ call ∈ s.unanswered := by
  rcases List.mem_append.mp h with hperformed | hwaits
  · obtain ⟨⟨_, answer⟩, hanswered, rfl⟩ := List.mem_map.mp hperformed
    exact .inl (.inl ⟨answer, hanswered⟩)
  · cases hthread : s.thread <;>
      simp_all [Touched, unanswered, unperformed, answering, or_assoc, eq_comm]

/-- What the guard has cancelled, or what is not on the agenda any more, stays so. -/
theorem Step.givenUp (hstep : Step store s t) (h : s.Sound) (hcall : call < s.next)
    (hcarries : (s.calls call).request.carriesPhase = true)
    (hgiven : (s.calls call).phase = .cancelled ∨ call ∉ s.agenda) :
    (t.calls call).phase = .cancelled ∨ call ∉ t.agenda := by
  rcases hgiven with hcancelled | hnotMem
  · refine ((hstep.call_eq hcall).2 hcancelled).imp_right fun ⟨answer, hperformed⟩ => ?_
    have hanswered := h.held call answer (.inl hperformed)
    have hphase := (h.tells call).marked hcarries (.inl ⟨answer, hanswered⟩)
    simp [hcancelled] at hphase
  · refine .inr fun hmem => ?_
    rcases hstep.agenda_eq with ⟨hsub, -⟩ | ⟨hmore, -⟩
    · exact hnotMem (hsub.mem hmem)
    · rw [hmore, List.mem_append, List.mem_singleton] at hmem
      exact hmem.elim hnotMem hcall.ne

/-- The store is not asked for a call that was given up, in any later run. -/
theorem Reached.never_touched {initial : σ} (h : Reached store initial s) (hcall : call < s.next)
    (hcarries : (s.calls call).request.carriesPhase = true)
    (hgiven : (s.calls call).phase = .cancelled ∨ call ∉ s.agenda)
    (hrun : Relation.ReflTransGen (Step store) s t) : ¬ t.Touched call := by
  have hkept : t.Sound ∧ call < t.next ∧ (t.calls call).request.carriesPhase = true ∧
      ((t.calls call).phase = .cancelled ∨ call ∉ t.agenda) := by
    induction hrun with
    | refl => exact ⟨h.sound, hcall, hcarries, hgiven⟩
    | tail _ hstep ih =>
      obtain ⟨hs, hlt, hc, hg⟩ := ih
      exact ⟨hstep.sound hs, hlt.trans_le hstep.next_le, by rwa [(hstep.call_eq hlt).1],
        hstep.givenUp hs hlt hc hg⟩
  intro htouched
  obtain ⟨hs, -, hc, hcancelled | hnotMem⟩ := hkept
  · have hphase := (hs.tells call).marked hc htouched
    simp [hcancelled] at hphase
  · exact hnotMem htouched.mem_agenda

/-- An error of `submit` is one of two: the call is not on the agenda, or the store panicked on
it. -/
theorem Sound.failed_cases (h : s.Sound) {error : SafeErrorCode}
    (hfailed : (s.calls call).future = .returned (.error error)) :
    (error = .keyringUnavailable ∧
      ((s.calls call).request.carriesPhase = true → call ∉ s.agenda)) ∨
    (error = .pendingOperationRecoveryRequired ∧ s.thread = .crashed call) := by
  obtain ⟨hlost, rfl⟩ := (h.tells call).failed _ hfailed
  have hanswered : call ∉ s.unanswered := fun hwaits => by
    simp [(h.tells call).pending.mpr hwaits] at hlost
  by_cases hmoved : (s.calls call).phase = .started ∨ (s.calls call).phase = .completed
  · refine .inr ⟨by rcases hmoved with hphase | hphase <;> rw [hphase] <;> rfl, ?_⟩
    rcases (h.tells call).moved hmoved with ⟨answer, hperformed⟩ | hstarted | hcrashed
    · exact absurd hperformed ((h.tells call).lost hlost answer)
    · exact absurd (by simp [unanswered, hstarted, answering]) hanswered
    · exact hcrashed
  · refine .inl ⟨?_, fun hcarries hmem => ?_⟩
    · cases hphase : (s.calls call).phase <;> simp [hphase] at hmoved <;> rfl
    · rcases touched_or_waits hmem with htouched | hwaits
      · exact hmoved ((h.tells call).marked hcarries htouched)
      · exact hanswered hwaits

theorem Step.stopped (hstep : Step store s t) (hstopped : s.thread = .stopped) :
    t.thread = .stopped ∧ t.performed = s.performed := by
  cases hstep with
  | submit | refuse | receive | lose | drop | takeSender | signalClose | dropSender =>
    exact ⟨hstopped, rfl⟩
  | take h | meetClose h | hangUp h | begin h | skip h | beginLoad h | perform h | finish h
  | respond h | complete h | crash _ h => simp [h] at hstopped

def boxKey : PublicKey := .of 907

def boxSecret : SecretKeyInput where
  value := 1907

/-- One call has returned, the other was dropped and is still queued; then the keyring is
closed. -/
theorem exists_closed_run : ∃ s t, Reached inMemorySecretStore ∅ s ∧
    Reached inMemorySecretStore ∅ t ∧ s.thread = .receiving ∧ s.next = 2 ∧
    (s.calls 0).future = .returned (.ok (.done (.ok ()))) ∧
    (s.calls 1).request = .contains boxKey ∧ (s.calls 1).phase = .cancelled ∧
    CloseReturns t (.ok ()) := by
  have hput := (@Reached.start _ inMemorySecretStore ∅).next
    (.submit (.put (.of 1) boxKey boxSecret) rfl (by simp [start, Gone]) (by decide))
  have hask := hput.next (.submit (.contains boxKey) rfl
    (by simp [accept, add, start, Gone]) (by decide))
  have htake := hask.next (.take rfl rfl)
  have hbegin := htake.next (.begin rfl rfl rfl)
  have hdrop := hbegin.next (.drop (by decide : 1 < 2) rfl)
  have hperform := hdrop.next (.perform rfl rfl)
  have hfinish := hperform.next (.finish rfl)
  have hrespond := hfinish.next (.respond rfl)
  have hreceive := hrespond.next (.receive (by decide : 0 < 2) rfl rfl)
  have hskip := (hreceive.next (.take rfl rfl)).next (.skip rfl rfl (by decide))
  have hclose := (hskip.next (.takeSender rfl)).next (.signalClose rfl (by simp [Gone]) (by decide))
  have hleave := (hclose.next (.meetClose rfl rfl)).next (.complete rfl)
  exact ⟨_, _, hreceive, hleave, rfl, rfl, rfl, rfl, rfl, .completed nofun rfl⟩

theorem keyring_is_linearizable_box : ∃ s, Reached inMemorySecretStore ∅ s ∧
    (0, KeyringAnswer.done (.ok ())) ∈ s.performed ∧
    s.store = (run inMemorySecretStore.perform s.asked ∅).2 := by
  obtain ⟨s, _, hreached, -, hthread, -, hreturned, -⟩ := exists_closed_run
  obtain ⟨hlinearizes, hstore, -⟩ := keyring_is_linearizable hreached
  refine ⟨s, hreached, hlinearizes.completed 0 _ hreturned, hstore ?_⟩
  rintro ⟨call, hcrashed⟩
  simp [hthread] at hcrashed

end Keyring

end HarvestCircle
