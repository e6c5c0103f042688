import HarvestCircle.Checked

/-! # Edits of a state that may fail

A method that gets a state to change and may stop with an error leaves the state as it
was at that point, changed or not.  `Edit` is such a computation, `check` a step that only
looks.  `AllOrNothing` is the rule for an edit that makes all its checks first: it fails and
has changed nothing, or succeeds as described; each check is peeled off by
`allOrNothing_check` and the change itself is `allOrNothing_set`.

`runAll` makes a list of edits in order, failed ones included.
-/
namespace Edits
variable {σ ε α β : Type}

abbrev Edit (σ ε α : Type) := ExceptT ε (StateM σ) α

/-- The outcome of an edit and the state it leaves. -/
def run (m : Edit σ ε α) (s : σ) : Except ε α × σ := m s

/-- The state as it is. -/
def look : Edit σ ε σ := get

def check (x : Except ε α) : Edit σ ε α := ExceptT.mk (pure x)

/-- The edit fails and leaves the state, or succeeds with a result and a state for which `Q`. -/
def AllOrNothing (m : Edit σ ε α) (s : σ) (Q : α → σ → Prop) : Prop :=
  (∃ e, run m s = (.error e, s)) ∨ ∃ a s', run m s = (.ok a, s') ∧ Q a s'

variable {Q : α → σ → Prop} {s : σ}

theorem allOrNothing_look {f : σ → Edit σ ε α} (h : AllOrNothing (f s) s Q) :
    AllOrNothing (look >>= f) s Q := h

theorem allOrNothing_check {x : Except ε β} {f : β → Edit σ ε α}
    (h : ∀ b, x = .ok b → AllOrNothing (f b) s Q) : AllOrNothing (check x >>= f) s Q := by
  cases x with
  | error e => exact .inl ⟨e, rfl⟩
  | ok b => exact h b rfl

theorem allOrNothing_set {s' : σ} {a : α} (h : Q a s') :
    AllOrNothing (ε := ε) (do set s'; return a) s Q := .inr ⟨a, s', rfl, h⟩

theorem AllOrNothing.of_error {m : Edit σ ε α} {e : ε} {s' : σ} (h : AllOrNothing m s Q)
    (hrun : run m s = (.error e, s')) : s' = s := by
  rcases h with ⟨e', he⟩ | ⟨a, t, ha, -⟩
  · rw [hrun, Prod.mk.injEq] at he
    exact he.2
  · rw [hrun, Prod.mk.injEq] at ha
    cases ha.1

theorem AllOrNothing.of_ok {m : Edit σ ε α} {a : α} {s' : σ} (h : AllOrNothing m s Q)
    (hrun : run m s = (.ok a, s')) : Q a s' := by
  rcases h with ⟨e', he⟩ | ⟨b, t, hb, hQ⟩
  · rw [hrun, Prod.mk.injEq] at he
    cases he.1
  · rw [hrun, Prod.mk.injEq, Except.ok.injEq] at hb
    rwa [hb.1, hb.2]

/-! ## Sequences of edits -/

/-- The outcomes of all the edits, made in order, and the state they leave. -/
def runAll : List (Edit σ ε α) → σ → List (Except ε α) × σ
  | [], s => ([], s)
  | m :: rest, s =>
    let (outcome, s') := run m s
    let (outcomes, s'') := runAll rest s'
    (outcome :: outcomes, s'')

theorem runAll_append (ms ms' : List (Edit σ ε α)) (s : σ) :
    runAll (ms ++ ms') s =
      ((runAll ms s).1 ++ (runAll ms' (runAll ms s).2).1, (runAll ms' (runAll ms s).2).2) := by
  induction ms generalizing s with
  | nil => rfl
  | cons m ms ih =>
    simp only [List.cons_append, runAll, ih]

/-- **A relation between the state before, the outcomes and the state after** holds of a sequence
if it holds of none and is extended by each edit. -/
theorem runAll_induction {P : σ → List (Except ε α) → σ → Prop} {ms : List (Edit σ ε α)}
    (hnil : ∀ s, P s [] s)
    (hcons : ∀ m ∈ ms, ∀ s outcomes s', P (run m s).2 outcomes s' →
      P s ((run m s).1 :: outcomes) s')
    (s : σ) : P s (runAll ms s).1 (runAll ms s).2 := by
  induction ms generalizing s with
  | nil => exact hnil s
  | cons m ms ih =>
    exact hcons m List.mem_cons_self s _ _
      (ih (fun m' hm' => hcons m' (List.mem_cons_of_mem m hm')) (run m s).2)

end Edits
