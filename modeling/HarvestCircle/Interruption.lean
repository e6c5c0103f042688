import Mathlib.Logic.Relation

/-! # Programs that may be stopped between two calls

A program makes calls on a store, each of which is atomic.  It is run with the
number of calls it may still make; when none is left, the next call stops it.  This
covers a crash between two calls as well as a call that fails without an effect,
because both leave the store as the calls before left it.

`Ensures p Q C s` is the rule of such programs: started in `s`, whatever `p`
returns satisfies `Q`, and wherever it halts the store satisfies `C`.
-/
namespace Interruption

/-- Why a program did not return. -/
inductive Halt (ε : Type) where
  /-- No call was left. -/
  | stopped
  /-- The program failed on its own. -/
  | failed (error : ε)
  deriving DecidableEq, Repr

/-- A program on a store `σ`, from the number of calls it may make. -/
def Program (σ ε α : Type) : Type := Nat → σ → Except (Halt ε) (α × Nat) × σ

variable {σ ε α β : Type}

instance : Monad (Program σ ε) where
  pure a := fun n s => (.ok (a, n), s)
  bind p f := fun n s =>
    match p n s with
    | (.ok (a, n), s) => f a n s
    | (.error halt, s) => (.error halt, s)

/-- A computation in memory, which cannot be stopped but may fail half way. -/
def compute (f : σ → Except ε α × σ) : Program σ ε α := fun n s =>
  match f s with
  | (.ok a, s) => (.ok (a, n), s)
  | (.error e, s) => (.error (.failed e), s)

/-- A look at the memory. -/
def inspect (f : σ → Except ε α) : Program σ ε α := compute fun s => (f s, s)

/-- A check of values the program already has. -/
def check (r : Except ε α) : Program σ ε α := inspect fun _ => r

/-- One atomic call: an error leaves the store as it was. -/
def call (f : σ → Except ε (α × σ)) : Program σ ε α
  | 0 => fun s => (.error .stopped, s)
  | n + 1 => fun s =>
    match f s with
    | .ok (a, s) => (.ok (a, n), s)
    | .error e => (.error (.failed e), s)

/-- A call that only reads. -/
def query (f : σ → Except ε α) : Program σ ε α := call fun s => (f s).map (·, s)

/-- A call whose error the program handles. -/
def attempt (f : σ → Except ε (α × σ)) : Program σ ε (Except ε α) := call fun s =>
  match f s with
  | .ok (a, s) => .ok (.ok a, s)
  | .error e => .ok (.error e, s)

/-- Started in `s`, what the program returns satisfies `Q`, and wherever it halts `C` holds. -/
def Ensures (p : Program σ ε α) (Q : α → σ → Prop) (C : σ → Prop) (s : σ) : Prop :=
  ∀ n, match p n s with
    | (.ok (a, _), t) => Q a t
    | (.error _, t) => C t

/-- Started in `s`, the program returns and halts only where `C` holds. -/
abbrev Maintains (p : Program σ ε α) (C : σ → Prop) (s : σ) : Prop := Ensures p (fun _ => C) C s

variable {p : Program σ ε α} {Q Q' : α → σ → Prop} {C C' : σ → Prop} {s : σ}

namespace Ensures

/-- What the rule says of one run that returned. -/
theorem of_ok (h : Ensures p Q C s) {n m : Nat} {a : α} {t : σ} (hrun : p n s = (.ok (a, m), t)) :
    Q a t := by
  have := h n
  rwa [hrun] at this

/-- What the rule says of one run, however it ended. -/
theorem of_run (h : Maintains p C s) (n : Nat) : C (p n s).2 := by
  have := h n
  split at this <;> rename_i heq <;> rw [heq] <;> exact this

theorem mono (h : Ensures p Q C s) (hQ : ∀ a t, Q a t → Q' a t) (hC : ∀ t, C t → C' t) :
    Ensures p Q' C' s := by
  intro n
  have hn := h n
  split at hn
  · exact hQ _ _ hn
  · exact hC _ hn

theorem pure {a : α} (h : Q a s) : Ensures (pure a : Program σ ε α) Q C s := fun _ => h

theorem bind {f : α → Program σ ε β} {R : β → σ → Prop}
    (h : Ensures p (fun a => Ensures (f a) R C) C s) : Ensures (p >>= f) R C s := by
  intro n
  have hn := h n
  show match (match p n s with
    | (.ok (a, n), s) => f a n s
    | (.error halt, s) => (.error halt, s)) with
    | (.ok (a, _), t) => R a t
    | (.error _, t) => C t
  split at hn
  · exact hn _
  · exact hn

theorem imp (h : Ensures p Q C s) (hQ : ∀ a t, Q a t → Q' a t) : Ensures p Q' C s :=
  h.mono hQ fun _ => id

theorem andThen {f : α → Program σ ε β} {R : β → σ → Prop} (h : Ensures p Q C s)
    (hf : ∀ a t, Q a t → Ensures (f a) R C t) : Ensures (p >>= f) R C s :=
  .bind (h.imp hf)

theorem compute {f : σ → Except ε α × σ} (hc : ∀ e t, f s = (.error e, t) → C t)
    (h : ∀ a t, f s = (.ok a, t) → Q a t) : Ensures (compute f) Q C s := by
  intro n
  unfold Interruption.compute
  rcases hf : f s with ⟨e | a, t⟩
  · exact hc e t hf
  · exact h a t hf

theorem inspect {f : σ → Except ε α} (hc : C s) (h : ∀ a, f s = .ok a → Q a s) :
    Ensures (inspect f) Q C s := by
  refine Ensures.compute (fun e t hr => ?_) fun a t hr => ?_
  · rw [← (Prod.mk.inj hr).2]
    exact hc
  · rw [← (Prod.mk.inj hr).2]
    exact h a (Prod.mk.inj hr).1

theorem check {r : Except ε α} (hc : C s) (h : ∀ a, r = .ok a → Q a s) :
    Ensures (check r) Q C s :=
  Ensures.inspect hc h

theorem call {f : σ → Except ε (α × σ)} (hc : C s) (h : ∀ a t, f s = .ok (a, t) → Q a t) :
    Ensures (call f) Q C s := by
  rintro (_ | n)
  · exact hc
  · show match (match f s with
      | .ok (a, s) => (.ok (a, n), s)
      | .error e => (.error (.failed e), s) : Except (Halt ε) (α × Nat) × σ) with
      | (.ok (a, _), t) => Q a t
      | (.error _, t) => C t
    cases hf : f s with
    | ok r => exact h r.1 r.2 hf
    | error e => exact hc

theorem query {f : σ → Except ε α} (hc : C s) (h : ∀ a, f s = .ok a → Q a s) :
    Ensures (query f) Q C s := by
  refine Ensures.call hc fun a t hr => ?_
  cases hf : f s with
  | ok b =>
    rw [hf] at hr
    cases hr
    exact h _ hf
  | error e =>
    rw [hf] at hr
    cases hr

theorem attempt {f : σ → Except ε (α × σ)} {R : Except ε α → σ → Prop} (hc : C s)
    (hok : ∀ a t, f s = .ok (a, t) → R (.ok a) t) (herr : ∀ e, f s = .error e → R (.error e) s) :
    Ensures (attempt f) R C s := by
  refine Ensures.call hc fun r t hr => ?_
  cases hf : f s with
  | ok b =>
    simp only [hf] at hr
    cases hr
    exact hok _ _ hf
  | error e =>
    simp only [hf] at hr
    cases hr
    exact herr _ hf

/-- A loop keeps what each of its rounds keeps; the invariant sees the rounds that are done. -/
theorem forM {l : List α} {f : α → Program σ ε PUnit} {I : List α → σ → Prop}
    (hround : ∀ pre x post, l = pre ++ x :: post → ∀ s, I pre s →
      Ensures (f x) (fun _ => I (pre ++ [x])) C s) (h : I [] s) :
    Ensures (l.forM f) (fun _ => I l) C s := by
  suffices hrest : ∀ rest pre s, l = pre ++ rest → I pre s →
      Ensures (rest.forM f) (fun _ => I l) C s from hrest l [] s rfl h
  intro rest
  induction rest with
  | nil =>
    intro pre s hl hI
    rw [hl, List.append_nil] at *
    exact Ensures.pure hI
  | cons x rest ih =>
    intro pre s hl hI
    refine (hround pre x rest hl s hI).andThen fun _ t ht => ?_
    exact ih (pre ++ [x]) t (by rw [hl, List.append_assoc, List.singleton_append]) ht

end Ensures

/-- Any number of runs one after another, of any program of a family, each stopped wherever
it may be. -/
def Reruns {ι : Type} (p : ι → Program σ ε α) : σ → σ → Prop :=
  Relation.ReflTransGen fun s t => ∃ i n, (p i n s).2 = t

/-- What every run of the programs keeps is kept by all of their runs. -/
theorem Reruns.keeps {ι : Type} {p : ι → Program σ ε α}
    (hp : ∀ i s, C s → Ensures (p i) (fun _ => C) C s) {s t : σ} (h : Reruns p s t) (hs : C s) :
    C t := by
  induction h with
  | refl => exact hs
  | tail _ hstep ih =>
    obtain ⟨i, n, rfl⟩ := hstep
    exact (hp i _ ih).of_run n

/-- If a run that is not stopped leads from `C` to its end `E`, then so do any number of
stopped runs and one that is not. -/
theorem Reruns.settles {ι : Type} {p : ι → Program σ ε α} {E : σ → Prop}
    (hp : ∀ i s, C s → Ensures (p i) (fun _ => E) C s) (hE : ∀ s, E s → C s) {s t u : σ}
    (h : Reruns p s t) (hs : C s) {i : ι} {n m : Nat} {a : α} (hlast : p i n t = (.ok (a, m), u)) :
    E u := by
  have ht : C t := h.keeps (fun i s hs => (hp i s hs).imp fun _ => hE) hs
  exact (hp i t ht).of_ok hlast

end Interruption
