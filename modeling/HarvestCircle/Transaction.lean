import Mathlib.Logic.Basic

/-! # Transactions whose outcome may stay unknown

A transaction runs a body on a database and either applies all of its changes or
none.  Its caller normally learns which; when the commit could not be confirmed
the caller only sees the error `unknown`, and the changes may or may not be there.

`Outcome.changed` and `Outcome.of_ok` are all a proof needs: a changed database is
what the body made of the old one, and a success that was seen is the body's.
-/
namespace Transaction
variable {DB ε α : Type}

/-- What the caller of a transaction may see, and the database it leaves. -/
inductive Outcome (unavailable unknown : ε) (body : Except ε (α × DB)) (db : DB) :
    Except ε α → DB → Prop where
  /-- The body succeeded and its commit was confirmed. -/
  | committed {a : α} {db' : DB} (h : body = .ok (a, db')) : Outcome _ _ _ _ (.ok a) db'
  /-- The body failed and was rolled back. -/
  | rolledBack {e : ε} (h : body = .error e) : Outcome _ _ _ _ (.error e) db
  /-- The commit failed for certain. -/
  | notCommitted : Outcome _ _ _ _ (.error unavailable) db
  /-- The commit was not confirmed, but took place. -/
  | landed {a : α} {db' : DB} (h : body = .ok (a, db')) : Outcome _ _ _ _ (.error unknown) db'
  /-- The commit was not confirmed and did not take place. -/
  | lost : Outcome _ _ _ _ (.error unknown) db

variable {unavailable unknown : ε} {body : Except ε (α × DB)} {db db' : DB} {r : Except ε α}

/-- The database after a transaction is the old one or the one its body made. -/
theorem Outcome.changed (h : Outcome unavailable unknown body db r db') :
    db' = db ∨ ∃ a, body = .ok (a, db') := by
  cases h with
  | committed h => exact .inr ⟨_, h⟩
  | rolledBack _ => exact .inl rfl
  | notCommitted => exact .inl rfl
  | landed h => exact .inr ⟨_, h⟩
  | lost => exact .inl rfl

/-- A confirmed success is the body's. -/
theorem Outcome.of_ok {a : α} (h : Outcome unavailable unknown body db (.ok a) db') :
    body = .ok (a, db') := by
  cases h with
  | committed h => exact h

end Transaction
