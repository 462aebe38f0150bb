import ShortQ.GoTime

/-! # Database transactions that may fail

A transaction works on a private copy of the state. What the connection does to it is a
script: which call fails, and what a failed commit left behind. -/
namespace Transaction

open GoText (Str)
open GoTime (Time)

inductive Err where
  /-- `sql.ErrNoRows`. -/
  | noRows
  /-- The function's own check refused its arguments. -/
  | rejected (text : Str)
  /-- A column type, a constraint or a foreign key refused the statement. -/
  | schema
  /-- The connection failed outside `Commit`. -/
  | database (text : Str)
  | commit (text : Str)
  /-- A nil pointer was dereferenced while the statement was built. -/
  | panic
  deriving DecidableEq, Repr

/-- A commit that fails may still have been applied by the server. -/
inductive Commit where
  | done
  | failed (text : Str) (applied : Bool)
  deriving DecidableEq, Repr

/-- `exec n` is the failure of the statement in slot `n`, `now n` the clock it reads. -/
structure Script where
  begin : Option Str := none
  exec : ℕ → Option Str := fun _ => none
  rollback : Option Str := none
  commit : Commit := .done
  now : ℕ → Time := fun _ => GoTime.zero

/-- The script of a connection that never fails. -/
def Script.Healthy (io : Script) : Prop :=
  io.begin = none ∧ (∀ n, io.exec n = none) ∧ io.rollback = none ∧ io.commit = .done

variable {σ : Type*}

def commitTx (io : Script) (before tx : σ) : Option Err × σ :=
  match io.commit with
  | .done => (none, tx)
  | .failed text applied => (some (.commit text), if applied then tx else before)

/-- The statement in slot `n`, unless the connection fails there. -/
def Script.call {α : Type*} (io : Script) (n : ℕ) (result : Except Err α) : Except Err α :=
  match io.exec n with
  | some text => .error (.database text)
  | none => result

/-- `Begin`, the statements, `Commit`. After an error the deferred `Rollback` drops the copy. -/
def inTx (io : Script) (before : σ) (body : Except Err σ) : Option Err × σ :=
  match io.begin with
  | some text => (some (.database text), before)
  | none =>
    match body with
    | .error e => (some e, before)
    | .ok tx => commitTx io before tx

/-- One statement outside a transaction commits itself. -/
def statement (io : Script) (before : σ) (result : Except Err σ) : Option Err × σ :=
  match io.call 0 result with
  | .error e => (some e, before)
  | .ok after => commitTx io before after

theorem commitTx_error {io : Script} {before tx : σ} {e : Err}
    (h : (commitTx io before tx).1 = some e) : ∃ text, e = .commit text := by
  unfold commitTx at h
  split at h
  · cases h
  · exact ⟨_, (Option.some.inj h).symm⟩

theorem commitTx_none {io : Script} {before tx : σ} (h : (commitTx io before tx).1 = none) :
    (commitTx io before tx).2 = tx ∧ io.commit = .done := by
  unfold commitTx at h ⊢
  split at h <;> simp_all

theorem commitTx_state (io : Script) (before tx : σ) :
    (commitTx io before tx).2 = tx ∨ (commitTx io before tx).2 = before := by
  unfold commitTx
  split
  · exact Or.inl rfl
  · split
    · exact Or.inl rfl
    · exact Or.inr rfl

theorem statement_state (io : Script) (before : σ) (result : Except Err σ) :
    (statement io before result).2 = before ∨
      ∃ after, result = .ok after ∧ (statement io before result).2 = after := by
  unfold statement Script.call
  cases io.exec 0 with
  | some text => exact Or.inl rfl
  | none =>
    cases result with
    | error e => exact Or.inl rfl
    | ok after => exact (commitTx_state io before after).symm.imp id fun h => ⟨after, rfl, h⟩

theorem inTx_state (io : Script) (before : σ) (body : Except Err σ) :
    (inTx io before body).2 = before ∨ ∃ tx, body = .ok tx ∧ (inTx io before body).2 = tx := by
  unfold inTx
  split
  · exact Or.inl rfl
  · split
    · exact Or.inl rfl
    · rename_i tx
      exact (commitTx_state io before tx).symm.imp id fun h => ⟨tx, rfl, h⟩

theorem inTx_none {io : Script} {before : σ} {body : Except Err σ}
    (h : (inTx io before body).1 = none) : body = .ok (inTx io before body).2 := by
  unfold inTx at h ⊢
  split at h
  · cases h
  · split at h
    · cases h
    · rw [(commitTx_none h).1]

theorem call_ok {α : Type*} {io : Script} {n : ℕ} {result : Except Err α} {a : α}
    (h : io.call n result = .ok a) : result = .ok a := by
  unfold Script.call at h
  split at h
  · cases h
  · exact h

end Transaction
