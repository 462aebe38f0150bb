import ShortQ.Schema
import ShortQ.Transaction

/-! # Recording clicks

`RecordClick` and `RecordClicks` with the statements they are made of. Statement slots
number the calls of one transaction; a batch uses three for each event. -/
namespace ClickStore

open GoText (Str)
open GoTime (Time)
open Models
open RowTable
open Schema
open Transaction

def addClick (r : LinkRow) : LinkRow := { r with clicks := r.clicks + 1 }
def addRollup (r : RollupRow) : RollupRow := { r with clicks := r.clicks + 1 }

theorem keeps_addClick : Table.Keeps linkClash addClick := fun _ _ => ⟨Iff.rfl, Iff.rfl⟩
theorem keeps_addRollup : Table.Keeps rollupClash addRollup := fun _ _ => ⟨Iff.rfl, Iff.rfl⟩

/-- The instant written for an event; a zero `OccurredAt` becomes the current time. -/
def clickTime (io : Script) (n : ℕ) (event : ClickEvent) : Time :=
  if event.occurredAt.isZero then io.now n else event.occurredAt

/-- The foreign key is checked for inserted rows only, at the end of the statement. -/
def insertClick (io : Script) (n : ℕ) (tx : Database) (event : ClickEvent) :
    Except Err (Bool × Database) :=
  match io.exec n with
  | some text => .error (.database text)
  | none =>
    match clickRow event (clickTime io n event) with
    | none => .error .schema
    | some row =>
      match tx.clicks.insert row with
      | none => .ok (false, tx)
      | some clicks =>
        if (tx.link event.linkId).isSome then .ok (true, { tx with clicks := clicks })
        else .error .schema

def bumpRollup (tx : Database) (key : RollupKey) : Database :=
  { tx with rollups := tx.rollups.upsert ⟨key, 1⟩ addRollup keeps_addRollup }

def incrementClickRollup (io : Script) (n : ℕ) (tx : Database) (event : ClickEvent) :
    Except Err Database :=
  match io.exec n with
  | some text => .error (.database text)
  | none =>
    match rollupKey event (clickTime io n event) with
    | none => .error .schema
    | some key =>
      if (tx.link key.linkId).isSome then .ok (bumpRollup tx key) else .error .schema

/-- `WHERE id=? AND deleted_at IS NULL`, with `AND clicks<?` when a limit is passed. -/
def underLimit (id : ℤ) (maxClicks : Option ℤ) (r : LinkRow) : Bool :=
  r.id = id && (r.deletedAt.isNone && maxClicks.all (r.clicks < ·))

/-- `WHERE id=? AND deleted_at IS NULL AND max_clicks IS NULL`. -/
def unlimited (id : ℤ) (r : LinkRow) : Bool :=
  r.id = id && (r.deletedAt.isNone && r.maxClicks.isNone)

def bumpLinks (tx : Database) (p : LinkRow → Bool) : Database :=
  { tx with links := tx.links.update p addClick keeps_addClick }

/-- `UPDATE links SET clicks=clicks+1 WHERE p`, with the rows it affected. -/
def countClick (io : Script) (n : ℕ) (tx : Database) (p : LinkRow → Bool) :
    Except Err (ℕ × Database) :=
  match io.exec n with
  | some text => .error (.database text)
  | none => .ok (tx.links.affected p, bumpLinks tx p)

def recordClick (io : Script) (db : Database) (event : ClickEvent) (increment : Bool)
    (maxClicks : Option ℤ) : (Bool × Option Err) × Database :=
  match io.begin with
  | some text => ((false, some (.database text)), db)
  | none =>
    let event := { event with increment := increment }
    match insertClick io 0 db event with
    | .error e => ((false, some e), db)
    | .ok (false, tx) => ((true, (commitTx io db tx).1), (commitTx io db tx).2)
    | .ok (true, tx) =>
      -- without increment the counter statement is skipped
      match if increment then countClick io 1 tx (underLimit event.linkId maxClicks)
        else .ok (1, tx) with
      | .error e => ((false, some e), db)
      | .ok (affected, tx) =>
        if affected = 0 then ((false, io.rollback.map .database), db)
        else
          match incrementClickRollup io 2 tx event with
          | .error e => ((false, some e), db)
          | .ok tx => ((true, (commitTx io db tx).1), (commitTx io db tx).2)

/-- The body of the loop in `RecordClicks`: whether the event was newly inserted. -/
def recordNext (io : Script) (n : ℕ) (tx : Database) (event : ClickEvent) :
    Except Err (Bool × Database) :=
  match insertClick io n tx event with
  | .error e => .error e
  | .ok (false, tx) => .ok (false, tx)
  | .ok (true, tx) =>
    match if event.increment then countClick io (n + 1) tx (unlimited event.linkId)
      else .ok (1, tx) with
    | .error e => .error e
    | .ok (affected, tx) =>
      if affected ≠ 1 then .error .noRows
      else
        match incrementClickRollup io (n + 2) tx event with
        | .error e => .error e
        | .ok tx => .ok (true, tx)

def recordBatch (io : Script) : ℕ → ℕ → Database → List ClickEvent →
    Except Err (ℕ × Database)
  | _, inserted, tx, [] => .ok (inserted, tx)
  | n, inserted, tx, event :: events =>
    match recordNext io n tx event with
    | .error e => .error e
    | .ok (isNew, tx) => recordBatch io (n + 3) (inserted + isNew.toNat) tx events

def recordClicks (io : Script) (db : Database) (events : List ClickEvent) :
    (ℕ × Option Err) × Database :=
  if events = [] then ((0, none), db)
  else
    match io.begin with
    | some text => ((0, some (.database text)), db)
    | none =>
      match recordBatch io 0 0 db events with
      | .error e => ((0, some e), db)
      | .ok (inserted, tx) =>
        match commitTx io db tx with
        | (some e, db) => ((0, some e), db)
        | (none, db) => ((inserted, none), db)

@[simp] theorem link_bumpLinks (db : Database) (p : LinkRow → Bool) (id : ℤ) :
    (bumpLinks db p).link id = (db.link id).map fun r => if p r then addClick r else r := by
  exact Table.find_update keeps_addClick fun _ => rfl

@[simp] theorem link_bumpRollup (db : Database) (key : RollupKey) (id : ℤ) :
    (bumpRollup db key).link id = db.link id := rfl

@[simp] theorem clicks_bumpLinks (db : Database) (p : LinkRow → Bool) :
    (bumpLinks db p).clicks = db.clicks := rfl

@[simp] theorem clicks_bumpRollup (db : Database) (key : RollupKey) :
    (bumpRollup db key).clicks = db.clicks := rfl

@[simp] theorem rollup_bumpLinks (db : Database) (p : LinkRow → Bool) (key : RollupKey) :
    (bumpLinks db p).rollup key = db.rollup key := rfl

/-- The upsert adds one to its own key and to no other. -/
theorem rollup_bumpRollup (db : Database) (key k : RollupKey) :
    (bumpRollup db key).rollup k = db.rollup k + if k = key then 1 else 0 := by
  simp only [bumpRollup, Database.rollup, Table.upsert]
  cases hi : db.rollups.insert ⟨key, 1⟩ with
  | some u =>
    have hfresh := (Table.insert_eq_some.mp hi).1
    rw [Table.find_of_insert hi]
    by_cases hk : k = key
    · subst k
      have hnone : db.rollups.find (·.key = key) = none := by
        simpa [Table.find, rollupClash] using hfresh
      simp [hnone]
    · have hk' : key ≠ k := Ne.symm hk
      cases db.rollups.find (·.key = k) <;> simp [hk, hk']
  | none =>
    obtain ⟨r, hr, hkey⟩ := Table.insert_eq_none.mp hi
    dsimp only
    rw [Table.find_update keeps_addRollup fun _ => rfl]
    cases hf : db.rollups.find (·.key = k) with
    | some a =>
      have ha : a.key = k := by simpa using List.find?_some hf
      by_cases hk : k = key <;> simp [rollupClash, addRollup, ha, hk]
    | none =>
      have hk : k ≠ key := by
        rintro rfl
        simp only [Table.find, List.find?_eq_none, decide_eq_true_eq] at hf
        exact hf r hr hkey
      simp [hk]

theorem id_clash (id : ℤ) (a b : LinkRow) (ha : decide (a.id = id) = true)
    (hb : decide (b.id = id) = true) : linkClash a b :=
  Or.inl ((of_decide_eq_true ha).trans (of_decide_eq_true hb).symm)

theorem affected_underLimit (db : Database) (id : ℤ) (maxClicks : Option ℤ) :
    db.links.affected (underLimit id maxClicks) =
      ((db.link id).any fun r => r.deletedAt.isNone && maxClicks.all (r.clicks < ·)).toNat :=
  Table.affected_of_find (id_clash id)

/-- The limited counter statement reaches a link exactly when it is live and below the limit. -/
theorem affected_underLimit_pos {db : Database} {id : ℤ} {maxClicks : Option ℤ} :
    0 < db.links.affected (underLimit id maxClicks) ↔
      ∃ r, db.link id = some r ∧ r.deletedAt = none ∧ ∀ m, maxClicks = some m → r.clicks < m := by
  rw [affected_underLimit]
  cases db.link id with
  | none => simp
  | some r =>
    have hpos : ∀ b : Bool, 0 < b.toNat ↔ b = true := by decide
    cases maxClicks <;> simp [hpos]

theorem affected_unlimited (db : Database) (id : ℤ) :
    db.links.affected (unlimited id) =
      ((db.link id).any fun r => r.deletedAt.isNone && r.maxClicks.isNone).toNat :=
  Table.affected_of_find (id_clash id)

/-- The tables after one newly inserted event. -/
def recorded (db : Database) (clicks : Table ClickRow clickClash) (increment : Bool)
    (p : LinkRow → Bool) (key : RollupKey) : Database :=
  let tx := { db with clicks := clicks }
  bumpRollup (if increment then bumpLinks tx p else tx) key

section Effects

variable {io : Script} {db db' tx tx' : Database} {event : ClickEvent} {n : ℕ}

theorem clickTime_of_occurred (ht : event.occurredAt.isZero = false) :
    clickTime io n event = event.occurredAt := by simp [clickTime, ht]

/-- Everything `insertClick` can do when it does not fail. -/
theorem insertClick_cases {isNew : Bool} (ht : event.occurredAt.isZero = false)
    (h : insertClick io n tx event = .ok (isNew, tx')) :
    ∃ row, clickRow event event.occurredAt = some row ∧
      ((isNew = false ∧ tx' = tx ∧ tx.clicks.insert row = none) ∨
       (isNew = true ∧ (tx.link event.linkId).isSome ∧
        ∃ clicks, tx.clicks.insert row = some clicks ∧ tx' = { tx with clicks := clicks })) := by
  unfold insertClick at h
  rw [clickTime_of_occurred ht] at h
  split at h
  · cases h
  · split at h
    · cases h
    · rename_i row hrow
      refine ⟨row, hrow, ?_⟩
      split at h
      · rename_i hi
        cases h
        exact Or.inl ⟨rfl, rfl, hi⟩
      · rename_i clicks hi
        split at h
        · rename_i hl
          cases h
          exact Or.inr ⟨rfl, hl, clicks, hi, rfl⟩
        · cases h

theorem incrementClickRollup_ok {row : ClickRow} (ht : event.occurredAt.isZero = false)
    (hrow : clickRow event event.occurredAt = some row)
    (h : incrementClickRollup io n tx event = .ok tx') : tx' = bumpRollup tx row.rollupKey := by
  unfold incrementClickRollup at h
  rw [clickTime_of_occurred ht, rollupKey_of_clickRow hrow] at h
  split at h
  · cases h
  · split at h
    · cases h
    · rename_i key hkey
      split at h
      · cases h
        rw [Option.some.inj hkey]
      · cases h

/-- The counter statement, which only an incrementing event reaches. -/
theorem counter_ok {increment : Bool} {affected : ℕ} {p : LinkRow → Bool}
    (h : (if increment then countClick io n tx p else .ok (1, tx)) = .ok (affected, tx')) :
    affected = (if increment then tx.links.affected p else 1) ∧
      tx' = if increment then bumpLinks tx p else tx := by
  cases increment with
  | false =>
    cases h
    exact ⟨rfl, rfl⟩
  | true =>
    simp only [countClick, if_true] at h ⊢
    split at h
    · cases h
    · cases h
      exact ⟨rfl, rfl⟩

theorem insertClick_not_commit {e : Err} (h : insertClick io n tx event = .error e)
    (text : Str) : e ≠ .commit text := by
  unfold insertClick at h
  repeat' split at h
  all_goals cases h
  all_goals exact Err.noConfusion

theorem counter_not_commit {increment : Bool} {p : LinkRow → Bool} {e : Err}
    (h : (if increment then countClick io n tx p else .ok (1, tx)) = .error e)
    (text : Str) : e ≠ .commit text := by
  unfold countClick at h
  repeat' split at h
  all_goals cases h
  all_goals exact Err.noConfusion

theorem incrementClickRollup_not_commit {e : Err}
    (h : incrementClickRollup io n tx event = .error e) (text : Str) : e ≠ .commit text := by
  unfold incrementClickRollup at h
  repeat' split at h
  all_goals cases h
  all_goals exact Err.noConfusion

theorem rollback_not_commit (failure : Option Str) (text : Str) :
    failure.map Err.database ≠ some (.commit text) := by
  cases failure <;> simp

/-- Everything a `RecordClick` call can return and leave behind. -/
inductive Recorded (db : Database) (event : ClickEvent) (increment : Bool)
    (maxClicks : Option ℤ) : Bool → Option Err → Database → Prop where
  | refused {err} (hc : ∀ text, err ≠ some (.commit text)) :
      Recorded db event increment maxClicks false err db
  | duplicate {row err} (hrow : clickRow event event.occurredAt = some row)
      (hi : db.clicks.insert row = none)
      (hc : err = none ∨ ∃ text, err = some (.commit text)) :
      Recorded db event increment maxClicks true err db
  | counted {row clicks err db'} (hrow : clickRow event event.occurredAt = some row)
      (hi : db.clicks.insert row = some clicks) (hl : (db.link event.linkId).isSome)
      (ha : increment = true → 0 < db.links.affected (underLimit event.linkId maxClicks))
      (hd : db' = recorded db clicks increment (underLimit event.linkId maxClicks)
          row.rollupKey ∨ db' = db)
      (hc : (err = none ∧ db' = recorded db clicks increment
          (underLimit event.linkId maxClicks) row.rollupKey) ∨ ∃ text, err = some (.commit text)) :
      Recorded db event increment maxClicks true err db'

theorem Recorded.of_commit {increment : Bool} {maxClicks : Option ℤ} {row : ClickRow}
    {clicks : Table ClickRow clickClash} (hrow : clickRow event event.occurredAt = some row)
    (hi : db.clicks.insert row = some clicks) (hl : (db.link event.linkId).isSome)
    (ha : increment = true → 0 < db.links.affected (underLimit event.linkId maxClicks))
    (htx : tx = recorded db clicks increment (underLimit event.linkId maxClicks)
      row.rollupKey) :
    Recorded db event increment maxClicks true (commitTx io db tx).1 (commitTx io db tx).2 := by
  subst htx
  refine .counted hrow hi hl ha (commitTx_state io db _) ?_
  cases hc : (commitTx io db (recorded db clicks increment
      (underLimit event.linkId maxClicks) row.rollupKey)).1 with
  | none => exact Or.inl ⟨rfl, (commitTx_none hc).1⟩
  | some e =>
    obtain ⟨text, rfl⟩ := commitTx_error hc
    exact Or.inr ⟨text, rfl⟩

theorem recordClick_cases (io : Script) (db : Database) (increment : Bool)
    (maxClicks : Option ℤ) (ht : event.occurredAt.isZero = false) :
    Recorded db event increment maxClicks (recordClick io db event increment maxClicks).1.1
      (recordClick io db event increment maxClicks).1.2
      (recordClick io db event increment maxClicks).2 := by
  unfold recordClick
  split
  · exact .refused (by simp)
  dsimp only
  split
  · rename_i e he
    exact .refused fun text heq => insertClick_not_commit he text (Option.some.inj heq)
  · rename_i tx hins
    obtain ⟨row, hrow, ⟨-, rfl, hi⟩ | ⟨h, -⟩⟩ := insertClick_cases (by exact ht) hins
    · have hd : (commitTx io tx tx).2 = tx := (commitTx_state io tx tx).elim id id
      rw [hd]
      refine .duplicate hrow hi ?_
      cases hc : (commitTx io tx tx).1 with
      | none => exact Or.inl rfl
      | some e =>
        obtain ⟨text, rfl⟩ := commitTx_error hc
        exact Or.inr ⟨text, rfl⟩
    · cases h
  · rename_i tx hins
    obtain ⟨row, hrow, ⟨h, -⟩ | ⟨-, hl, clicks, hi, rfl⟩⟩ := insertClick_cases (by exact ht) hins
    · cases h
    split
    · rename_i e he
      exact .refused fun text heq => counter_not_commit he text (Option.some.inj heq)
    · rename_i affected tx hcount
      obtain ⟨haff, rfl⟩ := counter_ok hcount
      by_cases hzero : affected = 0
      · rw [if_pos hzero]
        exact .refused (rollback_not_commit io.rollback)
      · rw [if_neg hzero]
        split
        · rename_i e he
          exact .refused fun text heq =>
            incrementClickRollup_not_commit he text (Option.some.inj heq)
        · rename_i tx hroll
          refine .of_commit hrow hi hl ?_ (incrementClickRollup_ok (by exact ht) hrow hroll)
          rintro rfl
          rw [if_pos rfl] at haff
          exact Nat.pos_of_ne_zero fun h => hzero (haff.trans h)

/-- A call that refuses, or fails before its commit, leaves every table as it was. -/
theorem recordClick_unchanged (io : Script) (db : Database) (event : ClickEvent)
    (increment : Bool) (maxClicks : Option ℤ)
    (h : (recordClick io db event increment maxClicks).1 = (false, none) ∨
      ∃ e, (recordClick io db event increment maxClicks).1.2 = some e ∧
        ∀ text, e ≠ .commit text) :
    (recordClick io db event increment maxClicks).2 = db := by
  -- only the two commits leave anything, and they return true
  have hcommit : ∀ tx : Database, ((true, (commitTx io db tx).1) = (false, none) ∨
      ∃ e, (commitTx io db tx).1 = some e ∧ ∀ text, e ≠ .commit text) →
        (commitTx io db tx).2 = db := by
    rintro tx (hfalse | ⟨e, he, hne⟩)
    · cases hfalse
    · obtain ⟨text, rfl⟩ := commitTx_error he
      exact absurd rfl (hne text)
  unfold recordClick at h ⊢
  split at h
  · rfl
  · dsimp only at h ⊢
    split at h
    · rfl
    · exact hcommit _ h
    · split at h
      · rfl
      · rename_i affected _ _
        by_cases hzero : affected = 0
        · rw [if_pos hzero]
        · rw [if_neg hzero] at h ⊢
          split at h
          · rfl
          · exact hcommit _ h

/-! The same read forwards, on a connection that does not fail. -/

theorem insertClick_duplicate {row : ClickRow} (hx : io.exec n = none)
    (ht : event.occurredAt.isZero = false)
    (hrow : clickRow event event.occurredAt = some row) (hi : tx.clicks.insert row = none) :
    insertClick io n tx event = .ok (false, tx) := by
  simp [insertClick, hx, clickTime_of_occurred ht, hrow, hi]

theorem insertClick_new {row : ClickRow} {clicks : Table ClickRow clickClash}
    (hx : io.exec n = none) (ht : event.occurredAt.isZero = false)
    (hrow : clickRow event event.occurredAt = some row)
    (hi : tx.clicks.insert row = some clicks) (hl : (tx.link event.linkId).isSome) :
    insertClick io n tx event = .ok (true, { tx with clicks := clicks }) := by
  simp [insertClick, hx, clickTime_of_occurred ht, hrow, hi, hl]

theorem incrementClickRollup_new {row : ClickRow} (hx : io.exec n = none)
    (ht : event.occurredAt.isZero = false)
    (hrow : clickRow event event.occurredAt = some row) (hl : (tx.link event.linkId).isSome) :
    incrementClickRollup io n tx event = .ok (bumpRollup tx row.rollupKey) := by
  have hid : row.rollupKey.linkId = event.linkId := by
    have h := rollupKey_of_clickRow hrow
    simp only [rollupKey, Option.bind_eq_bind, Option.bind_eq_some_iff, Option.some.injEq] at h
    obtain ⟨_, -, _, -, _, -, _, -, _, -, _, -, _, -, _, -, h⟩ := h
    rw [← h]
  simp [incrementClickRollup, hx, clickTime_of_occurred ht, rollupKey_of_clickRow hrow, hid, hl]

theorem recordClick_duplicate {increment : Bool} {maxClicks : Option ℤ} {row : ClickRow}
    (hio : io.Healthy) (ht : event.occurredAt.isZero = false)
    (hrow : clickRow event event.occurredAt = some row) (hi : db.clicks.insert row = none) :
    recordClick io db event increment maxClicks = ((true, none), db) := by
  have hins : insertClick io 0 db { event with increment := increment } = .ok (false, db) :=
    insertClick_duplicate (hio.2.1 0) (by exact ht) (by exact hrow) hi
  simp [recordClick, hio.1, hins, commitTx, hio.2.2.2]

theorem recordClick_new {increment : Bool} {maxClicks : Option ℤ} {row : ClickRow}
    {clicks : Table ClickRow clickClash} (hio : io.Healthy)
    (ht : event.occurredAt.isZero = false)
    (hrow : clickRow event event.occurredAt = some row)
    (hi : db.clicks.insert row = some clicks) (hl : (db.link event.linkId).isSome)
    (ha : increment = true → 0 < db.links.affected (underLimit event.linkId maxClicks)) :
    recordClick io db event increment maxClicks = ((true, none), recorded db clicks increment
      (underLimit event.linkId maxClicks) row.rollupKey) := by
  have hins : insertClick io 0 db { event with increment := increment } =
      .ok (true, { db with clicks := clicks }) :=
    insertClick_new (hio.2.1 0) (by exact ht) (by exact hrow) hi hl
  have hroll : ∀ tx : Database, (tx.link event.linkId).isSome →
      incrementClickRollup io 2 tx { event with increment := increment } =
        .ok (bumpRollup tx row.rollupKey) := fun tx hlink =>
    incrementClickRollup_new (hio.2.1 2) (by exact ht) (by exact hrow) hlink
  cases increment with
  | false =>
    have hlink : (({ db with clicks := clicks } : Database).link event.linkId).isSome := hl
    simp [recordClick, hio.1, hins, hroll _ hlink, commitTx, hio.2.2.2, recorded]
  | true =>
    have hne : db.links.affected (underLimit event.linkId maxClicks) ≠ 0 :=
      Nat.ne_of_gt (ha rfl)
    have hlink : ((bumpLinks { db with clicks := clicks }
        (underLimit event.linkId maxClicks)).link event.linkId).isSome := by
      rw [link_bumpLinks, Option.isSome_map]
      exact hl
    simp [recordClick, hio.1, hins, countClick, hio.2.1 1, hne, hroll _ hlink, commitTx,
      hio.2.2.2, recorded]

theorem recordClick_unstorable {increment : Bool} {maxClicks : Option ℤ} (hio : io.Healthy)
    (ht : event.occurredAt.isZero = false) (hrow : clickRow event event.occurredAt = none) :
    recordClick io db event increment maxClicks = ((false, some .schema), db) := by
  have hrow' : clickRow { event with increment := increment } event.occurredAt = none := hrow
  have hins : insertClick io 0 db { event with increment := increment } = .error .schema := by
    rw [insertClick, hio.2.1 0, clickTime_of_occurred (by exact ht)]
    dsimp only
    rw [hrow']
  simp [recordClick, hio.1, hins]

/-- A new event of a link whose counter the statement does not reach. -/
theorem recordClick_limited {maxClicks : Option ℤ} {row : ClickRow}
    {clicks : Table ClickRow clickClash} (hio : io.Healthy)
    (ht : event.occurredAt.isZero = false)
    (hrow : clickRow event event.occurredAt = some row)
    (hi : db.clicks.insert row = some clicks) (hl : (db.link event.linkId).isSome)
    (ha : db.links.affected (underLimit event.linkId maxClicks) = 0) :
    recordClick io db event true maxClicks = ((false, none), db) := by
  have hins : insertClick io 0 db { event with increment := true } =
      .ok (true, { db with clicks := clicks }) :=
    insertClick_new (hio.2.1 0) (by exact ht) (by exact hrow) hi hl
  simp [recordClick, hio.1, hins, countClick, hio.2.1 1, ha, hio.2.2.1]

end Effects

/-- Rows older than 90 days with their positions, oldest first. -/
def purgeable (now : Time) (rows : List ClickRow) : List (ClickRow × ℕ) :=
  (rows.zipIdx.filter fun r => r.1.createdAt.nanos < now.nanos - 90 * GoTime.day).mergeSort
    fun a b => a.1.createdAt.nanos < b.1.createdAt.nanos ||
      (a.1.createdAt.nanos = b.1.createdAt.nanos && a.2 ≤ b.2)

theorem filter_positions_sublist {α : Type*} (rows : List α) (p : α × ℕ → Bool) :
    ((rows.zipIdx.filter p).map Prod.fst).Sublist rows := by
  have h := (List.filter_sublist (l := rows.zipIdx) (p := p)).map Prod.fst
  simpa using h

def purgeOldClicks (io : Script) (db : Database) : Option Err × Database :=
  match io.exec 0 with
  | some text => (some (.database text), db)
  | none =>
    let victims := (purgeable (io.now 0) db.clicks.rows).take 10000
    commitTx io db { db with
      clicks := db.clicks.restrict ((db.clicks.rows.zipIdx.filter (· ∉ victims)).map Prod.fst)
        (filter_positions_sublist _ _) }

end ClickStore
