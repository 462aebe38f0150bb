import ShortQ.ClickStore
import Mathlib.Tactic.Common

/-! # The batch path refines the single path -/
namespace ClickBatch

open Models
open RowTable
open Schema
open Transaction
open ClickStore

variable {io : Script} {db tx tx' : Database} {event : ClickEvent} {events : List ClickEvent}
  {n : ℕ}

/-- `RecordClick(e, e.Increment, nil)` on the events in order, with how many of the calls
inserted a row. -/
def recordEach (db : Database) : List ClickEvent → Database × ℕ
  | [] => (db, 0)
  | event :: events =>
    let next := (recordClick {} db event event.increment none).2
    let inserted := if db.clicks.rows.length < next.clicks.rows.length then 1 else 0
    ((recordEach next events).1, inserted + (recordEach next events).2)

/-- Every column accepts its value of the event. -/
def Storable (event : ClickEvent) : Prop := (clickRow event event.occurredAt).isSome

/-- The event's id is null, or neither stored nor carried by an earlier event of the batch. -/
def NewIn (db : Database) (earlier : List ClickEvent) (event : ClickEvent) : Prop :=
  ∀ id, nullableUuid event.eventId = some (some id) →
    (∀ r ∈ db.clicks.rows, r.eventId ≠ some id) ∧
      ∀ e ∈ earlier, nullableUuid e.eventId ≠ some (some id)

def LinkExists (db : Database) (id : ℤ) : Prop := (db.link id).isSome

/-- The link is stored, not deleted and has no click limit. -/
def LinkUnlimited (db : Database) (id : ℤ) : Prop :=
  ∃ r, db.link id = some r ∧ r.deletedAt = none ∧ r.maxClicks = none

/-- What the schema and the counter statement ask of an event, given the earlier ones. -/
def AcceptedNext (db : Database) (earlier : List ClickEvent) (event : ClickEvent) : Prop :=
  Storable event ∧ (NewIn db earlier event → LinkExists db event.linkId ∧
    (event.increment = true → LinkUnlimited db event.linkId))

def Accepted (db : Database) (events : List ClickEvent) : Prop :=
  ∀ earlier event later, events = earlier ++ event :: later → AcceptedNext db earlier event

theorem healthy_default : ({} : Script).Healthy := ⟨rfl, fun _ => rfl, rfl, rfl⟩

theorem eventId_of_clickRow {row : ClickRow}
    (h : clickRow event event.occurredAt = some row) :
    nullableUuid event.eventId = some row.eventId := (clickRow_iff.mp h).eventId

theorem linkId_of_clickRow {row : ClickRow}
    (h : clickRow event event.occurredAt = some row) : row.linkId = event.linkId :=
  (clickRow_iff.mp h).linkId

theorem routeType_of_clickRow {row : ClickRow}
    (h : clickRow event event.occurredAt = some row) :
    varchar 24 event.routeType = some row.routeType := (clickRow_iff.mp h).routeType

theorem newIn_nil_iff {row : ClickRow} (h : clickRow event event.occurredAt = some row) :
    NewIn db [] event ↔ db.clicks.insert row ≠ none := by
  have hid := eventId_of_clickRow h
  constructor
  · intro hnew hins
    obtain ⟨a, ha, hne, heq⟩ := Table.insert_eq_none.mp hins
    obtain ⟨id, ha'⟩ := Option.ne_none_iff_exists'.mp hne
    exact (hnew id (by rw [hid, ← heq, ha'])).1 a ha ha'
  · intro hins id hev
    refine ⟨fun r hr hrid => hins ?_, by simp⟩
    rw [hid] at hev
    have hrow : row.eventId = some id := Option.some.inj hev
    exact Table.insert_eq_none.mpr ⟨r, hr, by simp [hrid], by rw [hrid, hrow]⟩

theorem unlimited_affected_iff :
    db.links.affected (unlimited event.linkId) = 1 ↔ LinkUnlimited db event.linkId := by
  rw [affected_unlimited]
  cases hl : db.link event.linkId with
  | none => simp [LinkUnlimited, hl]
  | some r => simp [LinkUnlimited, hl]

/-- Everything the loop body can do when it does not fail. -/
theorem recordNext_cases {isNew : Bool} (ht : event.occurredAt.isZero = false)
    (h : recordNext io n tx event = .ok (isNew, tx')) :
    ∃ row, clickRow event event.occurredAt = some row ∧
      ((isNew = false ∧ tx' = tx ∧ tx.clicks.insert row = none) ∨
       (isNew = true ∧ LinkExists tx event.linkId ∧
        (event.increment = true → LinkUnlimited tx event.linkId) ∧
        ∃ clicks, tx.clicks.insert row = some clicks ∧
          tx' = recorded tx clicks event.increment (unlimited event.linkId) row.rollupKey)) := by
  unfold recordNext at h
  split at h
  · cases h
  · rename_i tx₁ hins
    cases h
    obtain ⟨row, hrow, hdup | ⟨hnew, -⟩⟩ := insertClick_cases ht hins
    · exact ⟨row, hrow, Or.inl hdup⟩
    · cases hnew
  · rename_i tx₁ hins
    obtain ⟨row, hrow, ⟨hnew, -⟩ | ⟨-, hl, clicks, hi, rfl⟩⟩ := insertClick_cases ht hins
    · cases hnew
    refine ⟨row, hrow, Or.inr ?_⟩
    split at h
    · cases h
    · rename_i affected tx₂ hcount
      obtain ⟨haff, rfl⟩ := counter_ok hcount
      split at h
      · cases h
      · rename_i hone
        split at h
        · cases h
        · rename_i tx₃ hroll
          cases h
          refine ⟨rfl, hl, ?_, clicks, hi, incrementClickRollup_ok ht hrow hroll⟩
          intro hinc
          rw [if_pos hinc] at haff
          exact unlimited_affected_iff.mp (haff.symm.trans (not_ne_iff.mp hone))

/-- Where the batch's stricter counter condition holds, both statements change the same row. -/
theorem recorded_unlimited {clicks : Table ClickRow clickClash} {key : RollupKey}
    (h : event.increment = true → LinkUnlimited db event.linkId) :
    recorded db clicks event.increment (unlimited event.linkId) key =
      recorded db clicks event.increment (underLimit event.linkId none) key := by
  unfold recorded
  cases hinc : event.increment with
  | false => rfl
  | true =>
    obtain ⟨r, hr, hd, hm⟩ := h hinc
    have hcongr : ∀ a ∈ db.links.rows,
        unlimited event.linkId a = underLimit event.linkId none a := by
      intro a ha
      by_cases hid : a.id = event.linkId
      · have hrid : r.id = event.linkId := by simpa using List.find?_some hr
        obtain rfl := db.links.eq_of_clash linkClash_symm ha (List.mem_of_find?_eq_some hr)
          (Or.inl (hid.trans hrid.symm))
        simp [unlimited, underLimit, hm]
      · simp [unlimited, underLimit, hid]
    simp only [if_true, bumpLinks, Table.update_congr hcongr]

theorem affected_of_linkUnlimited (h : LinkUnlimited db event.linkId) :
    0 < db.links.affected (underLimit event.linkId none) := by
  obtain ⟨r, hr, hd, -⟩ := h
  rw [affected_underLimit, hr]
  simp [hd]

theorem rows_recorded {clicks : Table ClickRow clickClash} {row : ClickRow} {inc : Bool}
    {p : LinkRow → Bool} {key : RollupKey} (hi : db.clicks.insert row = some clicks) :
    (recorded db clicks inc p key).clicks.rows = db.clicks.rows ++ [row] := by
  have h : (recorded db clicks inc p key).clicks = clicks := by
    unfold recorded
    cases inc <;> rfl
  rw [h, (Table.insert_eq_some.mp hi).2]

/-- One turn of the loop does what one healthy `RecordClick` call does. -/
theorem recordClick_of_recordNext {isNew : Bool} (ht : event.occurredAt.isZero = false)
    (h : recordNext io n tx event = .ok (isNew, tx')) :
    recordClick {} tx event event.increment none = ((true, none), tx') ∧
      (tx.clicks.rows.length < tx'.clicks.rows.length ↔ isNew = true) := by
  obtain ⟨row, hrow, ⟨rfl, rfl, hi⟩ | ⟨rfl, hl, hu, clicks, hi, rfl⟩⟩ := recordNext_cases ht h
  · exact ⟨recordClick_duplicate healthy_default ht hrow hi, by simp⟩
  · constructor
    · rw [recorded_unlimited hu]
      exact recordClick_new healthy_default ht hrow hi hl
        fun hinc => affected_of_linkUnlimited (hu hinc)
    · rw [rows_recorded hi]
      simp

theorem recordEach_of_recordBatch (ht : ∀ e ∈ events, e.occurredAt.isZero = false)
    {inserted total : ℕ} (h : recordBatch io n inserted tx events = .ok (total, tx')) :
    (recordEach tx events).1 = tx' ∧ total = inserted + (recordEach tx events).2 := by
  induction events generalizing n inserted tx with
  | nil =>
    cases h
    exact ⟨rfl, rfl⟩
  | cons event events ih =>
    unfold recordBatch at h
    split at h
    · cases h
    · rename_i isNew tx₁ hnext
      have hone := recordClick_of_recordNext (ht event List.mem_cons_self) hnext
      have hrest := ih (fun e he => ht e (List.mem_cons_of_mem _ he)) h
      have hgrew : (if tx.clicks.rows.length < tx₁.clicks.rows.length then 1 else 0) =
          isNew.toNat := by
        cases isNew <;> simp [hone.2]
      simp only [recordEach, hone.1, hgrew]
      exact ⟨hrest.1, by rw [hrest.2, Nat.add_assoc]⟩

theorem link_recorded {clicks : Table ClickRow clickClash} {inc : Bool} {p : LinkRow → Bool}
    {key : RollupKey} (id : ℤ) : (recorded db clicks inc p key).link id =
      (db.link id).map fun r => if inc && p r then addClick r else r := by
  unfold recorded
  rw [link_bumpRollup]
  cases inc with
  | false => exact (Option.map_id' (x := db.link id)).symm
  | true => exact link_bumpLinks { db with clicks := clicks } p id

theorem linkExists_recorded {clicks : Table ClickRow clickClash} {inc : Bool}
    {p : LinkRow → Bool} {key : RollupKey} (id : ℤ) :
    LinkExists (recorded db clicks inc p key) id ↔ LinkExists db id := by
  simp [LinkExists, link_recorded]

/-- Counting changes neither the deletion mark nor the limit of a link. -/
theorem linkUnlimited_recorded {clicks : Table ClickRow clickClash} {inc : Bool}
    {p : LinkRow → Bool} {key : RollupKey} (id : ℤ) :
    LinkUnlimited (recorded db clicks inc p key) id ↔ LinkUnlimited db id := by
  unfold LinkUnlimited
  rw [link_recorded]
  cases db.link id with
  | none => simp
  | some r =>
    have hd : (if inc && p r then addClick r else r).deletedAt = r.deletedAt := by
      split <;> rfl
    have hm : (if inc && p r then addClick r else r).maxClicks = r.maxClicks := by
      split <;> rfl
    simp only [Option.map_some, Option.some.injEq, exists_eq_left', hd, hm]

/-- A newly stored event joins the stored ones, a duplicate adds nothing to them. -/
theorem newIn_recordNext {isNew : Bool} (ht : event.occurredAt.isZero = false)
    (h : recordNext io n tx event = .ok (isNew, tx')) (earlier : List ClickEvent)
    (e : ClickEvent) : NewIn tx (event :: earlier) e ↔ NewIn tx' earlier e := by
  obtain ⟨row, hrow, ⟨-, rfl, hi⟩ | ⟨-, -, -, clicks, hi, rfl⟩⟩ := recordNext_cases ht h
  · obtain ⟨a, ha, hne, heq⟩ := Table.insert_eq_none.mp hi
    have hid := eventId_of_clickRow hrow
    simp only [NewIn, List.forall_mem_cons]
    refine forall₂_congr fun id _ => ⟨fun hn => ⟨hn.1, hn.2.2⟩, fun hn => ⟨hn.1, ?_, hn.2⟩⟩
    rw [hid]
    intro hsame
    exact hn.1 a ha (heq.trans (Option.some.inj hsame))
  · have hid := eventId_of_clickRow hrow
    simp only [NewIn, List.forall_mem_cons, rows_recorded hi, List.forall_mem_append,
      List.not_mem_nil, false_imp_iff, implies_true, and_true]
    refine forall₂_congr fun id _ => ?_
    rw [hid, ne_eq, Option.some.injEq]
    tauto

theorem accepted_cons : Accepted db (event :: events) ↔ AcceptedNext db [] event ∧
    ∀ earlier e later, events = earlier ++ e :: later → AcceptedNext db (event :: earlier) e := by
  constructor
  · intro h
    refine ⟨h [] event events rfl, fun earlier e later he => ?_⟩
    exact h (event :: earlier) e later (by rw [he, List.cons_append])
  · rintro ⟨hhead, hrest⟩ earlier e later he
    cases earlier with
    | nil =>
      obtain ⟨rfl, -⟩ := List.cons.inj he
      exact hhead
    | cons first earlier =>
      obtain ⟨rfl, hes⟩ := List.cons.inj he
      exact hrest earlier e later hes

theorem acceptedNext_recordNext {isNew : Bool} (ht : event.occurredAt.isZero = false)
    (h : recordNext io n tx event = .ok (isNew, tx')) (earlier : List ClickEvent)
    (e : ClickEvent) : AcceptedNext tx (event :: earlier) e ↔ AcceptedNext tx' earlier e := by
  unfold AcceptedNext
  rw [newIn_recordNext ht h]
  obtain ⟨row, -, ⟨-, rfl, -⟩ | ⟨-, -, -, clicks, -, rfl⟩⟩ := recordNext_cases ht h
  · rfl
  · rw [linkExists_recorded, linkUnlimited_recorded]

/-- On a connection that does not fail, one turn of the loop fails only for the event. -/
theorem recordNext_succeeds_iff (hio : io.Healthy) (ht : event.occurredAt.isZero = false) :
    (∃ isNew tx', recordNext io n tx event = .ok (isNew, tx')) ↔ AcceptedNext tx [] event := by
  constructor
  · rintro ⟨isNew, tx', h⟩
    obtain ⟨row, hrow, hcase⟩ := recordNext_cases ht h
    refine ⟨by rw [Storable, hrow]; rfl, fun hnew => ?_⟩
    rcases hcase with ⟨-, -, hi⟩ | ⟨-, hl, hu, -⟩
    · exact absurd hi ((newIn_nil_iff hrow).mp hnew)
    · exact ⟨hl, hu⟩
  · rintro ⟨hstore, hlink⟩
    obtain ⟨row, hrow⟩ := Option.isSome_iff_exists.mp hstore
    cases hi : tx.clicks.insert row with
    | none =>
      have hins := insertClick_duplicate (hio.2.1 n) ht hrow hi
      exact ⟨false, tx, by simp [recordNext, hins]⟩
    | some clicks =>
      obtain ⟨hl, hu⟩ := hlink ((newIn_nil_iff hrow).mpr (by simp [hi]))
      have hins := insertClick_new (hio.2.1 n) ht hrow hi hl
      have hroll : ∀ tx : Database, (tx.link event.linkId).isSome →
          incrementClickRollup io (n + 2) tx event = .ok (bumpRollup tx row.rollupKey) :=
        fun tx hlink => incrementClickRollup_new (hio.2.1 (n + 2)) ht hrow hlink
      have hl₁ : (({ tx with clicks := clicks } : Database).link event.linkId).isSome := hl
      cases hinc : event.increment with
      | false =>
        refine ⟨true, bumpRollup { tx with clicks := clicks } row.rollupKey, ?_⟩
        simp only [recordNext, hins, hinc, hroll _ hl₁, ne_eq, not_true_eq_false, if_false,
          Bool.false_eq_true]
      | true =>
        have hone : ({ tx with clicks := clicks } : Database).links.affected
            (unlimited event.linkId) = 1 := unlimited_affected_iff.mpr (hu hinc)
        have hl₂ : ((bumpLinks { tx with clicks := clicks }
            (unlimited event.linkId)).link event.linkId).isSome := by
          rw [link_bumpLinks, Option.isSome_map]
          exact hl
        refine ⟨true, bumpRollup (bumpLinks { tx with clicks := clicks }
          (unlimited event.linkId)) row.rollupKey, ?_⟩
        simp only [recordNext, hins, hinc, if_true, countClick, hio.2.1 (n + 1), hone,
          hroll _ hl₂, ne_eq, not_true_eq_false, if_false]

theorem recordBatch_succeeds_iff (hio : io.Healthy)
    (ht : ∀ e ∈ events, e.occurredAt.isZero = false) (inserted : ℕ) :
    (∃ r, recordBatch io n inserted tx events = .ok r) ↔ Accepted tx events := by
  induction events generalizing n inserted tx with
  | nil => simp [recordBatch, Accepted]
  | cons event events ih =>
    have hone : (∃ isNew tx', recordNext io n tx event = .ok (isNew, tx')) ↔
        AcceptedNext tx [] event := recordNext_succeeds_iff hio (ht event List.mem_cons_self)
    have hrest := fun e he => ht e (List.mem_cons_of_mem event he)
    rw [accepted_cons, ← hone]
    cases hnext : recordNext io n tx event with
    | error e => simp [recordBatch, hnext]
    | ok r =>
      obtain ⟨isNew, tx₁⟩ := r
      have hstep := acceptedNext_recordNext (ht event List.mem_cons_self) hnext
      simp only [recordBatch, hnext, hstep, ih hrest, Accepted]
      simp

theorem recordNext_not_commit {e : Err} (h : recordNext io n tx event = .error e)
    (text : GoText.Str) : e ≠ .commit text := by
  unfold recordNext at h
  split at h
  · rename_i e' he
    cases h
    exact insertClick_not_commit he text
  · cases h
  · split at h
    · rename_i e' he
      cases h
      exact counter_not_commit he text
    · split at h
      · cases h
        exact Err.noConfusion
      · split at h
        · rename_i e' he
          cases h
          exact incrementClickRollup_not_commit he text
        · cases h

theorem recordBatch_not_commit {e : Err} {inserted : ℕ}
    (h : recordBatch io n inserted tx events = .error e) (text : GoText.Str) :
    e ≠ .commit text := by
  induction events generalizing n inserted tx with
  | nil => cases h
  | cons event events ih =>
    unfold recordBatch at h
    split at h
    · rename_i e' he
      cases h
      exact recordNext_not_commit he text
    · exact ih h

/-- Everything a `RecordClicks` call can return and leave behind. -/
inductive BatchRecorded (io : Script) (db : Database) (events : List ClickEvent) :
    ℕ → Option Err → Database → Prop where
  | refused {e} (hc : ∀ text, e ≠ .commit text) : BatchRecorded io db events 0 (some e) db
  | committed {total tx} (hb : recordBatch io 0 0 db events = .ok (total, tx)) :
      BatchRecorded io db events total none tx
  | uncertain {total tx text db'} (hb : recordBatch io 0 0 db events = .ok (total, tx))
      (hd : db' = tx ∨ db' = db) : BatchRecorded io db events 0 (some (.commit text)) db'

theorem recordClicks_cases (io : Script) (db : Database) (events : List ClickEvent) :
    BatchRecorded io db events (recordClicks io db events).1.1
      (recordClicks io db events).1.2 (recordClicks io db events).2 := by
  unfold recordClicks
  split
  · rename_i hnil
    rw [hnil]
    exact .committed rfl
  split
  · exact .refused fun text => Err.noConfusion
  split
  · rename_i e he
    exact .refused (recordBatch_not_commit he)
  · rename_i total tx hb
    have hstate := commitTx_state io db tx
    cases hc : commitTx io db tx with
    | mk err db' =>
      rw [hc] at hstate
      cases err with
      | none =>
        have htx := (commitTx_none (by rw [hc])).1
        rw [hc] at htx
        obtain rfl : db' = tx := htx
        exact .committed hb
      | some e =>
        obtain ⟨text, rfl⟩ := commitTx_error (by rw [hc])
        exact .uncertain hb hstate

theorem recordClicks_succeeds_iff (hio : io.Healthy) :
    (recordClicks io db events).1.2 = none ↔ ∃ r, recordBatch io 0 0 db events = .ok r := by
  unfold recordClicks
  by_cases hnil : events = []
  · simp [hnil, recordBatch]
  · rw [if_neg hnil, hio.1]
    cases hb : recordBatch io 0 0 db events with
    | error e => simp
    | ok r => simp [commitTx, hio.2.2.2]

/-- A committed batch is the single path taken event by event, a batch on a healthy
connection commits exactly when every event is accepted, and a failed one changes nothing. -/
theorem recordClicks_refines_recordClick (db : Database) (events : List ClickEvent)
    (ht : ∀ e ∈ events, e.occurredAt.isZero = false) :
    (∀ io n db', recordClicks io db events = ((n, none), db') → recordEach db events = (db', n)) ∧
    (∀ io : Script, io.Healthy →
      ((recordClicks io db events).1.2 = none ↔ Accepted db events)) ∧
    ∀ io e, (recordClicks io db events).1.2 = some e → (∀ text, e ≠ .commit text) →
      (recordClicks io db events).2 = db := by
  refine ⟨fun io n db' h => ?_, fun io hio => ?_, fun io e he hne => ?_⟩
  · have hcases := recordClicks_cases io db events
    rw [h] at hcases
    cases hcases with
    | committed hb =>
      obtain ⟨hdb, hn⟩ := recordEach_of_recordBatch ht hb
      exact Prod.ext hdb (hn.trans (Nat.zero_add _)).symm
  · rw [recordClicks_succeeds_iff hio, recordBatch_succeeds_iff hio ht]
  · have hcases := recordClicks_cases io db events
    rw [he] at hcases
    generalize (recordClicks io db events).1.1 = total at hcases
    generalize (recordClicks io db events).2 = db' at hcases ⊢
    cases hcases with
    | refused => rfl
    | uncertain => exact absurd rfl (hne _)

/-- A redelivered event inside one batch is counted once on both paths. -/
theorem recordClicks_refines_recordClick_redelivered :
    let event := sampleClick (GoText.lit "aaaaaaaa-0000-4000-8000-000000000001")
    let events := [event, event]
    let batch := recordClicks {} (Database.single sampleLink) events
    batch.1 = (1, none) ∧ recordEach (Database.single sampleLink) events = (batch.2, 1) := by
  intro event events batch
  have hone : batch.1 = (1, none) := by decide
  have hrefines := recordClicks_refines_recordClick (Database.single sampleLink) events
    (by decide)
  exact ⟨hone, hrefines.1 {} 1 batch.2 (Prod.ext hone rfl)⟩

end ClickBatch
