import ShortQ.ClickLedger

/-! # The rows of `clicks` against the history of inserted events -/
namespace ClickRows

open Models
open RowTable
open Schema
open Transaction
open ClickStore
open ClickBatch
open LinkStore
open ClickLedger

/-- The value of the `event_id` column for an event; none also where it is refused. -/
def eventUuid (event : ClickEvent) : Option ℕ := (nullableUuid event.eventId).join

def Stored (db : Database) (u : ℕ) : Prop := ∃ row ∈ db.clicks.rows, row.eventId = some u

/-- The rows of the given events were appended, and nothing else happened to the table. -/
def Grows (before after : Database) (events : List ClickEvent) : Prop :=
  after.clicks.rows.map some = before.clicks.rows.map some ++
    events.map fun e => clickRow e e.occurredAt

theorem Grows.of_clicks {before after : Database} (h : after.clicks = before.clicks) :
    Grows before after [] := by
  simp [Grows, h]

theorem Grows.trans {a b c : Database} {es fs : List ClickEvent} (h : Grows a b es)
    (k : Grows b c fs) : Grows a c (es ++ fs) := by
  rw [Grows, k, h, List.map_append, List.append_assoc]

theorem Grows.stored {before after : Database} {events : List ClickEvent}
    (h : Grows before after events) {u : ℕ} (hs : Stored before u) : Stored after u := by
  obtain ⟨row, hrow, hu⟩ := hs
  refine ⟨row, ?_, hu⟩
  have hmem : some row ∈ after.clicks.rows.map some := by
    rw [h]
    exact List.mem_append_left _ (List.mem_map_of_mem hrow)
  simpa using hmem

theorem rows_of_uuid_le_one (db : Database) (u : ℕ) :
    (db.clicks.rows.countP fun row => row.eventId = some u) ≤ 1 := by
  have hq : ∀ a b : ClickRow, decide (a.eventId = some u) = true →
      decide (b.eventId = some u) = true → clickClash a b := by
    intro a b ha hb
    have ha' := of_decide_eq_true ha
    have hb' := of_decide_eq_true hb
    exact ⟨by simp [ha'], ha'.trans hb'.symm⟩
  have hcount := Table.countP_of_find (p := fun _ => true) hq db.clicks.distinct
  simp only [Bool.and_true] at hcount
  rw [hcount]
  exact Bool.toNat_le _

theorem eventUuid_of_clickRow {event : ClickEvent} {row : ClickRow}
    (h : clickRow event event.occurredAt = some row) : eventUuid event = row.eventId := by
  rw [eventUuid, eventId_of_clickRow h]
  rfl

theorem ascii_of_isHex {b : UInt8} (h : GoText.isHex b = true) : b < 0x80 := by
  simp only [GoText.isHex, GoText.isDigit, Bool.or_eq_true, Bool.and_eq_true, decide_eq_true_eq,
    UInt8.le_iff_toNat_le, UInt8.reduceToNat] at h
  simp only [UInt8.lt_iff_toNat_lt, UInt8.reduceToNat]
  omega

/-- The text of a UUID has no byte outside ASCII. -/
theorem ascii_of_uuidBytes {n value v : ℕ} {s rest : GoText.Str}
    (h : uuidBytes n value s = some (v, rest)) (hrest : ∀ b ∈ rest, b < 0x80) :
    ∀ b ∈ s, b < 0x80 := by
  induction n generalizing value s with
  | zero =>
    rw [uuidBytes] at h
    cases h
    exact hrest
  | succ n ih =>
    match s with
    | [] => cases h
    | [_] => cases h
    | a :: b :: tail =>
      simp only [uuidBytes] at h
      split at h
      · next hhex =>
        rw [Bool.and_eq_true] at hhex
        have htail := ih h
        have hall : ∀ c ∈ tail, c < 0x80 := by
          intro c hc
          split at htail
          · next hcond =>
            cases tail with
            | nil => cases hc
            | cons first more =>
              simp only [Bool.and_eq_true, decide_eq_true_eq, List.head?_cons,
                Option.some.injEq] at hcond
              rcases List.mem_cons.mp hc with rfl | hmore
              · rw [hcond.2]
                decide
              · exact htail c hmore
          · exact htail c hc
        intro c hc
        rcases List.mem_cons.mp hc with rfl | hc
        · exact ascii_of_isHex hhex.1
        · rcases List.mem_cons.mp hc with rfl | hc
          · exact ascii_of_isHex hhex.2
          · exact hall c hc
      · cases h

theorem ascii_of_eventUuid {event : ClickEvent} {u : ℕ} (h : eventUuid event = some u) :
    ∀ b ∈ event.eventId, b < 0x80 := by
  have huuid : Schema.uuid event.eventId = some u := by
    unfold eventUuid nullableUuid at h
    split at h
    · cases h
    · cases hu : Schema.uuid event.eventId with
      | none => simp [hu] at h
      | some v => simpa [hu] using h
  unfold Schema.uuid at huuid
  split at huuid
  · next rest hs =>
    split at huuid
    · next value hbytes =>
      rw [hs]
      intro b hb
      rcases List.mem_cons.mp hb with rfl | hb
      · decide
      · exact ascii_of_uuidBytes hbytes (by simp) b hb
    · cases huuid
  · split at huuid
    · next value hbytes => exact ascii_of_uuidBytes hbytes (by simp)
    · cases huuid

/-- No two of the appended events carry one id. -/
theorem Grows.once {before after : Database} {events : List ClickEvent}
    (h : Grows before after events) (u : ℕ) :
    (events.countP fun e => eventUuid e = some u) ≤ 1 := by
  have hrow : ∀ e ∈ events, ∃ row, clickRow e e.occurredAt = some row := by
    intro e he
    have hmem : clickRow e e.occurredAt ∈ after.clicks.rows.map some := by
      rw [h]
      exact List.mem_append_right _ (List.mem_map_of_mem he)
    obtain ⟨row, -, heq⟩ := List.mem_map.mp hmem
    exact ⟨row, heq.symm⟩
  have hcarried : ∀ e ∈ events, (decide (eventUuid e = some u) = true ↔
      ((clickRow e e.occurredAt).any fun row => row.eventId = some u) = true) := by
    intro e he
    obtain ⟨row, hr⟩ := hrow e he
    simp [hr, eventUuid_of_clickRow hr]
  calc events.countP (fun e => eventUuid e = some u)
      = events.countP (fun e => (clickRow e e.occurredAt).any fun row => row.eventId = some u) :=
        List.countP_congr hcarried
    _ = (events.map fun e => clickRow e e.occurredAt).countP
          (fun r => r.any fun row => row.eventId = some u) := by
        rw [List.countP_map]
        rfl
    _ ≤ (after.clicks.rows.map some).countP (fun r => r.any fun row => row.eventId = some u) := by
        rw [h, List.countP_append]
        exact Nat.le_add_left _ _
    _ = after.clicks.rows.countP (fun row => row.eventId = some u) := by
        rw [List.countP_map]
        rfl
    _ ≤ 1 := rows_of_uuid_le_one after u

section Recording

variable {io : Script} {db tx tx' : Database} {event : ClickEvent} {events : List ClickEvent}
  {n u : ℕ}

theorem grows_recordClicks (io : Script) (db : Database)
    (ht : ∀ e ∈ events, e.occurredAt.isZero = false) :
    Grows db (recordClicks io db events).2
      (insertedEvents db (recordClicks io db events).2 events) := by
  have hcases := recordClicks_cases io db events
  generalize (recordClicks io db events).1.1 = total at hcases
  generalize (recordClicks io db events).1.2 = err at hcases
  generalize (recordClicks io db events).2 = after at hcases ⊢
  have hnone : Grows db db (insertedEvents db db events) := by
    rw [insertedEvents_self]
    exact .of_clicks rfl
  cases hcases with
  | refused => exact hnone
  | committed hb =>
    have hrows := rows_recordBatch ht hb
    rw [insertedEvents_of_rows hrows]
    exact hrows
  | uncertain hb hd =>
    rcases hd with rfl | rfl
    · have hrows := rows_recordBatch ht hb
      rw [insertedEvents_of_rows hrows]
      exact hrows
    · exact hnone

theorem grows_recordClick (io : Script) (db : Database) (increment : Bool)
    (maxClicks : Option ℤ) (ht : event.occurredAt.isZero = false) :
    Grows db (recordClick io db event increment maxClicks).2
      (insertedEvents db (recordClick io db event increment maxClicks).2
        [{ event with increment := increment }]) := by
  have hcases := recordClick_cases io db increment maxClicks ht
  generalize (recordClick io db event increment maxClicks).1.1 = ok at hcases
  generalize (recordClick io db event increment maxClicks).1.2 = err at hcases
  generalize (recordClick io db event increment maxClicks).2 = after at hcases ⊢
  have hnone : Grows db db (insertedEvents db db [{ event with increment := increment }]) := by
    rw [insertedEvents_self]
    exact .of_clicks rfl
  cases hcases with
  | refused => exact hnone
  | duplicate => exact hnone
  | @counted row clicks _ _ hrow hi hl ha hd =>
    rcases hd with rfl | rfl
    · have hrow' : clickRow { event with increment := increment } event.occurredAt = some row :=
        hrow
      have hnew : newEvents db.clicks [{ event with increment := increment }] =
          [{ event with increment := increment }] := by
        simp [newEvents, hrow', hi]
      have hrows : Grows db (recorded db clicks increment (underLimit event.linkId maxClicks)
          row.rollupKey) (newEvents db.clicks [{ event with increment := increment }]) := by
        simp [Grows, hnew, rows_recorded hi, hrow']
      rw [insertedEvents_of_rows hrows]
      exact hrows
    · exact hnone

/-- A row that was inserted, or that kept another one out, carries its event's id. -/
theorem stored_of_insert {row : ClickRow} (hrow : clickRow event event.occurredAt = some row)
    (hu : eventUuid event = some u) (hi : db.clicks.insert row = none) : Stored db u := by
  obtain ⟨a, ha, -, heq⟩ := Table.insert_eq_none.mp hi
  refine ⟨a, ha, ?_⟩
  rw [heq, ← eventUuid_of_clickRow hrow]
  exact hu

theorem stored_of_recorded {row : ClickRow} {clicks : Table ClickRow clickClash} {inc : Bool}
    {p : LinkRow → Bool} (hrow : clickRow event event.occurredAt = some row)
    (hu : eventUuid event = some u) (hi : db.clicks.insert row = some clicks) :
    Stored (recorded db clicks inc p row.rollupKey) u := by
  refine ⟨row, ?_, ?_⟩
  · rw [rows_recorded hi]
    exact List.mem_append_right _ (List.mem_singleton_self _)
  · rw [← eventUuid_of_clickRow hrow]
    exact hu

theorem stored_recordBatch (ht : ∀ e ∈ events, e.occurredAt.isZero = false)
    {inserted total : ℕ} (h : recordBatch io n inserted tx events = .ok (total, tx'))
    (he : event ∈ events) (hu : eventUuid event = some u) : Stored tx' u := by
  induction events generalizing n inserted tx with
  | nil => cases he
  | cons first events ih =>
    unfold recordBatch at h
    split at h
    · cases h
    · rename_i isNew tx₁ hnext
      have hrest : ∀ e ∈ events, e.occurredAt.isZero = false :=
        fun e he => ht e (List.mem_cons_of_mem _ he)
      rcases List.mem_cons.mp he with rfl | hlater
      · have hgrow : Grows tx₁ tx' (newEvents tx₁.clicks events) := rows_recordBatch hrest h
        apply hgrow.stored
        obtain ⟨row, hrow, ⟨-, rfl, hi⟩ | ⟨-, -, -, clicks, hi, rfl⟩⟩ :=
          recordNext_cases (ht event List.mem_cons_self) hnext
        · exact stored_of_insert hrow hu hi
        · exact stored_of_recorded hrow hu hi
      · exact ih hrest h hlater

/-- A batch that returned without an error has stored each of its events. -/
theorem stored_recordClicks (ht : ∀ e ∈ events, e.occurredAt.isZero = false)
    (h : (recordClicks io db events).1.2 = none) (he : event ∈ events)
    (hu : eventUuid event = some u) : Stored (recordClicks io db events).2 u := by
  have hcases := recordClicks_cases io db events
  generalize (recordClicks io db events).1.1 = total at hcases
  generalize (recordClicks io db events).1.2 = err at hcases h
  generalize (recordClicks io db events).2 = after at hcases ⊢
  subst h
  cases hcases with
  | committed hb => exact stored_recordBatch ht hb he hu

/-- So has a single call that returned true without an error. -/
theorem stored_recordClick {increment : Bool} {maxClicks : Option ℤ}
    (ht : event.occurredAt.isZero = false)
    (h : (recordClick io db event increment maxClicks).1 = (true, none))
    (hu : eventUuid event = some u) :
    Stored (recordClick io db event increment maxClicks).2 u := by
  have hcases := recordClick_cases io db increment maxClicks ht
  rw [h] at hcases
  generalize (recordClick io db event increment maxClicks).2 = after at hcases ⊢
  generalize herr : (none : Option Err) = err at hcases
  generalize hok : true = ok at hcases
  cases hcases with
  | refused => cases hok
  | duplicate hrow hi => exact stored_of_insert hrow hu hi
  | counted hrow hi _ _ _ hc =>
    rcases hc with ⟨-, rfl⟩ | ⟨text, htext⟩
    · exact stored_of_recorded hrow hu hi
    · cases herr.trans htext

end Recording

/-- The calls that change links. -/
def editing : StoreOp → Bool
  | .createLink .. | .updateLink .. | .deleteLink .. => true
  | _ => false

theorem grows_edit {op : StoreOp} (h : editing op = true) (db : Database) :
    Grows db (op.apply db) [] := by
  apply Grows.of_clicks
  cases op with
  | createLink io after random u link hash =>
    have hsnd : (createLink io after db random u link hash).2 =
        (createLinkWrite io db random u link hash).2 := by
      unfold createLink
      split <;> simp [*]
    rw [StoreOp.apply, hsnd]
    unfold createLinkWrite
    dsimp only
    split
    · rfl
    split
    · rfl
    · rcases inTx_state io { db with nextLinkId := db.nextLinkId + 1 }
        (createLinkTx io { db with nextLinkId := db.nextLinkId + 1 } db.nextLinkId u
          (createLinkInput random link hash) hash) with heq | ⟨tx, hbody, heq⟩
      · rw [heq]
      · rw [heq]
        exact (createLinkTx_links hbody).2.1
  | updateLink io after u id link hash changed =>
    have hsnd : (updateLink io after db u id link hash changed).2 =
        (updateLinkWrite io db u id link hash changed).2 := by
      unfold updateLink
      split <;> simp [*]
    rw [StoreOp.apply, hsnd]
    unfold updateLinkWrite
    dsimp only
    split
    · rfl
    · rcases inTx_state io db (updateLinkTx io db u id (updateLinkInput link hash changed)
        (if changed then some hash else none)) with heq | ⟨tx, hbody, heq⟩
      · rw [heq]
      · obtain ⟨_, _, -, -, -, -, hclicks, -⟩ := updateLinkTx_links hbody
        rw [heq]
        exact hclicks
  | deleteLink io u id =>
    rcases deleteLink_state io db u id with heq | ⟨p, now, heq⟩
    · rw [StoreOp.apply, heq]
    · rw [StoreOp.apply, heq]
      rfl
  | _ => cases h

end ClickRows
