import ShortQ.ClickRows

/-! # Deduplication against retention

The unique index on `event_id` keeps a second row out only while the first one is there, and
`PurgeOldClicks` deletes it after 90 days. -/
namespace ClickRetention

open GoText (lit)
open GoTime (Time)
open LabelledRuns
open Models
open RowTable
open Schema
open Transaction
open ClickStore
open ClickLedger
open ClickRows

/-- Each event id has moved a link's counter, and the rollups, at most once since `db`. -/
structure CountedOnce (db : Database) (t : Ledger) : Prop where
  counters : Accounted db t.db t.inserted
  clicks : ∀ u, (t.inserted.countP fun e => eventUuid e = some u && e.increment) ≤ 1
  rollups : ∀ u, (t.inserted.countP fun e => eventUuid e = some u) ≤ 1

/-- Every event at hand that was recorded before still has its row. -/
def remembered (s : Ledger) (op : StoreOp) : Bool :=
  op.events.all fun e =>
    match eventUuid e with
    | none => true
    | some u => !(s.inserted.any fun f => eventUuid f = some u) ||
        s.db.clicks.rows.any fun row => row.eventId = some u

theorem newEvents_sublist (clicks : Table ClickRow clickClash) (events : List ClickEvent) :
    (newEvents clicks events).Sublist events := by
  induction events generalizing clicks with
  | nil => exact .slnil
  | cons event events ih =>
    unfold newEvents
    split
    · exact (ih _).cons_cons event
    · exact (ih clicks).cons event

theorem mem_insertedEvents {before after : Database} {events : List ClickEvent} {e : ClickEvent}
    (h : e ∈ insertedEvents before after events) : e ∈ events := by
  unfold insertedEvents at h
  split at h
  · exact (newEvents_sublist _ events).subset h
  · cases h

theorem insertedEvents_nil (before after : Database) : insertedEvents before after [] = [] := by
  unfold insertedEvents
  split <;> rfl

/-- A call appends the rows of the events it records, and a purge records none. -/
theorem grows_or_records_none (db : Database) (op : StoreOp)
    (ht : ∀ e ∈ op.events, e.occurredAt.isZero = false) :
    Grows db (op.apply db) (insertedEvents db (op.apply db) op.events) ∨
      insertedEvents db (op.apply db) op.events = [] := by
  cases op with
  | recordClick io event increment maxClicks =>
    exact Or.inl (grows_recordClick io db increment maxClicks
      (ht { event with increment := increment } (List.mem_singleton_self _)))
  | recordClicks io events => exact Or.inl (grows_recordClicks io db ht)
  | createLink => exact Or.inr (insertedEvents_nil _ _)
  | updateLink => exact Or.inr (insertedEvents_nil _ _)
  | deleteLink => exact Or.inr (insertedEvents_nil _ _)
  | purgeOldClicks => exact Or.inr (insertedEvents_nil _ _)

/-- A row that is there keeps another one with its id out. -/
theorem not_recorded_of_stored {before after : Database} {events : List ClickEvent} {u : ℕ}
    (h : Grows before after events) (hs : Stored before u) :
    (events.countP fun e => eventUuid e = some u) = 0 := by
  obtain ⟨row, hrow, hu⟩ := hs
  rw [List.countP_eq_zero]
  intro e he huuid
  have huuid : eventUuid e = some u := of_decide_eq_true huuid
  have hmem : clickRow e e.occurredAt ∈ after.clicks.rows.map some := by
    rw [h]
    exact List.mem_append_right _ (List.mem_map_of_mem he)
  obtain ⟨added, -, heq⟩ := List.mem_map.mp hmem
  have hadded : added.eventId = some u := by
    rw [← eventUuid_of_clickRow heq.symm]
    exact huuid
  have hold : 1 ≤ before.clicks.rows.countP fun row => row.eventId = some u :=
    List.countP_pos_iff.mpr ⟨row, hrow, by simp [hu]⟩
  have hnew : 1 ≤ (events.map fun e => clickRow e e.occurredAt).countP
      (fun r => r.any fun row => row.eventId = some u) :=
    List.countP_pos_iff.mpr ⟨some added, heq ▸ List.mem_map_of_mem he, by simp [hadded]⟩
  have htotal : (after.clicks.rows.map some).countP (fun r => r.any fun row => row.eventId = some u)
      = (before.clicks.rows.countP fun row => row.eventId = some u) +
        (events.map fun e => clickRow e e.occurredAt).countP
          (fun r => r.any fun row => row.eventId = some u) := by
    rw [h, List.countP_append, List.countP_map]
    rfl
  have hone := rows_of_uuid_le_one after u
  rw [List.countP_map] at htotal
  have hafter : (after.clicks.rows.countP ((fun r : Option ClickRow =>
      r.any fun row => row.eventId = some u) ∘ some)) =
        after.clicks.rows.countP fun row => row.eventId = some u := rfl
  omega

/-- What one call records, it records for ids that were not recorded before. -/
theorem once_next {s t : Ledger} {op : StoreOp} (hkept : remembered s op = true)
    (h : next s op = some t) {u : ℕ}
    (hs : (s.inserted.countP fun e => eventUuid e = some u) ≤ 1) :
    (t.inserted.countP fun e => eventUuid e = some u) ≤ 1 := by
  unfold next at h
  split at h
  · rename_i htimed
    cases h
    have ht : ∀ e ∈ op.events, e.occurredAt.isZero = false := by simpa using htimed
    rw [List.countP_append]
    rcases grows_or_records_none s.db op ht with hgrows | hnone
    · by_cases hold : (s.inserted.countP fun e => eventUuid e = some u) = 0
      · rw [hold, Nat.zero_add]
        exact hgrows.once u
      · by_cases hnew : ∃ e ∈ insertedEvents s.db (op.apply s.db) op.events, eventUuid e = some u
        · obtain ⟨e, he, hu⟩ := hnew
          have hseen : (s.inserted.any fun f => eventUuid f = some u) = true := by
            obtain ⟨f, hf, hfu⟩ := List.countP_pos_iff.mp (Nat.pos_of_ne_zero hold)
            exact List.any_eq_true.mpr ⟨f, hf, hfu⟩
          have hstored : Stored s.db u := by
            have hall := List.all_eq_true.mp hkept e (mem_insertedEvents he)
            rw [hu] at hall
            simp only [hseen, Bool.not_true, Bool.false_or, List.any_eq_true,
              decide_eq_true_eq] at hall
            exact hall
          rw [not_recorded_of_stored hgrows hstored]
          exact hs
        · have hzero : (insertedEvents s.db (op.apply s.db) op.events).countP
              (fun e => eventUuid e = some u) = 0 := by
            rw [List.countP_eq_zero]
            intro e he hu
            exact hnew ⟨e, he, of_decide_eq_true hu⟩
          rw [hzero]
          exact hs
    · rw [hnone]
      exact hs
  · cases h

/-- In a run that brings no event back after its row was purged, every event id counts at most
once. -/
theorem counted_once_while_remembered {db : Database} {ops : List StoreOp} {t : Ledger}
    (h : Execution next ⟨db, []⟩ ops t)
    (hkept : ∀ before op later s, ops = before ++ op :: later →
      Execution next ⟨db, []⟩ before s → remembered s op = true) : CountedOnce db t := by
  have honce : ∀ u, (t.inserted.countP fun e => eventUuid e = some u) ≤ 1 := by
    intro u
    refine h.invariant_of (I := fun s => (s.inserted.countP fun e => eventUuid e = some u) ≤ 1)
      (P := fun s op => remembered s op = true) ?_ ?_ hkept
    · simp
    · intro s op v hs hop hstep
      exact once_next hop hstep hs
  refine ⟨accounted_execution h, fun u => ?_, honce⟩
  refine Nat.le_trans ?_ (honce u)
  refine List.countP_mono_left fun e _ he => ?_
  exact (Bool.and_eq_true_iff.mp he).1

def click : ClickEvent := sampleClick (lit "aaaaaaaa-0000-4000-8000-000000000001")

/-- The clock 91 days after the click. -/
def later : Time := ⟨click.occurredAt.nanos + 91 * GoTime.day⟩

/-- The only row goes once it is old enough. -/
theorem purgeOldClicks_single {db : Database} {row : ClickRow} {now : Time}
    (hrows : db.clicks.rows = [row]) (hold : row.createdAt.nanos < now.nanos - 90 * GoTime.day) :
    (purgeOldClicks { now := fun _ => now } db).2 = { db with clicks := .empty } := by
  have hvictims : purgeable now db.clicks.rows = [(row, 0)] := by
    simp [purgeable, hrows, hold]
  have hkept : ((db.clicks.rows.zipIdx.filter
      (· ∉ (purgeable now db.clicks.rows).take 10000)).map Prod.fst) = [] := by
    rw [hvictims, hrows]
    simp
  unfold purgeOldClicks
  simp only [commitTx, Database.mk.injEq, true_and, and_true]
  exact Table.ext hkept

/-- A click, its purge, and a copy of it from the dead-letter queue. -/
def lateReplay : List StoreOp :=
  [.recordClicks {} [click], .purgeOldClicks { now := fun _ => later }, .recordClicks {} [click]]

theorem late_replay_counts_twice :
    ∃ t, Execution next ⟨Database.single sampleLink, []⟩ lateReplay t ∧
      clicksOf t.db 1 = some 2 ∧ ¬ CountedOnce (Database.single sampleLink) t := by
  obtain ⟨s, hs, hsummary⟩ := Option.map_eq_some_iff.mp (show
    (next ⟨Database.single sampleLink, []⟩ (.recordClicks {} [click])).map (fun s =>
      (s.db.clicks.rows.map ClickRow.createdAt, s.inserted,
        (next ⟨{ s.db with clicks := .empty }, s.inserted⟩ (.recordClicks {} [click])).map fun t =>
          (clicksOf t.db 1, t.inserted))) =
      some ([click.occurredAt], [click], some (some 2, [click, click])) by decide)
  simp only [Prod.mk.injEq] at hsummary
  obtain ⟨hrows, hinserted, hlast⟩ := hsummary
  obtain ⟨row, hrow, htime⟩ := List.map_eq_singleton_iff.mp hrows
  obtain ⟨t, ht, hfinal⟩ := Option.map_eq_some_iff.mp hlast
  obtain ⟨hclicks, htwice⟩ := Prod.mk.inj hfinal
  have hpurge : next s (.purgeOldClicks { now := fun _ => later }) =
      some ⟨{ s.db with clicks := .empty }, s.inserted⟩ := by
    have hdb := @purgeOldClicks_single s.db row later hrow (by rw [htime]; decide)
    simp only [next, StoreOp.events, StoreOp.apply, List.all_nil, if_true, hdb,
      insertedEvents_nil, List.append_nil]
  have hrun : replay next ⟨Database.single sampleLink, []⟩ lateReplay = some t := by
    rw [lateReplay, replay, hs, Option.bind_some, replay, hpurge, Option.bind_some, replay, ht]
    rfl
  refine ⟨t, execution_of_replay hrun, hclicks, fun h => ?_⟩
  have honce := h.rollups 226854911227807169540085122252964626433
  rw [htwice] at honce
  revert honce
  decide

/-- The copy comes back while the row is still there. -/
def promptReplay : List StoreOp :=
  [.recordClicks {} [click], .purgeOldClicks { now := fun _ => click.occurredAt },
    .recordClicks {} [click]]

theorem counted_once_while_remembered_prompt :
    ∃ t, Execution next ⟨Database.single sampleLink, []⟩ promptReplay t ∧
      CountedOnce (Database.single sampleLink) t := by
  have hreplay : (replay next ⟨Database.single sampleLink, []⟩ promptReplay).isSome := by
    decide
  have hchecks : checks next remembered ⟨Database.single sampleLink, []⟩ promptReplay = true := by
    decide +kernel
  obtain ⟨t, ht⟩ := Option.isSome_iff_exists.mp hreplay
  refine ⟨t, execution_of_replay ht, counted_once_while_remembered (execution_of_replay ht) ?_⟩
  intro before op rest s heq hs
  exact checked_label (heq ▸ hchecks) hs

end ClickRetention
