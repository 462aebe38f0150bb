import ShortQ.ClickBatch
import ShortQ.LabelledRuns
import ShortQ.LinkStore

/-! # Counters and rollups against the history of inserted events -/
namespace ClickLedger

open GoText (Str)
open LabelledRuns
open Models
open RowTable
open Schema
open Transaction
open ClickStore
open ClickBatch
open LinkStore

/-- The store calls a history is made of, each with what its connection does. -/
inductive StoreOp where
  | createLink (io after : Script) (random : Str) (u : User) (link : Link) (passwordHash : Str)
  | updateLink (io after : Script) (u : User) (id : ℤ) (link : Link) (passwordHash : Str)
      (passwordChanged : Bool)
  | deleteLink (io : Script) (u : User) (id : ℤ)
  | recordClick (io : Script) (event : ClickEvent) (increment : Bool) (maxClicks : Option ℤ)
  | recordClicks (io : Script) (events : List ClickEvent)
  | purgeOldClicks (io : Script)

def StoreOp.apply (db : Database) : StoreOp → Database
  | .createLink io after random u link hash =>
    (LinkStore.createLink io after db random u link hash).2
  | .updateLink io after u id link hash changed =>
    (LinkStore.updateLink io after db u id link hash changed).2
  | .deleteLink io u id => (LinkStore.deleteLink io db u id).2
  | .recordClick io event increment maxClicks =>
    (ClickStore.recordClick io db event increment maxClicks).2
  | .recordClicks io events => (ClickStore.recordClicks io db events).2
  | .purgeOldClicks io => (ClickStore.purgeOldClicks io db).2

/-- The events a call may insert, with the flag they are recorded under. -/
def StoreOp.events : StoreOp → List ClickEvent
  | .recordClick _ event increment _ => [{ event with increment := increment }]
  | .recordClicks _ events => events
  | _ => []

/-- The events whose rows `ON CONFLICT DO NOTHING` lets in, in order. -/
def newEvents (clicks : Table ClickRow clickClash) : List ClickEvent → List ClickEvent
  | [] => []
  | event :: events =>
    match (clickRow event event.occurredAt).bind clicks.insert with
    | some clicks => event :: newEvents clicks events
    | none => newEvents clicks events

/-- The events a call did insert: none when its transaction left no new row. -/
def insertedEvents (before after : Database) (events : List ClickEvent) : List ClickEvent :=
  if before.clicks.rows.length < after.clicks.rows.length then newEvents before.clicks events
  else []

/-- The store with the history of the events ever inserted. -/
structure Ledger where
  db : Database
  inserted : List ClickEvent

def next (s : Ledger) (op : StoreOp) : Option Ledger :=
  if op.events.all fun e => !e.occurredAt.isZero then
    some ⟨op.apply s.db, s.inserted ++ insertedEvents s.db (op.apply s.db) op.events⟩
  else none

def clicksOf (db : Database) (id : ℤ) : Option ℤ := (db.link id).map LinkRow.clicks

def countsFor (id : ℤ) (e : ClickEvent) : Bool := e.linkId = id && e.increment

def keyedBy (key : RollupKey) (e : ClickEvent) : Bool :=
  rollupKey e e.occurredAt = some key

/-- The counters moved by exactly the given events. -/
structure Accounted (before after : Database) (events : List ClickEvent) : Prop where
  kept : ∀ id, (clicksOf before id).isSome → (clicksOf after id).isSome
  present : ∀ e ∈ events, (clicksOf after e.linkId).isSome
  clicks : ∀ id c, clicksOf after id = some c →
    c = (clicksOf before id).getD 0 + events.countP (countsFor id)
  rollup : ∀ key, after.rollup key = before.rollup key + events.countP (keyedBy key)
  keyed : ∀ e ∈ events, ∃ key, rollupKey e e.occurredAt = some key ∧
    key.day = e.occurredAt.utcDay

theorem Accounted.nil {before after : Database} (hr : after.rollups = before.rollups)
    (hc : ∀ id, clicksOf after id = clicksOf before id ∨
      (clicksOf before id = none ∧ clicksOf after id = some 0)) : Accounted before after [] where
  kept id h := by
    rcases hc id with heq | ⟨-, hsome⟩
    · rw [heq]
      exact h
    · simp [hsome]
  present := by simp
  clicks id c h := by
    rcases hc id with heq | ⟨hnone, hzero⟩
    · rw [← heq, h]
      simp
    · rw [hzero] at h
      simp [hnone, ← Option.some.inj h]
  rollup key := by simp [Database.rollup, hr]
  keyed := by simp

theorem Accounted.refl (db : Database) : Accounted db db [] :=
  .nil rfl fun _ => Or.inl rfl

theorem countP_eq_zero_of_absent {db : Database} {events : List ClickEvent} {id : ℤ}
    (present : ∀ e ∈ events, (clicksOf db e.linkId).isSome) (hnone : clicksOf db id = none) :
    events.countP (countsFor id) = 0 := by
  rw [List.countP_eq_zero]
  intro e he hcount
  have hid : e.linkId = id := by
    simp only [countsFor, Bool.and_eq_true, decide_eq_true_eq] at hcount
    exact hcount.1
  have hsome := present e he
  rw [hid, hnone] at hsome
  cases hsome

theorem Accounted.trans {a b c : Database} {es fs : List ClickEvent} (h : Accounted a b es)
    (k : Accounted b c fs) : Accounted a c (es ++ fs) where
  kept id ha := k.kept id (h.kept id ha)
  present e he := by
    rcases List.mem_append.mp he with hes | hfs
    · exact k.kept _ (h.present e hes)
    · exact k.present e hfs
  clicks id n hn := by
    have hc := k.clicks id n hn
    rw [List.countP_append]
    cases hb : clicksOf b id with
    | some m =>
      have hm := h.clicks id m hb
      rw [hb, Option.getD_some] at hc
      push_cast
      omega
    | none =>
      -- a link that appears in the second part has counted nothing in the first
      have hes := countP_eq_zero_of_absent h.present hb
      have ha : clicksOf a id = none := by
        by_contra hne
        have hsome := h.kept id (Option.isSome_iff_ne_none.mpr hne)
        rw [hb] at hsome
        cases hsome
      rw [hb] at hc
      rw [ha, hes, hc]
      simp
  rollup key := by
    have h₁ := h.rollup key
    have h₂ := k.rollup key
    rw [List.countP_append]
    push_cast
    omega
  keyed e he := by
    rcases List.mem_append.mp he with hes | hfs
    · exact h.keyed e hes
    · exact k.keyed e hfs

section Recording

variable {io : Script} {db tx tx' : Database} {event : ClickEvent} {events : List ClickEvent}
  {n : ℕ}

theorem clicksOf_recorded {clicks : Table ClickRow clickClash} {inc : Bool}
    {p : LinkRow → Bool} {key : RollupKey} (id : ℤ) :
    clicksOf (recorded db clicks inc p key) id =
      (db.link id).map fun r => r.clicks + if inc && p r then 1 else 0 := by
  rw [clicksOf, link_recorded, Option.map_map]
  refine congrArg (Option.map · (db.link id)) (funext fun r => ?_)
  rw [Function.comp_apply]
  cases inc && p r with
  | false => exact (Int.add_zero _).symm
  | true => rfl

theorem rollup_recorded {clicks : Table ClickRow clickClash} {inc : Bool}
    {p : LinkRow → Bool} {key : RollupKey} (k : RollupKey) :
    (recorded db clicks inc p key).rollup k = db.rollup k + if k = key then 1 else 0 := by
  unfold recorded
  rw [rollup_bumpRollup]
  cases inc <;> rfl

theorem day_of_rollupKey {key : RollupKey} (h : rollupKey event event.occurredAt = some key) :
    key.day = event.occurredAt.utcDay := by
  simp only [rollupKey, Option.bind_eq_bind, Option.bind_eq_some_iff, Option.some.injEq] at h
  obtain ⟨stamp, hstamp, _, -, _, -, _, -, _, -, _, -, _, -, _, -, hkey⟩ := h
  rw [← hkey]
  exact utcDay_timestamptz hstamp

/-- One newly stored event, when the counter statement reaches the event's own link. -/
theorem accounted_recorded {clicks : Table ClickRow clickClash} {row : ClickRow}
    {p : LinkRow → Bool} (hrow : clickRow event event.occurredAt = some row)
    (hl : (db.link event.linkId).isSome) (hp : ∀ r, p r = true → r.id = event.linkId)
    (ha : event.increment = true → (db.link event.linkId).any p) :
    Accounted db (recorded db clicks event.increment p row.rollupKey) [event] where
  kept id h := by
    rw [clicksOf_recorded, Option.isSome_map]
    simpa [clicksOf] using h
  present e he := by
    obtain rfl := List.mem_singleton.mp he
    rw [clicksOf_recorded, Option.isSome_map]
    exact hl
  clicks id c hc := by
    rw [clicksOf_recorded] at hc
    obtain ⟨r, hr, rfl⟩ := Option.map_eq_some_iff.mp hc
    have hrid : r.id = id := by simpa using List.find?_some hr
    have hiff : (event.increment && p r) = countsFor id event := by
      by_cases hid : event.linkId = id
      · cases hinc : event.increment with
        | false => simp [countsFor, hinc]
        | true =>
          have hany := ha hinc
          rw [hid, hr] at hany
          simpa [countsFor, hid, hinc] using hany
      · have hpr : p r = false := by
          by_contra hne
          exact hid ((hp r (by simpa using hne)).symm.trans hrid)
        simp [countsFor, hid, hpr]
    rw [clicksOf, hr, hiff, List.countP_singleton]
    by_cases hcount : countsFor id event = true <;> simp [hcount]
  rollup k := by
    have hkey := rollupKey_of_clickRow hrow
    rw [rollup_recorded]
    by_cases hk : k = row.rollupKey
    · simp [keyedBy, hkey, hk]
    · have hne : row.rollupKey ≠ k := Ne.symm hk
      simp [keyedBy, hkey, hk, hne]
  keyed e he := by
    obtain rfl := List.mem_singleton.mp he
    exact ⟨row.rollupKey, rollupKey_of_clickRow hrow, day_of_rollupKey (rollupKey_of_clickRow hrow)⟩

theorem clicks_recorded {clicks : Table ClickRow clickClash} {inc : Bool}
    {p : LinkRow → Bool} {key : RollupKey} :
    (recorded db clicks inc p key).clicks = clicks := by
  unfold recorded
  cases inc <;> rfl

/-- One turn of the batch loop accounts for the event it let in. -/
theorem accounted_recordNext {isNew : Bool} (ht : event.occurredAt.isZero = false)
    (h : recordNext io n tx event = .ok (isNew, tx')) (events : List ClickEvent) :
    Accounted tx tx' (newEvents tx.clicks [event]) ∧
      newEvents tx.clicks (event :: events) =
        newEvents tx.clicks [event] ++ newEvents tx'.clicks events := by
  obtain ⟨row, hrow, ⟨-, rfl, hi⟩ | ⟨-, hl, hu, clicks, hi, rfl⟩⟩ := recordNext_cases ht h
  · simp only [newEvents, hrow, Option.bind_some, hi, List.nil_append]
    exact ⟨.refl _, trivial⟩
  · simp only [newEvents, hrow, Option.bind_some, hi, List.cons_append, List.nil_append,
      clicks_recorded]
    refine ⟨accounted_recorded hrow hl ?_ ?_, trivial⟩
    · intro r hr
      simp only [unlimited, Bool.and_eq_true, decide_eq_true_eq] at hr
      exact hr.1
    · intro hinc
      obtain ⟨r, hr, hd, hm⟩ := hu hinc
      have hid : r.id = event.linkId := by simpa using List.find?_some hr
      rw [hr]
      simp [unlimited, hid, hd, hm]

theorem accounted_recordBatch (ht : ∀ e ∈ events, e.occurredAt.isZero = false)
    {inserted total : ℕ} (h : recordBatch io n inserted tx events = .ok (total, tx')) :
    Accounted tx tx' (newEvents tx.clicks events) := by
  induction events generalizing n inserted tx with
  | nil =>
    cases h
    exact .refl _
  | cons event events ih =>
    unfold recordBatch at h
    split at h
    · cases h
    · rename_i isNew tx₁ hnext
      have hone := accounted_recordNext (ht event List.mem_cons_self) hnext events
      rw [hone.2]
      exact hone.1.trans (ih (fun e he => ht e (List.mem_cons_of_mem _ he)) h)

/-- The rows a committed batch appends are those of its new events. -/
theorem rows_recordBatch (ht : ∀ e ∈ events, e.occurredAt.isZero = false)
    {inserted total : ℕ} (h : recordBatch io n inserted tx events = .ok (total, tx')) :
    tx'.clicks.rows.map some = tx.clicks.rows.map some ++
      (newEvents tx.clicks events).map fun e => clickRow e e.occurredAt := by
  induction events generalizing n inserted tx with
  | nil =>
    cases h
    simp [newEvents]
  | cons event events ih =>
    unfold recordBatch at h
    split at h
    · cases h
    · rename_i isNew tx₁ hnext
      have hte := ht event List.mem_cons_self
      have hrest := ih (fun e he => ht e (List.mem_cons_of_mem _ he)) h
      rw [hrest, (accounted_recordNext hte hnext events).2, List.map_append, ← List.append_assoc]
      refine congrArg (· ++ _) ?_
      obtain ⟨row, hrow, ⟨-, rfl, hi⟩ | ⟨-, -, -, clicks, hi, rfl⟩⟩ := recordNext_cases hte hnext
      · simp [newEvents, hrow, hi]
      · simp [newEvents, hrow, hi, rows_recorded hi]

theorem insertedEvents_self (db : Database) (events : List ClickEvent) :
    insertedEvents db db events = [] := by simp [insertedEvents]

theorem insertedEvents_of_rows (h : tx'.clicks.rows.map some = tx.clicks.rows.map some ++
      (newEvents tx.clicks events).map fun e => clickRow e e.occurredAt) :
    insertedEvents tx tx' events = newEvents tx.clicks events := by
  have hlength := congrArg List.length h
  simp only [List.length_map, List.length_append] at hlength
  unfold insertedEvents
  split
  · rfl
  · have hzero : (newEvents tx.clicks events).length = 0 := by omega
    exact (List.length_eq_zero_iff.mp hzero).symm

theorem accounted_recordClicks (io : Script) (db : Database)
    (ht : ∀ e ∈ events, e.occurredAt.isZero = false) :
    Accounted db (recordClicks io db events).2
      (insertedEvents db (recordClicks io db events).2 events) := by
  have hcases := recordClicks_cases io db events
  generalize (recordClicks io db events).1.1 = total at hcases
  generalize (recordClicks io db events).1.2 = err at hcases
  generalize (recordClicks io db events).2 = after at hcases ⊢
  cases hcases with
  | refused =>
    rw [insertedEvents_self]
    exact .refl db
  | committed hb =>
    rw [insertedEvents_of_rows (rows_recordBatch ht hb)]
    exact accounted_recordBatch ht hb
  | uncertain hb hd =>
    rcases hd with rfl | rfl
    · rw [insertedEvents_of_rows (rows_recordBatch ht hb)]
      exact accounted_recordBatch ht hb
    · rw [insertedEvents_self]
      exact .refl _

theorem accounted_recordClick (io : Script) (db : Database) (increment : Bool)
    (maxClicks : Option ℤ) (ht : event.occurredAt.isZero = false) :
    Accounted db (recordClick io db event increment maxClicks).2
      (insertedEvents db (recordClick io db event increment maxClicks).2
        [{ event with increment := increment }]) := by
  have hcases := recordClick_cases io db increment maxClicks ht
  generalize (recordClick io db event increment maxClicks).1.1 = ok at hcases
  generalize (recordClick io db event increment maxClicks).1.2 = err at hcases
  generalize (recordClick io db event increment maxClicks).2 = after at hcases ⊢
  cases hcases with
  | refused =>
    rw [insertedEvents_self]
    exact .refl db
  | duplicate =>
    rw [insertedEvents_self]
    exact .refl db
  | @counted row clicks _ _ hrow hi hl ha hd =>
    rcases hd with rfl | rfl
    · have hrow' : clickRow { event with increment := increment } event.occurredAt = some row :=
        hrow
      have hnew : newEvents db.clicks [{ event with increment := increment }] =
          [{ event with increment := increment }] := by
        simp [newEvents, hrow', hi]
      have hp : ∀ r, underLimit event.linkId maxClicks r = true → r.id = event.linkId := by
        intro r hr
        simp only [underLimit, Bool.and_eq_true, decide_eq_true_eq] at hr
        exact hr.1
      have hreach : increment = true →
          (db.link event.linkId).any (underLimit event.linkId maxClicks) = true := by
        intro hinc
        obtain ⟨r, hr, hd, hm⟩ := affected_underLimit_pos.mp (ha hinc)
        have hid : r.id = event.linkId := by simpa using List.find?_some hr
        rw [hr]
        cases maxClicks with
        | none => simp [underLimit, hid, hd]
        | some m => simp [underLimit, hid, hd, hm m rfl]
      rw [insertedEvents_of_rows (by rw [hnew]; simp [rows_recorded hi, hrow']), hnew]
      exact accounted_recorded hrow' hl hp hreach
    · rw [insertedEvents_self]
      exact .refl _

end Recording

section Settings

theorem clicksOf_insert {db db' : Database} {row : LinkRow} (hzero : row.clicks = 0)
    (hi : db.links.insert row = some db'.links) (id : ℤ) :
    clicksOf db' id = clicksOf db id ∨ (clicksOf db id = none ∧ clicksOf db' id = some 0) := by
  have hfind : db'.link id = (db.link id).or (if decide (row.id = id) then some row else none) :=
    Table.find_of_insert hi
  cases hl : db.link id with
  | some r =>
    left
    simp [clicksOf, hfind, hl]
  | none =>
    by_cases hid : row.id = id
    · right
      simp [clicksOf, hfind, hl, hid, hzero]
    · left
      simp [clicksOf, hfind, hl, hid]

theorem accounted_createLink (io after : Script) (db : Database) (random : Str) (u : User)
    (link : Link) (hash : Str) :
    Accounted db (createLink io after db random u link hash).2 [] := by
  have hsnd : (createLink io after db random u link hash).2 =
      (createLinkWrite io db random u link hash).2 := by
    unfold createLink
    split <;> simp [*]
  rw [hsnd]
  unfold createLinkWrite
  dsimp only
  split
  · exact .refl db
  split
  · exact .refl db
  · have hstate := inTx_state io { db with nextLinkId := db.nextLinkId + 1 }
      (createLinkTx io { db with nextLinkId := db.nextLinkId + 1 } db.nextLinkId u
        (createLinkInput random link hash) hash)
    rcases hstate with heq | ⟨tx, hbody, heq⟩
    · rw [heq]
      exact .nil rfl fun _ => Or.inl rfl
    · obtain ⟨⟨row, hzero, hi⟩, -, hr⟩ := createLinkTx_links hbody
      rw [heq]
      exact .nil hr fun id => clicksOf_insert hzero hi id

/-- Assigning settings changes no counter. -/
theorem clicksOf_assignWhere (db : Database) (p : LinkRow → Bool) (c : LinkColumns)
    (password : Option Str) (updatedAt : Option GoTime.Time) (id : ℤ) :
    clicksOf (assignWhere db p c password updatedAt) id = clicksOf db id := by
  rw [clicksOf, link_assignWhere, Option.map_map]
  refine congrArg (Option.map · (db.link id)) (funext fun r => ?_)
  rw [Function.comp_apply]
  cases p r <;> rfl

theorem clicksOf_congr {db db' : Database} (h : db'.links = db.links) (id : ℤ) :
    clicksOf db' id = clicksOf db id := by
  rw [clicksOf, clicksOf, Database.link, Database.link, h]

theorem accounted_updateLink (io after : Script) (db : Database) (u : User) (id : ℤ)
    (link : Link) (hash : Str) (changed : Bool) :
    Accounted db (updateLink io after db u id link hash changed).2 [] := by
  have hsnd : (updateLink io after db u id link hash changed).2 =
      (updateLinkWrite io db u id link hash changed).2 := by
    unfold updateLink
    split <;> simp [*]
  rw [hsnd]
  unfold updateLinkWrite
  dsimp only
  split
  · exact .refl db
  · have hstate := inTx_state io db (updateLinkTx io db u id (updateLinkInput link hash changed)
      (if changed then some hash else none))
    rcases hstate with heq | ⟨tx, hbody, heq⟩
    · rw [heq]
      exact .refl db
    · obtain ⟨scope, columns, -, -, -, hl, -, hr⟩ := updateLinkTx_links hbody
      rw [heq]
      refine .nil hr fun k => Or.inl ?_
      exact (clicksOf_congr hl k).trans (clicksOf_assignWhere db _ _ _ _ k)

theorem accounted_deleteLink (io : Script) (db : Database) (u : User) (id : ℤ) :
    Accounted db (deleteLink io db u id).2 [] := by
  rcases deleteLink_state io db u id with heq | ⟨p, now, heq⟩
  · rw [heq]
    exact .refl db
  · rw [heq]
    refine .nil rfl fun k => Or.inl ?_
    rw [clicksOf, Database.link, deleteWhere,
      Table.find_update (keeps_markDeleted now) fun _ => rfl, Option.map_map]
    refine congrArg (Option.map · (db.link k)) (funext fun r => ?_)
    rw [Function.comp_apply]
    cases p r <;> rfl

theorem purgeOldClicks_frame (io : Script) (db : Database) :
    (purgeOldClicks io db).2.links = db.links ∧ (purgeOldClicks io db).2.rollups = db.rollups := by
  unfold purgeOldClicks
  split
  · exact ⟨rfl, rfl⟩
  · dsimp only
    rcases commitTx_state io db _ with h | h <;> rw [h] <;> exact ⟨rfl, rfl⟩

end Settings

theorem accounted_apply (db : Database) (op : StoreOp)
    (ht : ∀ e ∈ op.events, e.occurredAt.isZero = false) :
    Accounted db (op.apply db) (insertedEvents db (op.apply db) op.events) := by
  have hnone : ∀ after, Accounted db after [] →
      Accounted db after (insertedEvents db after []) := by
    intro after hacc
    have hempty : insertedEvents db after [] = [] := by
      unfold insertedEvents
      split <;> rfl
    rw [hempty]
    exact hacc
  cases op with
  | createLink io after random u link hash =>
    exact hnone _ (accounted_createLink io after db random u link hash)
  | updateLink io after u id link hash changed =>
    exact hnone _ (accounted_updateLink io after db u id link hash changed)
  | deleteLink io u id => exact hnone _ (accounted_deleteLink io db u id)
  | recordClick io event increment maxClicks =>
    exact accounted_recordClick io db increment maxClicks
      (ht { event with increment := increment } (List.mem_singleton_self _))
  | recordClicks io events => exact accounted_recordClicks io db ht
  | purgeOldClicks io =>
    obtain ⟨hl, hr⟩ := purgeOldClicks_frame io db
    exact hnone _ (.nil hr fun id => Or.inl (clicksOf_congr hl id))

theorem accounted_execution {db : Database} {ops : List StoreOp} {t : Ledger}
    (h : Execution next ⟨db, []⟩ ops t) : Accounted db t.db t.inserted := by
  refine h.invariant (I := fun s => Accounted db s.db s.inserted) (.refl db) ?_
  intro s op v hs hstep
  unfold next at hstep
  split at hstep
  · rename_i htimed
    cases hstep
    have ht : ∀ e ∈ op.events, e.occurredAt.isZero = false := by simpa using htimed
    exact hs.trans (accounted_apply s.db op ht)
  · cases hstep

/-- After any history of store calls, each link's counter is its initial value plus its
inserted incrementing events, each rollup counter its initial value plus the inserted events
of its key, and a purge moves neither. -/
theorem counters_aggregate_inserted_events {db : Database} {ops : List StoreOp} {t : Ledger}
    (h : Execution next ⟨db, []⟩ ops t) :
    (∀ id row, t.db.link id = some row →
      row.clicks = ((db.link id).map LinkRow.clicks).getD 0 +
        t.inserted.countP fun e => e.linkId = id && e.increment) ∧
    (∀ key, t.db.rollup key = db.rollup key +
      t.inserted.countP fun e => rollupKey e e.occurredAt = some key) ∧
    (∀ e ∈ t.inserted, ∃ key, rollupKey e e.occurredAt = some key ∧
      key.day = e.occurredAt.utcDay) ∧
    ∀ io, (purgeOldClicks io t.db).2.links = t.db.links ∧
      (purgeOldClicks io t.db).2.rollups = t.db.rollups := by
  have hacc := accounted_execution h
  refine ⟨fun id row hrow => ?_, hacc.rollup, hacc.keyed, fun io => purgeOldClicks_frame io t.db⟩
  exact hacc.clicks id row.clicks (by rw [clicksOf, hrow]; rfl)

/-- A direct click, a batch that repeats it, and a purge. -/
def mixedHistory : List StoreOp :=
  let first := sampleClick (GoText.lit "aaaaaaaa-0000-4000-8000-000000000001")
  let second := sampleClick (GoText.lit "aaaaaaaa-0000-4000-8000-000000000002")
  [.recordClick {} first true none, .recordClicks {} [first, second, second], .purgeOldClicks {}]

theorem counters_aggregate_inserted_events_mixed :
    ∃ t, Execution next ⟨Database.single sampleLink, []⟩ mixedHistory t ∧
      t.inserted.length = 2 ∧ ∀ row, t.db.link 1 = some row → row.clicks = 2 := by
  have hfigures : (replay next ⟨Database.single sampleLink, []⟩ mixedHistory).map (fun t =>
      (t.inserted.length, t.inserted.countP fun e => e.linkId = 1 && e.increment)) =
        some (2, 2) := by decide +kernel
  obtain ⟨t, ht, heq⟩ := Option.map_eq_some_iff.mp hfigures
  have hrun := execution_of_replay ht
  obtain ⟨hlength, hcount⟩ := Prod.mk.inj heq
  refine ⟨t, hrun, hlength, fun row hrow => ?_⟩
  have hclicks := (counters_aggregate_inserted_events hrun).1 1 row hrow
  rw [hcount] at hclicks
  exact hclicks

end ClickLedger
