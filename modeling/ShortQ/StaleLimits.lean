import ShortQ.ClickBatch
import ShortQ.LabelledRuns
import ShortQ.LinkWrites
import ShortQ.RedirectCache
import ShortQ.RedirectHandler

/-! # The click limit under concurrent edits

A request records its click under the limit it read when it loaded the link, and an edit may
have set or lowered the limit since. -/
namespace StaleLimits

open GoText (Str lit)
open LabelledRuns
open Models
open RowTable
open Schema
open Transaction
open ClickStore
open ClickBatch
open LinkStore
open LinkCalls
open LinkWrites
open RedirectCache
open RedirectHandler

/-- `loaded` holds what the requests that are still to record have read, `cached` every link
the cache may have an entry of, and `queue` every event that was published. -/
structure System where
  db : Database
  loaded : List Link
  cached : List Link
  queue : List ClickEvent

inductive Event where
  | load (io : Script) (slug : Str)
  /-- The cache answers with what it keeps of a link. -/
  | hit (link : Link)
  /-- A request ends without recording. -/
  | leave (link : Link)
  | record (link : Link) (published : Option Bool) (io : Script) (event : ClickEvent)
      (increment : Bool)
  | recordClicks (io : Script) (events : List ClickEvent)
  | write (io : Script) (u : User) (c : Call)

def next (s : System) : Event → Option System
  | .load io slug =>
    match linkBySlug io s.db slug with
    | .error _ => some s
    | .ok link => some { s with loaded := link :: s.loaded, cached := link :: s.cached }
  | .hit link =>
    if link ∈ s.cached then
      ((fromLink link).bind CachedRedirect.link).map fun copy =>
        { s with loaded := copy :: s.loaded }
    else none
  | .leave link =>
    if link ∈ s.loaded then some { s with loaded := s.loaded.erase link } else none
  | .record link published io event increment =>
    if link ∈ s.loaded ∧ event.linkId = link.id ∧ event.occurredAt.isZero = false then
      some
        { s with
          db := (record published io s.db event increment link.maxClicks).2
          loaded := s.loaded.erase link
          queue :=
            if published = some true ∧ link.maxClicks = none then
              { event with increment := increment } :: s.queue
            else s.queue }
    else none
  | .recordClicks io events =>
    if ∀ e ∈ events, e ∈ s.queue then
      some { s with db := (ClickStore.recordClicks io s.db events).2 }
    else none
  | .write io u c => some { s with db := (c.write io s.db u).2 }

def Event.records : Event → Bool
  | .record .. => true
  | .recordClicks .. => true
  | _ => false

/-- No counter moves that has reached the limit of its row. -/
def RespectsLimits (before after : Database) : Prop :=
  ∀ id row row', before.link id = some row → after.link id = some row' →
    row.clicks < row'.clicks → ∀ m, row.maxClicks = some m → row.clicks < m

/-- The limit in hand is at least as strict. -/
def within (held limit : Option ℤ) : Bool := limit.all fun m => held.any (· ≤ m)

/-- The limits an edit sets. -/
def limits : Call → List (ℤ × Option ℤ)
  | .updateLink id link _ _ => [(id, link.maxClicks)]
  | .updateLinksBulk updates => updates.map fun update => (update.id, update.link.maxClicks)
  | _ => []

/-- An edit sets no limit, and lowers none, of a link that a request is about to record on,
and no cache hit is older than such an edit. -/
def timely (s : System) : Event → Bool
  | .hit link => (s.db.link link.id).all fun row => within link.maxClicks row.maxClicks
  | .write _ _ c => (limits c).all fun (id, limit) =>
      s.loaded.all fun link => link.id ≠ id || within link.maxClicks limit
  | _ => true

theorem within_iff {held limit : Option ℤ} : within held limit = true ↔
    ∀ m, limit = some m → ∃ k, held = some k ∧ k ≤ m := by
  cases limit <;> cases held <;> simp [within]

/-! ## What the steps do to the limit of a row -/

theorem maxClicks_assignWhere {db : Database} {p : LinkRow → Bool} {c : LinkColumns}
    {password : Option Str} {updatedAt : Option GoTime.Time} {id : ℤ} {row : LinkRow}
    (h : db.link id = some row) : ∃ row',
      (assignWhere db p c password updatedAt).link id = some row' ∧
      (row'.maxClicks = row.maxClicks ∨ p row = true ∧ row'.maxClicks = c.maxClicks) := by
  rw [link_assignWhere, h, Option.map_some]
  by_cases hp : p row = true
  · exact ⟨_, rfl, Or.inr ⟨hp, by rw [if_pos hp]; rfl⟩⟩
  · exact ⟨_, rfl, Or.inl (by rw [if_neg hp])⟩

theorem maxClicks_updateEach {io : Script} {n : ℕ} {tx tx' : Database} {updates : List LinkUpdate}
    (h : updateEach io n tx updates = .ok tx') {id : ℤ} {row : LinkRow}
    (hrow : tx.link id = some row) : ∃ row', tx'.link id = some row' ∧
      (row'.maxClicks = row.maxClicks ∨
        (id, row'.maxClicks) ∈ limits (.updateLinksBulk updates)) := by
  induction updates generalizing n tx row with
  | nil =>
    cases h
    exact ⟨row, hrow, Or.inl rfl⟩
  | cons update rest ih =>
    unfold updateEach at h
    split at h
    · cases h
    · rename_i columns hcolumns
      dsimp only at h
      split at h
      · cases h
      · rename_i tx₁ hwrite
        have hassign := call_ok hwrite
        cases hassign
        split at h
        · cases h
        · rename_i tx₂ hgeo
          obtain ⟨row₁, hrow₁, hlimit₁⟩ := maxClicks_assignWhere hrow
          rw [← link_congr (replaceGeoTargets_frame hgeo).1] at hrow₁
          obtain ⟨row₂, hrow₂, hlimit₂⟩ := ih h hrow₁
          refine ⟨row₂, hrow₂, ?_⟩
          rcases hlimit₂ with hsame | hmem
          · rcases hlimit₁ with hsame₁ | ⟨hid, hnew⟩
            · exact Or.inl (hsame.trans hsame₁)
            · right
              rw [hsame, hnew, (linkColumns_iff.mp hcolumns).maxClicks, ← (mem_link hrow).2,
                of_decide_eq_true hid]
              exact List.mem_map.mpr ⟨update, List.mem_cons_self, rfl⟩
          · exact Or.inr (List.mem_cons_of_mem _ hmem)

theorem maxClicks_deleteWhere {db : Database} {p : LinkRow → Bool} {now : GoTime.Time} {id : ℤ}
    {row : LinkRow} (h : db.link id = some row) : ∃ row',
      (deleteWhere db p now).link id = some row' ∧ row'.maxClicks = row.maxClicks := by
  have hlink : (deleteWhere db p now).link id =
      (db.link id).map fun r => if p r then markDeleted now r else r :=
    Table.find_update (keeps_markDeleted now) fun _ => rfl
  rw [hlink, h, Option.map_some]
  refine ⟨_, rfl, ?_⟩
  split <;> rfl

theorem maxClicks_kept {before after : Database} (h : after.links = before.links) {id : ℤ}
    {row : LinkRow} (hrow : before.link id = some row) {limits : List (ℤ × Option ℤ)} :
    ∃ row', after.link id = some row' ∧
      (row'.maxClicks = row.maxClicks ∨ (id, row'.maxClicks) ∈ limits) :=
  ⟨row, by rw [link_congr h, hrow], Or.inl rfl⟩

/-- A call that names no link leaves the limits alone. -/
theorem maxClicks_creating {io : Script} {db : Database} {u : User} {c : Call}
    (hc : c.targets = []) {id : ℤ} {row : LinkRow} (hrow : db.link id = some row) :
    ∃ row', (c.write io db u).2.link id = some row' ∧
      (row'.maxClicks = row.maxClicks ∨ (id, row'.maxClicks) ∈ limits c) := by
  rcases (c.writes io db u).1 with hsame | hwrites
  · exact maxClicks_kept hsame.1 hrow
  · obtain ⟨hmem, rfl⟩ := mem_link hrow
    exact ⟨row, link_of_untouched (hwrites.frame row hmem (by simp [hc])), Or.inl rfl⟩

/-- A call keeps the limit of a row or sets one that it names. -/
theorem maxClicks_write (io : Script) (db : Database) (u : User) (c : Call) {id : ℤ}
    {row : LinkRow} (hrow : db.link id = some row) :
    ∃ row', (c.write io db u).2.link id = some row' ∧
      (row'.maxClicks = row.maxClicks ∨ (id, row'.maxClicks) ∈ limits c) := by
  cases c with
  | createLink random link hash => exact maxClicks_creating rfl hrow
  | createLinksBulk randoms links => exact maxClicks_creating rfl hrow
  | updateLink target link hash changed =>
    simp only [Call.write, updateLinkWrite]
    split
    · exact maxClicks_kept rfl hrow
    · rcases inTx_state io db (updateLinkTx io db u target (updateLinkInput link hash changed)
        (if changed then some hash else none)) with heq | ⟨tx, hbody, heq⟩
      · rw [heq]
        exact maxClicks_kept rfl hrow
      · rw [heq]
        obtain ⟨scope, columns, hscope, hcolumns, -, hlinks, -⟩ := updateLinkTx_links hbody
        obtain ⟨row', hrow', hlimit⟩ := @maxClicks_assignWhere db (liveInScope target scope)
          columns (if changed then some hash else none) none id row hrow
        refine ⟨row', by rw [link_congr hlinks, hrow'], hlimit.imp_right fun hnew => ?_⟩
        have hid := ((liveInScope_manage hscope).mp hnew.1).1
        rw [(mem_link hrow).2] at hid
        rw [hnew.2, (linkColumns_iff.mp hcolumns).maxClicks, hid]
        exact List.mem_singleton_self _
  | updateLinksBulk updates =>
    simp only [Call.write, updateLinksBulkWrite]
    split
    · exact maxClicks_kept rfl hrow
    split
    · exact maxClicks_kept rfl hrow
    · rcases inTx_state io db (updateLinksBulkTx io db u updates) with heq | ⟨tx, hbody, heq⟩
      · rw [heq]
        exact maxClicks_kept rfl hrow
      · rw [heq]
        unfold updateLinksBulkTx at hbody
        split at hbody
        · cases hbody
        split at hbody
        · cases hbody
        split at hbody
        · cases hbody
        · exact maxClicks_updateEach hbody hrow
  | deleteLink target =>
    rcases deleteLink_state io db u target with heq | ⟨p, now, heq⟩
    · rw [Call.write, heq]
      exact maxClicks_kept rfl hrow
    · rw [Call.write, heq]
      obtain ⟨row', hrow', hsame⟩ := @maxClicks_deleteWhere db p now id row hrow
      exact ⟨row', hrow', Or.inl hsame⟩
  | deleteLinksBulk ids =>
    rcases deleteLinksBulk_state io db u ids with heq | ⟨p, now, heq⟩
    · rw [Call.write, heq]
      exact maxClicks_kept rfl hrow
    · rw [Call.write, heq]
      obtain ⟨row', hrow', hsame⟩ := @maxClicks_deleteWhere db p now id row hrow
      exact ⟨row', hrow', Or.inl hsame⟩

/-- Recording moves the counter of a row, by one at most, and nothing else of it. -/
theorem link_of_recorded {db : Database} {clicks : Table ClickRow clickClash} {increment : Bool}
    {p : LinkRow → Bool} {key : RollupKey} {id : ℤ} {row : LinkRow} (h : db.link id = some row) :
    ∃ row', (recorded db clicks increment p key).link id = some row' ∧
      row'.maxClicks = row.maxClicks ∧ (row' = row ∨ p row = true) := by
  have hclicks : ({ db with clicks := clicks } : Database).link id = some row := h
  unfold recorded
  cases increment with
  | false =>
    simp only [Bool.false_eq_true, if_false, link_bumpRollup]
    exact ⟨row, hclicks, rfl, Or.inl rfl⟩
  | true =>
    simp only [if_true, link_bumpRollup, link_bumpLinks, hclicks, Option.map_some]
    by_cases hp : p row = true
    · exact ⟨_, rfl, by rw [if_pos hp]; rfl, Or.inr hp⟩
    · exact ⟨_, rfl, by rw [if_neg hp], Or.inl (by rw [if_neg hp])⟩

section Recording

variable {io : Script} {db tx tx' : Database} {event : ClickEvent} {events : List ClickEvent}
  {id : ℤ} {row : LinkRow}

/-- A single call counts only below the limit it was given. -/
theorem link_of_recordClick {increment : Bool} {maxClicks : Option ℤ}
    (ht : event.occurredAt.isZero = false) (h : db.link id = some row) :
    ∃ row', (recordClick io db event increment maxClicks).2.link id = some row' ∧
      row'.maxClicks = row.maxClicks ∧
      (row' = row ∨ id = event.linkId ∧ ∀ m, maxClicks = some m → row.clicks < m) := by
  have hcases := recordClick_cases io db increment maxClicks ht
  generalize (recordClick io db event increment maxClicks).1.1 = ok at hcases
  generalize (recordClick io db event increment maxClicks).1.2 = err at hcases
  generalize (recordClick io db event increment maxClicks).2 = after at hcases ⊢
  cases hcases with
  | refused => exact ⟨row, h, rfl, Or.inl rfl⟩
  | duplicate => exact ⟨row, h, rfl, Or.inl rfl⟩
  | counted hrow hi hl ha hd =>
    rcases hd with rfl | rfl
    · obtain ⟨row', hrow', hlimit, hmoved⟩ := link_of_recorded h
      refine ⟨row', hrow', hlimit, hmoved.imp_right fun hp => ?_⟩
      simp only [underLimit, Bool.and_eq_true, decide_eq_true_eq, Option.all_eq_true] at hp
      exact ⟨(mem_link h).2.symm.trans hp.1, hp.2.2⟩
    · exact ⟨row, h, rfl, Or.inl rfl⟩

theorem link_of_recordBatch {n inserted total : ℕ} (ht : ∀ e ∈ events, e.occurredAt.isZero = false)
    (hb : recordBatch io n inserted tx events = .ok (total, tx')) (h : tx.link id = some row) :
    ∃ row', tx'.link id = some row' ∧
      row'.maxClicks = row.maxClicks ∧ (row.maxClicks ≠ none → row' = row) := by
  induction events generalizing n inserted tx row with
  | nil =>
    cases hb
    exact ⟨row, h, rfl, fun _ => rfl⟩
  | cons event events ih =>
    unfold recordBatch at hb
    split at hb
    · cases hb
    · rename_i isNew tx₁ hnext
      have hrest := fun e he => ht e (List.mem_cons_of_mem event he)
      have hone : ∃ row₁, tx₁.link id = some row₁ ∧ row₁.maxClicks = row.maxClicks ∧
          (row.maxClicks ≠ none → row₁ = row) := by
        obtain ⟨click, -, ⟨-, rfl, -⟩ | ⟨-, -, -, clicks, -, rfl⟩⟩ :=
          recordNext_cases (ht event List.mem_cons_self) hnext
        · exact ⟨row, h, rfl, fun _ => rfl⟩
        · obtain ⟨row₁, hrow₁, hlimit, hmoved⟩ := link_of_recorded h
          refine ⟨row₁, hrow₁, hlimit, fun hlimited => hmoved.resolve_right fun hp => ?_⟩
          simp only [unlimited, Bool.and_eq_true, Option.isNone_iff_eq_none] at hp
          exact hlimited hp.2.2
      obtain ⟨row₁, hrow₁, hlimit₁, hsame₁⟩ := hone
      obtain ⟨row₂, hrow₂, hlimit₂, hsame₂⟩ := ih hrest hb hrow₁
      refine ⟨row₂, hrow₂, hlimit₂.trans hlimit₁, fun hlimited => ?_⟩
      rw [hsame₂ (by rwa [hlimit₁]), hsame₁ hlimited]

/-- A batch never moves the counter of a row with a limit. -/
theorem link_of_recordClicks (ht : ∀ e ∈ events, e.occurredAt.isZero = false)
    (h : db.link id = some row) :
    ∃ row', (recordClicks io db events).2.link id = some row' ∧
      row'.maxClicks = row.maxClicks ∧ (row.maxClicks ≠ none → row' = row) := by
  have hcases := recordClicks_cases io db events
  generalize (recordClicks io db events).1.1 = total at hcases
  generalize (recordClicks io db events).1.2 = err at hcases
  generalize (recordClicks io db events).2 = after at hcases ⊢
  cases hcases with
  | refused => exact ⟨row, h, rfl, fun _ => rfl⟩
  | committed hb => exact link_of_recordBatch ht hb h
  | uncertain hb hd =>
    rcases hd with rfl | rfl
    · exact link_of_recordBatch ht hb h
    · exact ⟨row, h, rfl, fun _ => rfl⟩

/-- `Recorder.Record` passes the limit on, or there is none. -/
theorem link_of_record {published : Option Bool} {increment : Bool} {maxClicks : Option ℤ}
    (ht : event.occurredAt.isZero = false) (h : db.link id = some row) :
    ∃ row', (record published io db event increment maxClicks).2.link id = some row' ∧
      row'.maxClicks = row.maxClicks ∧
      (row' = row ∨ id = event.linkId ∧ ∀ m, maxClicks = some m → row.clicks < m) := by
  have htime : ({ event with increment := increment } : ClickEvent).occurredAt.isZero = false := ht
  unfold record
  dsimp only
  split
  · exact link_of_recordClick htime h
  split
  · exact ⟨row, h, rfl, Or.inl rfl⟩
  · rename_i hdirect _
    have hnone : maxClicks = none := by
      simp only [Bool.or_eq_true, decide_eq_true_eq, not_or] at hdirect
      simpa using hdirect.2
    obtain ⟨row', hrow', hlimit, hmoved⟩ :=
      @link_of_recordClick io db _ id row increment none htime h
    exact ⟨row', hrow', hlimit, hmoved.imp_right fun hp => ⟨hp.1, by simp [hnone]⟩⟩

end Recording

/-! ## Runs -/

/-- Every limit in hand is at least as strict as the one of the row. -/
structure Invariant (s : System) : Prop where
  strict : ∀ link ∈ s.loaded, ∃ row, s.db.link link.id = some row ∧
    within link.maxClicks row.maxClicks = true
  known : ∀ link ∈ s.cached, ∃ row, s.db.link link.id = some row
  timed : ∀ e ∈ s.queue, e.occurredAt.isZero = false

theorem within_refl (limit : Option ℤ) : within limit limit = true :=
  within_iff.mpr fun m hm => ⟨m, hm, le_refl m⟩

theorem linkBySlug_row {io : Script} {db : Database} {slug : Str} {link : Link}
    (h : linkBySlug io db slug = .ok link) :
    ∃ row, db.link link.id = some row ∧ link.maxClicks = row.maxClicks := by
  unfold linkBySlug readLink at h
  have hok := call_ok h
  split at hok
  · cases hok
  · rename_i row hfind
    have hread := call_ok hok
    cases hread
    exact ⟨row, link_mem (List.mem_of_find?_eq_some hfind), rfl⟩

/-- The cache keeps no limit, as it keeps no link that has one. -/
theorem maxClicks_of_cached {link copy : Link}
    (h : (fromLink link).bind CachedRedirect.link = some copy) :
    copy.id = link.id ∧ copy.maxClicks = link.maxClicks := by
  obtain ⟨cached, hcached, hcopy⟩ := Option.bind_eq_some_iff.mp h
  unfold fromLink at hcached
  split at hcached
  · cases hcached
  · rename_i hplain
    simp only [Bool.or_eq_true, not_or, Bool.not_eq_true, Option.isSome_eq_false_iff,
      Option.isNone_iff_eq_none] at hplain
    cases hcached
    simp only [CachedRedirect.link, ne_eq, not_true_eq_false, if_false, Option.some.injEq] at hcopy
    cases hcopy
    exact ⟨rfl, hplain.2.symm⟩

/-- The rows keep their limits, so what is in hand stays strict. -/
theorem Invariant.keep {s t : System} (h : Invariant s)
    (hlimits : ∀ id row, s.db.link id = some row →
      ∃ row', t.db.link id = some row' ∧ row'.maxClicks = row.maxClicks)
    (hloaded : ∀ link ∈ t.loaded, link ∈ s.loaded) (hcached : t.cached = s.cached)
    (htimed : ∀ e ∈ t.queue, e.occurredAt.isZero = false) : Invariant t where
  strict link hlink := by
    obtain ⟨row, hrow, hstrict⟩ := h.strict link (hloaded link hlink)
    obtain ⟨row', hrow', hlimit⟩ := hlimits link.id row hrow
    exact ⟨row', hrow', by rw [hlimit]; exact hstrict⟩
  known link hlink := by
    obtain ⟨row, hrow⟩ := h.known link (hcached ▸ hlink)
    obtain ⟨row', hrow', -⟩ := hlimits link.id row hrow
    exact ⟨row', hrow'⟩
  timed := htimed

theorem invariant_next {s t : System} {e : Event} (h : Invariant s) (he : timely s e = true)
    (hnext : next s e = some t) : Invariant t := by
  cases e with
  | load io slug =>
    simp only [next] at hnext
    split at hnext
    · cases hnext
      exact h
    · rename_i link hread
      cases hnext
      obtain ⟨row, hrow, hlimit⟩ := linkBySlug_row hread
      refine ⟨List.forall_mem_cons.mpr ⟨⟨row, hrow, ?_⟩, h.strict⟩,
        List.forall_mem_cons.mpr ⟨⟨row, hrow⟩, h.known⟩, h.timed⟩
      rw [hlimit]
      exact within_refl _
  | hit link =>
    simp only [next] at hnext
    split at hnext
    · rename_i hcached
      obtain ⟨copy, hcopy, rfl⟩ := Option.map_eq_some_iff.mp hnext
      obtain ⟨hid, hlimit⟩ := maxClicks_of_cached hcopy
      obtain ⟨row, hrow⟩ := h.known link hcached
      refine ⟨List.forall_mem_cons.mpr ⟨⟨row, by rw [hid, hrow], ?_⟩, h.strict⟩, h.known, h.timed⟩
      rw [hlimit]
      rwa [timely, hrow] at he
    · cases hnext
  | leave link =>
    simp only [next] at hnext
    split at hnext
    · cases hnext
      exact h.keep (fun id row hrow => ⟨row, hrow, rfl⟩) (fun l hl => List.mem_of_mem_erase hl)
        rfl h.timed
    · cases hnext
  | record link published io event increment =>
    simp only [next] at hnext
    split at hnext
    · rename_i hguard
      cases hnext
      refine h.keep (fun id row hrow => ?_) (fun l hl => List.mem_of_mem_erase hl) rfl ?_
      · obtain ⟨row', hrow', hlimit, -⟩ := link_of_record hguard.2.2 hrow
        exact ⟨row', hrow', hlimit⟩
      · dsimp only
        split
        · exact List.forall_mem_cons.mpr ⟨hguard.2.2, h.timed⟩
        · exact h.timed
    · cases hnext
  | recordClicks io events =>
    simp only [next] at hnext
    split at hnext
    · rename_i hqueued
      cases hnext
      refine h.keep (fun id row hrow => ?_) (fun l hl => hl) rfl h.timed
      obtain ⟨row', hrow', hlimit, -⟩ :=
        link_of_recordClicks (fun e he => h.timed e (hqueued e he)) hrow
      exact ⟨row', hrow', hlimit⟩
    · cases hnext
  | write io u c =>
    cases hnext
    refine ⟨fun link hlink => ?_, fun link hlink => ?_, h.timed⟩
    case refine_2 =>
      obtain ⟨row, hrow⟩ := h.known link hlink
      obtain ⟨row', hrow', -⟩ := maxClicks_write io s.db u c hrow
      exact ⟨row', hrow'⟩
    obtain ⟨row, hrow, hstrict⟩ := h.strict link hlink
    obtain ⟨row', hrow', hlimit⟩ := maxClicks_write io s.db u c hrow
    refine ⟨row', hrow', ?_⟩
    rcases hlimit with hsame | hset
    · rw [hsame]
      exact hstrict
    · have hall := List.all_eq_true.mp (List.all_eq_true.mp he _ hset) link hlink
      simpa using hall

theorem respects_next {s t : System} {e : Event} (h : Invariant s) (he : e.records = true)
    (hnext : next s e = some t) : RespectsLimits s.db t.db := by
  intro id row row' hrow hrow' hmoved m hm
  cases e with
  | record link published io event increment =>
    simp only [next] at hnext
    split at hnext
    · rename_i hguard
      cases hnext
      obtain ⟨moved, hlink, -, hsame | ⟨hid, hbelow⟩⟩ := link_of_record hguard.2.2 hrow
      · rw [hrow'] at hlink
        cases hlink
        rw [hsame] at hmoved
        exact absurd hmoved (lt_irrefl _)
      · obtain ⟨own, hown, hstrict⟩ := h.strict link hguard.1
        rw [← hguard.2.1, ← hid, hrow] at hown
        cases hown
        obtain ⟨k, hk, hle⟩ := within_iff.mp hstrict m hm
        exact lt_of_lt_of_le (hbelow k hk) hle
    · cases hnext
  | recordClicks io events =>
    simp only [next] at hnext
    split at hnext
    · rename_i hqueued
      cases hnext
      obtain ⟨moved, hlink, -, hsame⟩ :=
        link_of_recordClicks (fun e he => h.timed e (hqueued e he)) hrow
      rw [hrow'] at hlink
      cases hlink
      rw [hsame (by simp [hm])] at hmoved
      exact absurd hmoved (lt_irrefl _)
    · cases hnext
  | load => cases he
  | hit => cases he
  | leave => cases he
  | write => cases he

/-- While no edit tightens the limit of a link that a request has loaded and not yet recorded
on, and no request records on a cached link whose limit has been tightened since, no recording
moves a counter that has reached its row's limit. -/
theorem limits_win_while_timely {db : Database} {es : List Event}
    (htimely : ∀ before e later u, es = before ++ e :: later →
      Execution next ⟨db, [], [], []⟩ before u → timely u e = true) :
    ∀ before e later u v, es = before ++ e :: later → Execution next ⟨db, [], [], []⟩ before u →
      next u e = some v → e.records = true → RespectsLimits u.db v.db := by
  intro before e later u v heq hu hstep hrecords
  refine respects_next ?_ hrecords hstep
  refine hu.invariant_of (P := fun s e => timely s e = true) ⟨by simp, by simp, by simp⟩ ?_ ?_
  · intro s e t hs he hst
    exact invariant_next hs he hst
  · intro xs f ys w hxs hw
    refine htimely xs f (ys ++ e :: later) w ?_ hw
    rw [heq, hxs, List.append_assoc, List.cons_append]

/-! A limit set between a load and its recording. -/

def admin : User := ⟨7, none, .superadmin⟩

/-- The limit 1 for the link 1. -/
def limiting : Call :=
  .updateLink 1
    { slug := lit "docs"
      targetUrl := lit "https://example.com/"
      visibility := lit "private"
      maxClicks := some 1 } [] false

def firstClick : ClickEvent := sampleClick (lit "aaaaaaaa-0000-4000-8000-000000000001")

def secondClick : ClickEvent := sampleClick (lit "aaaaaaaa-0000-4000-8000-000000000002")

/-- What the row of the link 1 counts, and its limit. -/
def counted (s : System) : Option (ℤ × Option ℤ) :=
  (s.db.link 1).map fun row => (row.clicks, row.maxClicks)

/-- What a request loads of the stored link. -/
def unlimitedLink : Link := hydrateLink (Database.single sampleLink) (scanLink sampleLink)

/-- Two requests load the link before the limit is set, and one has recorded. -/
def staleRun : List Event :=
  [.load {} (lit "docs"), .load {} (lit "docs"), .write {} admin limiting,
    .record unlimitedLink none {} firstClick true]

/-- The second one records past the limit. -/
theorem stale_limit_passes_the_row : ∃ s t, Execution next ⟨Database.single sampleLink, [], [], []⟩
      staleRun s ∧ next s (.record unlimitedLink none {} secondClick true) = some t ∧
    ¬ RespectsLimits s.db t.db := by
  have hrun : (replay next ⟨Database.single sampleLink, [], [], []⟩ staleRun).map (fun s =>
      (counted s, (next s (.record unlimitedLink none {} secondClick true)).map counted)) =
        some (some (1, some 1), some (some (2, some 1))) := by decide +kernel
  obtain ⟨s, hs, hcounted⟩ := Option.map_eq_some_iff.mp hrun
  obtain ⟨hbefore, hafter⟩ := Prod.mk.inj hcounted
  obtain ⟨t, ht, hafter⟩ := Option.map_eq_some_iff.mp hafter
  obtain ⟨row, hrow, hclicks⟩ := Option.map_eq_some_iff.mp hbefore
  obtain ⟨row', hrow', hclicks'⟩ := Option.map_eq_some_iff.mp hafter
  obtain ⟨hone, hlimit⟩ := Prod.mk.inj hclicks
  have htwo := (Prod.mk.inj hclicks').1
  refine ⟨s, t, execution_of_replay hs, ht, fun h => ?_⟩
  have hbelow := h 1 row row' hrow hrow' (by omega) 1 hlimit
  omega

/-- The limit is set while no request is about to record. -/
def orderlyRun : List Event :=
  [.load {} (lit "docs"), .record unlimitedLink none {} firstClick true, .write {} admin limiting]

theorem limits_win_while_timely_orderly : ∃ s, Execution next
      ⟨Database.single sampleLink, [], [], []⟩ orderlyRun s ∧ counted s = some (1, some 1) ∧
    ∀ before e later u v, orderlyRun = before ++ e :: later →
      Execution next ⟨Database.single sampleLink, [], [], []⟩ before u → next u e = some v →
        e.records = true → RespectsLimits u.db v.db := by
  have hrun : (replay next ⟨Database.single sampleLink, [], [], []⟩ orderlyRun).map counted =
      some (some (1, some 1)) := by decide +kernel
  have hchecks : checks next timely ⟨Database.single sampleLink, [], [], []⟩ orderlyRun = true := by
    decide +kernel
  obtain ⟨s, hs, hcounted⟩ := Option.map_eq_some_iff.mp hrun
  refine ⟨s, execution_of_replay hs, hcounted,
    limits_win_while_timely fun before e later u heq hu => ?_⟩
  rw [heq] at hchecks
  exact checked_label hchecks hu

end StaleLimits
