import Mathlib.Data.Finset.Card
import Mathlib.Order.Lattice
import ShortQ.ClickBatch
import ShortQ.LabelledRuns
import ShortQ.LinkWrites
import ShortQ.RedirectHandler

/-! # The click limit under concurrent redirects

No link with a limit reaches the cache, but an entry from before the limit was set stays there
when the edit's invalidation fails, and a request that hits it records without a limit. -/
namespace ClickLimit

open GoText (Str lit)
open LabelledRuns
open Models
open RowTable
open Schema
open Transaction
open ClickStore
open ClickBatch
open LinkStore
open LinkCalls
open LinkWrites
open RedirectCache
open RedirectHandler

/-- The click is recorded and the answer is, or will be, the resolved target. -/
def Won : Request → Prop
  | .recorded _ increment _ ok err => increment = true ∧ ok = true ∧ err = none
  | .answered (.redirect _ _) => True
  | _ => False

/-- The event id of a request that is about to record. -/
def pendingId : Request → Option ℕ
  | .recording _ event _ _ => (nullableUuid event.eventId).join
  | _ => none

/-- What a request may hold of the link. -/
def RequestOk (id m : ℤ) : Request → Prop
  | .resolving (.set _ _) => False
  | .resolving (.done (.ok link)) => link.id = id ∧ link.maxClicks = some m
  | .recording link event _ _ => link.id = id ∧ link.maxClicks = some m ∧ event.linkId = id ∧
    event.occurredAt.isZero = false ∧ ∃ u, nullableUuid event.eventId = some (some u)
  | _ => True

/-- A live link with a limit and no request under way. The cache may hold any entry. -/
structure Start (slug : Str) (m : ℤ) (row : LinkRow) (s : System) : Prop where
  stored : s.db.link row.id = some row
  named : row.slug = slug
  live : row.deletedAt = none
  limit : row.maxClicks = some m
  issued : ∀ r ∈ s.db.clicks.rows, ∀ u, r.eventId = some u → u ∈ s.issued
  requests : ∀ r, s.requests r = .idle

/-- `Get` answers with no entry that `Resolve` would use. As links with a limit are not cached,
such an entry is older than the limit. -/
def timely (s : System) : Event → Bool
  | .get _ ok => !ok || (s.cache.bind CachedRedirect.link).isNone
  | _ => true

structure Invariant (slug : Str) (m : ℤ) (start row : LinkRow) (s : System) : Prop where
  stored : s.db.link start.id = some row
  settings : row.slug = slug ∧ row.deletedAt = none ∧ row.maxClicks = some m
  bounds : start.clicks ≤ row.clicks ∧ row.clicks ≤ max m start.clicks
  issued : ∀ r ∈ s.db.clicks.rows, ∀ u, r.eventId = some u → u ∈ s.issued
  requests : ∀ r, RequestOk start.id m (s.requests r)
  pending : ∀ r u, pendingId (s.requests r) = some u →
    u ∈ s.issued ∧ ∀ c ∈ s.db.clicks.rows, c.eventId ≠ some u
  distinct : ∀ r q u, pendingId (s.requests r) = some u → pendingId (s.requests q) = some u → r = q
  quota : ∀ rs : Finset ℕ, (∀ r ∈ rs, Won (s.requests r)) →
    (rs.card : ℤ) ≤ row.clicks - start.clicks

/-- Of distinct winners at most one can be new. -/
theorem quota_update {f : ℕ → Request} {n k : ℤ} {r : ℕ} {x : Request}
    (h : ∀ rs : Finset ℕ, (∀ q ∈ rs, Won (f q)) → (rs.card : ℤ) ≤ n) (hle : n ≤ k)
    (hx : Won x → Won (f r) ∨ n + 1 ≤ k) (rs : Finset ℕ)
    (hrs : ∀ q ∈ rs, Won (Function.update f r x q)) : (rs.card : ℤ) ≤ k := by
  by_cases hr : r ∈ rs
  · have hnew := hrs r hr
    rw [Function.update_self] at hnew
    rcases hx hnew with hold | hmore
    · have hall : ∀ q ∈ rs, Won (f q) := by
        intro q hq
        by_cases hqr : q = r
        · rw [hqr]
          exact hold
        · have hwon := hrs q hq
          rwa [Function.update_of_ne hqr] at hwon
      exact (h rs hall).trans hle
    · have hall : ∀ q ∈ rs.erase r, Won (f q) := by
        intro q hq
        have hwon := hrs q (Finset.mem_of_mem_erase hq)
        rwa [Function.update_of_ne (Finset.ne_of_mem_erase hq)] at hwon
      have hcard := h (rs.erase r) hall
      have hpos := Finset.card_pos.mpr ⟨r, hr⟩
      rw [Finset.card_erase_of_mem hr] at hcard
      omega
  · have hall : ∀ q ∈ rs, Won (f q) := by
      intro q hq
      have hqr : q ≠ r := fun heq => hr (heq ▸ hq)
      have hwon := hrs q hq
      rwa [Function.update_of_ne hqr] at hwon
    exact (h rs hall).trans hle

theorem invariant_start {slug : Str} {m : ℤ} {row : LinkRow} {s : System}
    (h : Start slug m row s) : Invariant slug m row row s where
  stored := h.stored
  settings := ⟨h.named, h.live, h.limit⟩
  bounds := ⟨le_refl _, le_max_right _ _⟩
  issued := h.issued
  requests r := by
    rw [h.requests r]
    trivial
  pending r u hr := by
    rw [h.requests r] at hr
    cases hr
  distinct r q u hr := by
    rw [h.requests r] at hr
    cases hr
  quota rs hrs := by
    have hempty : rs = ∅ := by
      rw [Finset.eq_empty_iff_forall_notMem]
      intro r hr
      have hwon := hrs r hr
      rw [h.requests r] at hwon
      exact hwon
    simp [hempty]

/-- A request moves on without touching the database, the cache or the ids. -/
theorem Invariant.advance {slug : Str} {m : ℤ} {start row : LinkRow} {s : System}
    (h : Invariant slug m start row s) {r : ℕ} {x : Request} (hx : RequestOk start.id m x)
    (hpending : pendingId x = none) (hwon : Won x → Won (s.requests r)) :
    Invariant slug m start row (s.advance r x) where
  stored := h.stored
  settings := h.settings
  bounds := h.bounds
  issued := h.issued
  requests q := by
    by_cases hq : q = r
    · simp only [hq, System.advance, Function.update_self]
      exact hx
    · simp only [System.advance, Function.update_of_ne hq]
      exact h.requests q
  pending q u hu := by
    by_cases hq : q = r
    · simp only [hq, System.advance, Function.update_self, hpending] at hu
      cases hu
    · simp only [System.advance, Function.update_of_ne hq] at hu
      exact h.pending q u hu
  distinct p q u hp hq := by
    have hne : ∀ i, pendingId ((s.advance r x).requests i) = some u → i ≠ r := by
      intro i hi heq
      simp only [heq, System.advance, Function.update_self, hpending] at hi
      cases hi
    have hp' := hne p hp
    have hq' := hne q hq
    simp only [System.advance, Function.update_of_ne hp'] at hp
    simp only [System.advance, Function.update_of_ne hq'] at hq
    exact h.distinct p q u hp hq
  quota := quota_update h.quota (le_refl _) fun hw => Or.inl (hwon hw)

/-- A load sees the link as it is, or fails. -/
theorem linkBySlug_of_invariant {slug : Str} {m : ℤ} {start row : LinkRow} {s : System}
    (h : Invariant slug m start row s) (io : Script) :
    (∃ e, linkBySlug io s.db slug = .error e) ∨
      linkBySlug io s.db slug = .ok (hydrateLink s.db (scanLink row)) := by
  have hrow := List.mem_of_find?_eq_some h.stored
  obtain ⟨hslug, hlive, -⟩ := h.settings
  have hfind : (s.db.links.find fun r => r.slug = slug && r.deletedAt.isNone) = some row := by
    rw [Table.find]
    cases hf : s.db.links.rows.find? fun r => r.slug = slug && r.deletedAt.isNone with
    | none =>
      have hnone := List.find?_eq_none.mp hf row hrow
      simp [hslug, hlive] at hnone
    | some other =>
      have hother := List.find?_some hf
      simp only [Bool.and_eq_true, decide_eq_true_eq] at hother
      rw [s.db.links.eq_of_clash linkClash_symm (List.mem_of_find?_eq_some hf) hrow
        (Or.inr (hother.1.trans hslug.symm))]
  unfold linkBySlug readLink Script.call
  rw [hfind]
  cases io.exec 0 with
  | some text => exact Or.inl ⟨_, rfl⟩
  | none =>
    cases io.exec 1 with
    | some text => exact Or.inl ⟨_, rfl⟩
    | none => exact Or.inr rfl

theorem loaded_link {slug : Str} {m : ℤ} {start row : LinkRow} {s : System}
    (h : Invariant slug m start row s) :
    (hydrateLink s.db (scanLink row)).id = start.id ∧
      (hydrateLink s.db (scanLink row)).maxClicks = some m := by
  have hid : row.id = start.id := by simpa using List.find?_some h.stored
  exact ⟨hid, h.settings.2.2⟩

theorem invariant_load {slug : Str} {m : ℤ} {start row : LinkRow} {s : System}
    (h : Invariant slug m start row s) (r : ℕ) (io : Script) :
    Invariant slug m start row (s.advance r (.resolving (.done (linkBySlug io s.db slug)))) ∧
      Resolve.afterLoad (linkBySlug io s.db slug) = .done (linkBySlug io s.db slug) := by
  rcases linkBySlug_of_invariant h io with ⟨e, he⟩ | hok
  · rw [he]
    exact ⟨h.advance trivial rfl False.elim, rfl⟩
  · rw [hok]
    exact ⟨h.advance (loaded_link h) rfl False.elim, afterLoad_of_maxClicks (loaded_link h).2⟩

theorem invariant_check {slug : Str} {m : ℤ} {start row : LinkRow} {s t : System} {r : ℕ}
    {link : Link} {domainTenant : Option ℤ} {access : Bool} {now : GoTime.Time}
    {event : ClickEvent} {target : Str} (h : Invariant slug m start row s)
    (hr : s.requests r = .resolving (.done (.ok link)))
    (hnext : check s r link domainTenant access now event target = some t) :
    Invariant slug m start row t := by
  have hlink := h.requests r
  rw [hr] at hlink
  unfold check at hnext
  split at hnext
  · cases hnext
    exact h.advance trivial rfl False.elim
  split at hnext
  · cases hnext
    exact h.advance trivial rfl False.elim
  split at hnext
  · cases hnext
  rename_i u hfresh
  split at hnext
  · rename_i hevent
    cases hnext
    simp only [Bool.and_eq_true, decide_eq_true_eq, Bool.not_eq_true'] at hevent
    have hnew : nullableUuid event.eventId = some (some u) ∧ u ∉ s.issued := by
      unfold freshId at hfresh
      split at hfresh
      · rename_i v hv
        split at hfresh
        · cases hfresh
        · rename_i hnot
          cases hfresh
          exact ⟨hv, by simpa using hnot⟩
      · cases hfresh
    have hpendingId : pendingId (.recording link event (!linkExpired now link) target) =
        some u := by
      simp [pendingId, hnew.1]
    refine ⟨h.stored, h.settings, h.bounds, ?_, ?_, ?_, ?_, ?_⟩
    · intro c hc v hv
      exact List.mem_cons_of_mem _ (h.issued c hc v hv)
    · intro q
      by_cases hq : q = r
      · simp only [hq, System.advance, Function.update_self]
        exact ⟨hlink.1, hlink.2, hevent.1.trans hlink.1, hevent.2, u, hnew.1⟩
      · simp only [System.advance, Function.update_of_ne hq]
        exact h.requests q
    · intro q v hv
      by_cases hq : q = r
      · simp only [hq, System.advance, Function.update_self, hpendingId] at hv
        cases hv
        exact ⟨List.mem_cons_self, fun c hc hcu => hnew.2 (h.issued c hc u hcu)⟩
      · simp only [System.advance, Function.update_of_ne hq] at hv
        obtain ⟨hissued, hrows⟩ := h.pending q v hv
        exact ⟨List.mem_cons_of_mem _ hissued, hrows⟩
    · -- an id drawn earlier is not the new one
      have hother : ∀ i v, i ≠ r → pendingId (s.requests i) = some v → v ≠ u := by
        intro i v _ hv heq
        exact hnew.2 (heq ▸ (h.pending i v hv).1)
      intro p q v hp hq
      by_cases hpr : p = r
      · by_cases hqr : q = r
        · rw [hpr, hqr]
        · simp only [hpr, System.advance, Function.update_self, hpendingId] at hp
          simp only [System.advance, Function.update_of_ne hqr] at hq
          exact absurd (Option.some.inj hp).symm (hother q v hqr hq)
      · simp only [System.advance, Function.update_of_ne hpr] at hp
        by_cases hqr : q = r
        · simp only [hqr, System.advance, Function.update_self, hpendingId] at hq
          exact absurd (Option.some.inj hq).symm (hother p v hpr hp)
        · simp only [System.advance, Function.update_of_ne hqr] at hq
          exact h.distinct p q v hp hq
    · exact quota_update h.quota (le_refl _) False.elim
  · cases hnext

/-- A recording either changes nothing and does not win, or it stores the new event and, when
it increments, finds the link below its limit. -/
theorem recordClick_fresh {db : Database} {row : LinkRow} {u : ℕ} (io : Script)
    (event : ClickEvent) (increment : Bool) (m : ℤ) (ht : event.occurredAt.isZero = false)
    (hlink : db.link event.linkId = some row) (hid : nullableUuid event.eventId = some (some u))
    (hfresh : ∀ c ∈ db.clicks.rows, c.eventId ≠ some u) :
    ((recordClick io db event increment (some m)).2 = db ∧
      ¬ ((recordClick io db event increment (some m)).1 = (true, none))) ∨
    ∃ stored clicks, stored.eventId = some u ∧ db.clicks.insert stored = some clicks ∧
      (recordClick io db event increment (some m)).2 =
        recorded db clicks increment (underLimit event.linkId (some m)) stored.rollupKey ∧
      (increment = true → row.deletedAt = none ∧ row.clicks < m) := by
  have hcases := recordClick_cases io db increment (some m) ht
  generalize hok : (recordClick io db event increment (some m)).1.1 = ok at hcases
  generalize herr : (recordClick io db event increment (some m)).1.2 = err at hcases
  generalize (recordClick io db event increment (some m)).2 = after at hcases ⊢
  have hresult : (recordClick io db event increment (some m)).1 = (ok, err) := Prod.ext hok herr
  rw [hresult]
  cases hcases with
  | refused => exact Or.inl ⟨rfl, by simp⟩
  | @duplicate stored _ hrow hi =>
    obtain ⟨c, hc, -, heq⟩ := Table.insert_eq_none.mp hi
    have hstored := eventId_of_clickRow hrow
    rw [hid] at hstored
    exact absurd (heq.trans (Option.some.inj hstored).symm) (hfresh c hc)
  | @counted stored clicks _ _ hrow hi _ ha hd hc =>
    have hstored := eventId_of_clickRow hrow
    rw [hid] at hstored
    rcases hc with ⟨-, hafter⟩ | ⟨text, rfl⟩
    · refine Or.inr ⟨stored, clicks, (Option.some.inj hstored).symm, hi, hafter, fun hinc => ?_⟩
      obtain ⟨r, hr, hlive, hbelow⟩ := affected_underLimit_pos.mp (ha hinc)
      rw [hlink] at hr
      cases hr
      exact ⟨hlive, hbelow m rfl⟩
    · rcases hd with hafter | hafter
      · refine Or.inr ⟨stored, clicks, (Option.some.inj hstored).symm, hi, hafter, fun hinc => ?_⟩
        obtain ⟨r, hr, hlive, hbelow⟩ := affected_underLimit_pos.mp (ha hinc)
        rw [hlink] at hr
        cases hr
        exact ⟨hlive, hbelow m rfl⟩
      · exact Or.inl ⟨hafter, by simp⟩

theorem record_of_limit (published : Option Bool) (io : Script) (db : Database)
    (event : ClickEvent) (increment : Bool) (m : ℤ) :
    record published io db event increment (some m) =
      recordClick io db { event with increment := increment } increment (some m) := by
  simp [record]

/-- The link's row after a stored event: one more click when it increments. -/
def counted (row : LinkRow) (increment : Bool) : LinkRow :=
  if increment then addClick row else row

theorem counted_settings (row : LinkRow) (increment : Bool) :
    (counted row increment).slug = row.slug ∧ (counted row increment).deletedAt = row.deletedAt ∧
      (counted row increment).maxClicks = row.maxClicks ∧
      (counted row increment).clicks = row.clicks + if increment then 1 else 0 := by
  cases increment with
  | false => exact ⟨rfl, rfl, rfl, (Int.add_zero _).symm⟩
  | true => exact ⟨rfl, rfl, rfl, rfl⟩

theorem link_recorded_counted {db : Database} {row : LinkRow} {id m : ℤ} {increment : Bool}
    {clicks : Table ClickRow clickClash} {key : RollupKey} (hlink : db.link id = some row)
    (hreach : increment = true → row.deletedAt = none ∧ row.clicks < m) :
    (recorded db clicks increment (underLimit id (some m)) key).link id =
      some (counted row increment) := by
  have hid : row.id = id := by simpa using List.find?_some hlink
  rw [link_recorded, hlink]
  cases increment with
  | false => rfl
  | true =>
    obtain ⟨hlive, hbelow⟩ := hreach rfl
    have hunder : underLimit id (some m) row = true := by simp [underLimit, hid, hlive, hbelow]
    simp [hunder, counted]

/-- The request's event is stored: the row counts it and the request has won at most once. -/
theorem invariant_stored {slug : Str} {m : ℤ} {start row : LinkRow} {s : System} {r u : ℕ}
    {x : Request} {increment : Bool} {stored : ClickRow} {clicks : Table ClickRow clickClash}
    {db : Database} (h : Invariant slug m start row s)
    (hpending : pendingId (s.requests r) = some u)
    (hx : RequestOk start.id m x) (hnone : pendingId x = none)
    (hwon : Won x → increment = true) (hid : stored.eventId = some u)
    (hi : s.db.clicks.insert stored = some clicks) (hclicks : db.clicks = clicks)
    (hlink : db.link start.id = some (counted row increment))
    (hreach : increment = true → row.deletedAt = none ∧ row.clicks < m) :
    Invariant slug m start (counted row increment) { s.advance r x with db := db } := by
  obtain ⟨hslug, hlive, hmax, hcount⟩ := counted_settings row increment
  have hrows : db.clicks.rows = s.db.clicks.rows ++ [stored] := by
    rw [hclicks, (Table.insert_eq_some.mp hi).2]
  have hne : ∀ q v, pendingId ((s.advance r x).requests q) = some v →
      q ≠ r ∧ pendingId (s.requests q) = some v := by
    intro q v hq
    by_cases hqr : q = r
    · simp only [hqr, System.advance, Function.update_self, hnone] at hq
      cases hq
    · simp only [System.advance, Function.update_of_ne hqr] at hq
      exact ⟨hqr, hq⟩
  have hmove : (counted row increment).clicks = row.clicks ∨
      ((counted row increment).clicks = row.clicks + 1 ∧ row.clicks < m) := by
    cases increment with
    | false => exact Or.inl rfl
    | true => exact Or.inr ⟨rfl, (hreach rfl).2⟩
  have hbounds := h.bounds
  have hupper := le_max_left m start.clicks
  refine ⟨hlink, ?_, ?_, ?_, ?_, ?_, ?_, ?_⟩
  · exact ⟨hslug.trans h.settings.1, hlive.trans h.settings.2.1, hmax.trans h.settings.2.2⟩
  · rcases hmove with heq | ⟨heq, hlt⟩ <;> rw [heq] <;> omega
  · intro c hc v hv
    rw [hrows] at hc
    rcases List.mem_append.mp hc with hold | hnew
    · exact h.issued c hold v hv
    · rw [List.mem_singleton.mp hnew, hid] at hv
      cases hv
      exact (h.pending r u hpending).1
  · intro q
    by_cases hqr : q = r
    · simp only [hqr, System.advance, Function.update_self]
      exact hx
    · simp only [System.advance, Function.update_of_ne hqr]
      exact h.requests q
  · intro q v hq
    obtain ⟨hqr, hold⟩ := hne q v hq
    obtain ⟨hissued, hfresh⟩ := h.pending q v hold
    refine ⟨hissued, fun c hc => ?_⟩
    rw [hrows] at hc
    rcases List.mem_append.mp hc with hmem | hnew
    · exact hfresh c hmem
    · rw [List.mem_singleton.mp hnew, hid]
      intro heq
      cases heq
      exact hqr (h.distinct q r u hold hpending)
  · intro p q v hp hq
    exact h.distinct p q v (hne p v hp).2 (hne q v hq).2
  · refine quota_update h.quota (by rcases hmove with heq | ⟨heq, -⟩ <;> omega) fun hw => ?_
    obtain rfl := hwon hw
    exact Or.inr (by simp only [counted, if_true, addClick]; omega)

theorem invariant_record {slug : Str} {m : ℤ} {start row : LinkRow} {s : System} {r : ℕ}
    {link : Link} {event : ClickEvent} {increment : Bool} {target : Str}
    (h : Invariant slug m start row s)
    (hr : s.requests r = .recording link event increment target) (published : Option Bool)
    (io : Script) : ∃ row', Invariant slug m start row'
      { s.advance r (.recorded link increment target
          (record published io s.db event increment link.maxClicks).1.1
          (record published io s.db event increment link.maxClicks).1.2) with
        db := (record published io s.db event increment link.maxClicks).2 } := by
  have hok := h.requests r
  rw [hr] at hok
  obtain ⟨-, hlimit, hevent, ht, u, hu⟩ := hok
  have hpending : pendingId (s.requests r) = some u := by simp [hr, pendingId, hu]
  have hlink : s.db.link event.linkId = some row := by rw [hevent]; exact h.stored
  rw [hlimit, record_of_limit]
  have hcases := recordClick_fresh io { event with increment := increment } increment m ht hlink
    hu (h.pending r u hpending).2
  rcases hcases with ⟨hsame, hlost⟩ | ⟨stored, clicks, hid, hi, hafter, hreach⟩
  · rw [hsame]
    refine ⟨row, h.advance trivial rfl fun hw => ?_⟩
    exact absurd (Prod.ext hw.2.1 hw.2.2) hlost
  · rw [hafter]
    refine ⟨counted row increment, invariant_stored h hpending trivial rfl (fun hw => hw.1) hid hi
      ?_ ?_ hreach⟩
    · unfold recorded
      cases increment <;> rfl
    · rw [← hevent]
      exact link_recorded_counted hlink hreach

theorem won_respond {link : Link} {increment : Bool} {target : Str} {ok : Bool}
    {err : Option Err} (h : Won (.answered (respond link increment target ok err))) :
    Won (.recorded link increment target ok err) := by
  unfold respond at h
  split at h
  · exact h.elim
  split at h
  · exact h.elim
  split at h
  · exact h.elim
  · rename_i hinc herr hok
    exact ⟨by simpa using hinc, by simpa using hok, by simpa using herr⟩

/-- A timely `Get` goes on to the database. -/
theorem afterGet_of_timely {s : System} {r : ℕ} {ok : Bool} (h : timely s (.get r ok) = true) :
    Resolve.afterGet (if ok then some s.cache else none) = .load := by
  cases ok with
  | false => rfl
  | true =>
    cases hcache : s.cache with
    | none => rfl
    | some cached =>
      have hunusable : cached.link = none := by simpa [timely, hcache] using h
      simp [Resolve.afterGet, hunusable]

theorem invariant_next {slug : Str} {m : ℤ} {start row : LinkRow} {s t : System} {e : Event}
    (h : Invariant slug m start row s) (he : timely s e = true) (hnext : next slug s e = some t) :
    ∃ row', Invariant slug m start row' t := by
  cases e with
  | start r cached =>
    simp only [next] at hnext
    split at hnext
    · cases hnext
      refine ⟨row, h.advance ?_ ?_ ?_⟩
      all_goals cases cached <;> first | trivial | rfl | exact False.elim
    · cases hnext
  | get r ok =>
    simp only [next] at hnext
    split at hnext
    · cases hnext
      rw [afterGet_of_timely he]
      exact ⟨row, h.advance trivial rfl False.elim⟩
    · cases hnext
  | load r io =>
    obtain ⟨hdone, hafter⟩ := invariant_load h r io
    simp only [next] at hnext
    split at hnext
    · cases hnext
      exact ⟨row, hdone⟩
    · cases hnext
      rw [hafter]
      exact ⟨row, hdone⟩
    · cases hnext
  | set r call =>
    simp only [next] at hnext
    split at hnext
    · rename_i hr
      have hok := h.requests r
      rw [hr] at hok
      exact hok.elim
    · cases hnext
  | check r domainTenant access now event target =>
    simp only [next] at hnext
    split at hnext
    · cases hnext
      exact ⟨row, h.advance trivial rfl False.elim⟩
    · rename_i hr
      exact ⟨row, invariant_check h hr hnext⟩
    · cases hnext
  | record r published io =>
    simp only [next] at hnext
    split at hnext
    · rename_i hr
      cases hnext
      exact invariant_record h hr published io
    · cases hnext
  | respond r =>
    simp only [next] at hnext
    split at hnext
    · rename_i hr
      cases hnext
      refine ⟨row, h.advance trivial rfl fun hw => ?_⟩
      rw [hr]
      exact won_respond hw
    · cases hnext

/-- The request was redirected to its resolved target. -/
def Redirected (s : System) (r : ℕ) : Prop :=
  ∃ target code, s.requests r = .answered (.redirect target code)

/-- However many requests race, while none is answered from an entry older than the limit, the
counter stays within the limit and no more requests are redirected than were counted. A
recording that refuses or fails changes nothing. -/
theorem clicks_within_limit {slug : Str} {m : ℤ} {start : LinkRow} {s t : System}
    {es : List Event} (hs : Start slug m start s) (h : Execution (next slug) s es t)
    (htimely : ∀ before e later u, es = before ++ e :: later →
      Execution (next slug) s before u → timely u e = true) :
    (∃ row, t.db.link start.id = some row ∧ row.clicks ≤ max m start.clicks ∧
      ∀ rs : Finset ℕ, (∀ r ∈ rs, Redirected t r) →
        (rs.card : ℤ) ≤ row.clicks - start.clicks ∧ (rs.card : ℤ) ≤ max (m - start.clicks) 0) ∧
    ∀ io db event increment maxClicks,
      ((recordClick io db event increment maxClicks).1 = (false, none) ∨
        ∃ e, (recordClick io db event increment maxClicks).1.2 = some e ∧
          ∀ text, e ≠ .commit text) →
      (recordClick io db event increment maxClicks).2 = db := by
  have hinvariant : ∃ row, Invariant slug m start row t :=
    h.invariant_of (I := fun u => ∃ row, Invariant slug m start row u)
      (P := fun u e => timely u e = true) ⟨start, invariant_start hs⟩
      (fun u e v hu he hstep => hu.elim fun _ hrow => invariant_next hrow he hstep) htimely
  obtain ⟨row, hrow⟩ := hinvariant
  refine ⟨⟨row, hrow.stored, hrow.bounds.2, fun rs hrs => ?_⟩, recordClick_unchanged⟩
  have hquota : (rs.card : ℤ) ≤ row.clicks - start.clicks := by
    refine hrow.quota rs fun r hr => ?_
    obtain ⟨target, code, hanswer⟩ := hrs r hr
    rw [hanswer]
    trivial
  have hbound := hrow.bounds.2
  exact ⟨hquota, by omega⟩

/-! An edit sets the limit 1 for a link that the cache holds. -/

/-- What is cached of the link before the edit. -/
def oldEntry : Option CachedRedirect :=
  fromLink (hydrateLink (Database.single sampleLink) (scanLink sampleLink))

/-- The edit is committed. -/
def limitedDb : Database :=
  (Call.write {} (Database.single sampleLink) ⟨7, none, .superadmin⟩
    (.updateLink 1
      { slug := lit "docs"
        targetUrl := lit "https://example.com/"
        visibility := lit "private"
        maxClicks := some 1 } [] false)).2

/-- The state after the edit, with what its invalidation leaves of the cache. -/
def limitedStart (cache : Option CachedRedirect) : System := ⟨limitedDb, cache, [], fun _ => .idle⟩

def limitedLink : LinkRow := { sampleLink with maxClicks := some 1 }

def answer (s : System) (r : ℕ) : Option Response :=
  match s.requests r with
  | .answered response => some response
  | _ => none

theorem answer_eq_some {s : System} {r : ℕ} {response : Response}
    (h : answer s r = some response) : s.requests r = .answered response := by
  unfold answer at h
  split at h
  · rename_i hr
    cases h
    exact hr
  · cases h

theorem start_limitedStart (cache : Option CachedRedirect) :
    Start (lit "docs") 1 limitedLink (limitedStart cache) where
  stored := by
    have hstored : limitedDb.link 1 = some limitedLink := by decide +kernel
    exact hstored
  named := rfl
  live := rfl
  limit := rfl
  issued := by
    have hempty : limitedDb.clicks.rows = [] := by decide +kernel
    simp [limitedStart, hempty]
  requests _ := rfl

def firstClick : ClickEvent := sampleClick (lit "aaaaaaaa-0000-4000-8000-000000000001")

def secondClick : ClickEvent := sampleClick (lit "aaaaaaaa-0000-4000-8000-000000000002")

/-- What the row of the link counts. -/
def counter (s : System) : Option ℤ := (s.db.link 1).map (·.clicks)

/-- Two requests load the link before either is recorded; the cache fails for the first. -/
def raceTrace : List Event :=
  [.start 1 true, .start 2 false, .get 1 false, .load 1 {}, .load 2 {},
    .check 1 none true firstClick.occurredAt firstClick sampleLink.targetUrl,
    .check 2 none true secondClick.occurredAt secondClick sampleLink.targetUrl,
    .record 1 none {}, .record 2 none {}, .respond 2, .respond 1]

/-- Of two requests racing for the last click one is redirected. -/
theorem clicks_within_limit_race :
    ∃ t row, Execution (next (lit "docs")) (limitedStart oldEntry) raceTrace t ∧ Redirected t 1 ∧
      t.requests 2 = .answered .expired ∧ t.db.link 1 = some row ∧ row.clicks = 1 := by
  have hanswers : (replay (next (lit "docs")) (limitedStart oldEntry) raceTrace).map (fun t =>
      (answer t 1, answer t 2)) =
        some (some (.redirect sampleLink.targetUrl 302), some .expired) := by decide +kernel
  have hchecks : checks (next (lit "docs")) timely (limitedStart oldEntry) raceTrace = true := by
    decide +kernel
  obtain ⟨t, ht, heq⟩ := Option.map_eq_some_iff.mp hanswers
  obtain ⟨hfirst, hsecond⟩ := Prod.mk.inj heq
  have hrun := execution_of_replay ht
  have hredirected : Redirected t 1 := ⟨_, _, answer_eq_some hfirst⟩
  obtain ⟨row, hrow, hupper, hquota⟩ := (clicks_within_limit (start_limitedStart oldEntry) hrun
    fun before e later u hsplit hu => by
      rw [hsplit] at hchecks
      exact checked_label hchecks hu).1
  have hlower := (hquota {1} fun r hr => by rwa [Finset.mem_singleton.mp hr]).1
  have hstart : limitedLink.clicks = 0 := rfl
  rw [hstart] at hupper hlower
  simp only [Finset.card_singleton] at hlower
  exact ⟨t, row, hrun, hredirected, answer_eq_some hsecond, hrow, by omega⟩

/-- Two requests hit the entry from before the edit. -/
def staleTrace : List Event :=
  [.start 1 true, .get 1 true, .start 2 true, .get 2 true,
    .check 1 none true firstClick.occurredAt firstClick sampleLink.targetUrl,
    .check 2 none true secondClick.occurredAt secondClick sampleLink.targetUrl,
    .record 1 none {}, .record 2 none {}, .respond 1, .respond 2]

/-- Both are counted and redirected, past the limit 1 that the row had from the start. -/
theorem old_entry_passes_the_limit :
    ∃ t row, Start (lit "docs") 1 limitedLink (limitedStart oldEntry) ∧
      Execution (next (lit "docs")) (limitedStart oldEntry) staleTrace t ∧
      Redirected t 1 ∧ Redirected t 2 ∧ t.db.link limitedLink.id = some row ∧
      ¬ row.clicks ≤ max 1 limitedLink.clicks := by
  have hanswers : (replay (next (lit "docs")) (limitedStart oldEntry) staleTrace).map (fun t =>
      (answer t 1, answer t 2, counter t)) =
        some (some (.redirect sampleLink.targetUrl 302), some (.redirect sampleLink.targetUrl 302),
          some 2) := by decide +kernel
  obtain ⟨t, ht, heq⟩ := Option.map_eq_some_iff.mp hanswers
  obtain ⟨hfirst, hrest⟩ := Prod.mk.inj heq
  obtain ⟨hsecond, hcounter⟩ := Prod.mk.inj hrest
  obtain ⟨row, hrow, hclicks⟩ := Option.map_eq_some_iff.mp hcounter
  refine ⟨t, row, start_limitedStart oldEntry, execution_of_replay ht,
    ⟨_, _, answer_eq_some hfirst⟩, ⟨_, _, answer_eq_some hsecond⟩, hrow, ?_⟩
  have hstart : limitedLink.clicks = 0 := rfl
  rw [hstart]
  omega

end ClickLimit
