import ShortQ.ClickRetention
import ShortQ.ReportFigures

/-! # Report windows against retention

`parseReportWindow` offers 90 local days, `PurgeOldClicks` keeps 90 times 24 hours. The two agree
as long as the clocks of the zone were not set back in between. -/
namespace ReportRetention

open ClickStore
open GoText (Str lit trimSpace)
open GoTime (Time)
open LocalDays
open ReportDays
open ReportFigures
open RowTable
open Schema
open Transaction

/-- A purge at `now` may delete a click of the instant. -/
def Expires (now t : Time) : Prop :=
  ∃ (io : Script) (db : Database) (row : ClickRow), io.now 0 = now ∧ row ∈ db.clicks.rows ∧
    row.createdAt = t ∧ row ∉ (purgeOldClicks io db).2.clicks.rows

/-- The report over `[start, stop)` reads no instant that a purge may have deleted, and neither
does the count of the window before it when there is one. -/
structure Retained (now : Time) (start stop : ℤ) (loc : Location) : Prop where
  window : ∀ t : Time, start * GoTime.second ≤ t.nanos → t.nanos < stop * GoTime.second →
    ¬ Expires now t
  previous : ∀ n reads later subject report,
    ReportFigures.buildReport n reads later subject start stop loc = some report →
      report.summary.previousPeriodClicks ≠ none → ∀ t : Time,
        previousFrom loc start report.daily.length * GoTime.second ≤ t.nanos →
          t.nanos < start * GoTime.second → ¬ Expires later t

/-- The offset with which `time.Date` answers a local time. -/
def offsetAt (loc : Location) (l : ℤ) : ℤ := l - loc.Date l

/-- The local time of `now` in nanoseconds. -/
def wallClock (loc : Location) (now : Time) : ℤ :=
  now.nanos + loc.offset (unixSecond now) * GoTime.second

/-- From the midnight of `first` to `now` the clocks were set back by no more than the local time
that is left until the midnight 90 days after it. -/
def NotSetBack (loc : Location) (now : Time) (first : ℤ) : Prop :=
  (offsetAt loc (first * 86400) - loc.offset (unixSecond now)) * GoTime.second ≤
    (first + 90) * GoTime.day - wallClock loc now

/-! ## What a purge deletes -/

theorem expires_old {now t : Time} (h : Expires now t) : t.nanos < now.nanos - 90 * GoTime.day := by
  obtain ⟨io, db, row, rfl, hrow, rfl, hgone⟩ := h
  by_contra hrecent
  apply hgone
  unfold purgeOldClicks
  cases hexec : io.exec 0 with
  | some text => exact hrow
  | none =>
    have hkept : row ∈ (db.clicks.rows.zipIdx.filter
        (· ∉ (purgeable (io.now 0) db.clicks.rows).take 10000)).map Prod.fst := by
      obtain ⟨k, hk, rfl⟩ := List.mem_iff_getElem.mp hrow
      refine List.mem_map.mpr ⟨(db.clicks.rows[k], k), List.mem_filter.mpr ⟨?_, ?_⟩, rfl⟩
      · exact List.mk_mem_zipIdx_iff_getElem?.mpr (List.getElem?_eq_getElem hk)
      · refine decide_eq_true fun hvictim => hrecent ?_
        have hold := List.mem_of_mem_take hvictim
        rw [purgeable, List.mem_mergeSort] at hold
        exact of_decide_eq_true (List.mem_filter.mp hold).2
    dsimp only
    rcases commitTx_state io db { db with
        clicks := db.clicks.restrict ((db.clicks.rows.zipIdx.filter
          (· ∉ (purgeable (io.now 0) db.clicks.rows).take 10000)).map Prod.fst)
          (filter_positions_sublist _ _) } with heq | heq
    · rw [heq]
      exact hkept
    · rw [heq]
      exact hrow

theorem expires_of_old {now t : Time} (h : t.nanos < now.nanos - 90 * GoTime.day) :
    Expires now t := by
  have hrows : (⟨[{ click with createdAt := t }], List.pairwise_singleton _ _⟩ :
      Table ClickRow clickClash).rows = [{ click with createdAt := t }] := rfl
  refine ⟨{ now := fun _ => now }, { clicked with
    clicks := ⟨[{ click with createdAt := t }], List.pairwise_singleton _ _⟩ },
    { click with createdAt := t }, rfl, List.mem_singleton_self _, rfl, ?_⟩
  rw [ClickRetention.purgeOldClicks_single hrows h]
  exact List.not_mem_nil

theorem expires_iff {now t : Time} : Expires now t ↔ t.nanos < now.nanos - 90 * GoTime.day :=
  ⟨expires_old, expires_of_old⟩

/-! ## Windows -/

variable {loc : Location} {now : Time} {start stop : ℤ}

/-- The window before is reported only while all of it is there. -/
theorem previous_retained {n : ℕ} {reads : ℕ → Option Stored} {later : Time}
    {subject : ReportSubject} {report : ReportFigures.AnalyticsReport}
    (h : ReportFigures.buildReport n reads later subject start stop loc = some report)
    (hprevious : report.summary.previousPeriodClicks ≠ none) {t : Time}
    (ht : previousFrom loc start report.daily.length * GoTime.second ≤ t.nanos) :
    ¬ Expires later t := by
  obtain ⟨days, rows, -, hreported⟩ := ReportFigures.buildReport_spec h
  have hread := hreported.previous
  unfold previousPeriod at hread
  by_cases hretains : retains later (previousFrom loc start report.daily.length) = true
  · simp only [retains, Bool.not_eq_true', decide_eq_false_iff_not] at hretains
    rw [expires_iff]
    omega
  · rw [if_neg hretains, Option.some.injEq] at hread
    exact absurd hread.symm hprevious

theorem retained_iff (h : start < stop) :
    Retained now start stop loc ↔ ¬ start * GoTime.second < now.nanos - 90 * GoTime.day := by
  constructor
  · intro hretained hold
    apply hretained.window ⟨start * GoTime.second⟩ (le_refl _)
    · simp only [GoTime.second]
      omega
    · exact expires_of_old hold
  · intro hrecent
    constructor
    · intro t ht _ hexpires
      have hold := expires_old hexpires
      omega
    · intro n reads later subject report hreport hprevious t ht _
      exact previous_retained hreport hprevious ht

/-- `time.Date` answers a local time within a day of it. -/
theorem date_near (loc : Location) (l : ℤ) : |l - loc.Date l| < 86400 := by
  by_cases hexists : ∃ t, t + loc.offset t = l
  · obtain ⟨t, rfl⟩ := hexists
    have hclock := loc.existing t
    have hbound := loc.bounded (loc.Date (t + loc.offset t))
    rw [abs_lt] at hbound ⊢
    omega
  · obtain ⟨t, -, -, hdate⟩ := loc.missing l fun t ht => hexists ⟨t, ht⟩
    rcases hdate with hdate | hdate
    · rw [hdate, sub_sub_cancel]
      exact loc.bounded t
    · rw [hdate, sub_sub_cancel]
      exact loc.bounded (t + 1)

/-- The window of the latest 30 days. -/
theorem default_recent (loc : Location) (now : Time) :
    loc.AddDate (loc.midnight (loc.dayOf (unixSecond now))) (-29) <
        loc.AddDate (loc.midnight (loc.dayOf (unixSecond now))) 1 ∧
      ¬ loc.AddDate (loc.midnight (loc.dayOf (unixSecond now))) (-29) * GoTime.second <
        now.nanos - 90 * GoTime.day := by
  have htoday := loc.bounded (unixSecond now)
  have hmidnight := date_near loc (loc.dayOf (unixSecond now) * 86400)
  have hclock := loc.bounded (loc.midnight (loc.dayOf (unixSecond now)))
  have hfirst := date_near loc
    (loc.clock (loc.midnight (loc.dayOf (unixSecond now))) + -29 * 86400)
  have hlast := date_near loc (loc.clock (loc.midnight (loc.dayOf (unixSecond now))) + 1 * 86400)
  simp only [Location.AddDate, Location.clock, Location.dayOf, Location.midnight, abs_lt] at *
  have hnow : unixSecond now * 1000000000 ≤ now.nanos ∧
      now.nanos < (unixSecond now + 1) * 1000000000 := by
    unfold unixSecond GoTime.second
    omega
  simp only [GoTime.second, GoTime.day]
  omega

theorem notSetBack_iff {first : ℤ} :
    NotSetBack loc now first ↔
      ¬ loc.midnight first * GoTime.second < now.nanos - 90 * GoTime.day := by
  simp only [NotSetBack, offsetAt, wallClock, Location.midnight, GoTime.second, GoTime.day]
  omega

/-- An accepted window is the latest 30 days, or starts at the midnight of a date. -/
theorem parseReportWindow_ok {LoadLocation : Str → Option Location} {timezone fromText toText : Str}
    (h : parseReportWindow LoadLocation now timezone fromText toText = .ok (start, stop, loc)) :
    (trimSpace fromText = [] ∧
      start = loc.AddDate (loc.midnight (loc.dayOf (unixSecond now))) (-29) ∧
        stop = loc.AddDate (loc.midnight (loc.dayOf (unixSecond now))) 1) ∨
      ∃ first, parseDate (trimSpace fromText) = some first ∧ start = loc.midnight first ∧
        start < stop := by
  unfold parseReportWindow at h
  split at h
  · cases h
  · split at h
    · cases h
    · dsimp only at h
      split at h
      · rename_i hempty
        simp only [Bool.and_eq_true, decide_eq_true_eq] at hempty
        cases h
        exact Or.inl ⟨hempty.1, rfl, rfl⟩
      · split at h
        · cases h
        · split at h
          · cases h
          · rename_i first hfirst
            split at h
            · cases h
            · rw [checkWindow_ok] at h
              obtain ⟨hlt, -, -, -, hout⟩ := h
              cases hout
              exact Or.inr ⟨first, hfirst, rfl, hlt⟩

/-- An accepted window is retained just when it is the default one, or the clocks were not set
back too far since its first midnight. -/
theorem window_retained_iff {LoadLocation : Str → Option Location} {timezone fromText toText : Str}
    (h : parseReportWindow LoadLocation now timezone fromText toText = .ok (start, stop, loc)) :
    Retained now start stop loc ↔
      ∀ first, parseDate (trimSpace fromText) = some first → NotSetBack loc now first := by
  rcases parseReportWindow_ok h with ⟨hempty, rfl, rfl⟩ | ⟨first, hfirst, rfl, hlt⟩
  · obtain ⟨hlt, hrecent⟩ := default_recent loc now
    constructor
    · intro _ first hfirst
      rw [hempty] at hfirst
      cases hfirst
    · intro _
      exact (retained_iff hlt).mpr hrecent
  · rw [retained_iff hlt, ← notSetBack_iff]
    constructor
    · intro hfar day hday
      obtain rfl := Option.some.inj (hfirst.symm.trans hday)
      exact hfar
    · intro hall
      exact hall first hfirst

theorem window_retained_iff_kolkata :
    ∃ start stop, parseReportWindow zones noon (lit "Asia/Kolkata") (lit "2026-09-05")
        (lit "2026-09-08") = .ok (start, stop, kolkata) ∧
      (Retained noon start stop kolkata ↔
        ∀ first, parseDate (trimSpace (lit "2026-09-05")) = some first →
          NotSetBack kolkata noon first) := by
  have hok : parseReportWindow zones noon (lit "Asia/Kolkata") (lit "2026-09-05")
      (lit "2026-09-08") = .ok (kolkata.midnight 20701, kolkata.midnight 20704, kolkata) := by
    rw [@parseReportWindow_dates kolkata zones noon (lit "Asia/Kolkata") (lit "2026-09-05")
      (lit "2026-09-08") 20701 20704 rfl (by decide) (by decide)
      (by decide), checkWindow_ok]
    exact ⟨by decide, by decide, by decide, by decide, rfl⟩
  exact ⟨_, _, hok, window_retained_iff hok⟩

/-- In a zone without changes every accepted window is retained. -/
theorem notSetBack_of_fixed {offset : ℤ} (h : ∀ t, loc.offset t = offset) {first : ℤ}
    (hfirst : loc.dayOf (unixSecond now) - 89 ≤ first) : NotSetBack loc now first := by
  have hexists := loc.existing (first * 86400 - offset)
  rw [h (first * 86400 - offset), sub_add_cancel, h] at hexists
  simp only [Location.dayOf, Location.clock, h, unixSecond, GoTime.second] at hfirst
  simp only [NotSetBack, offsetAt, wallClock, h, unixSecond, GoTime.second, GoTime.day]
  omega

/-! ## A clock set back -/

/-- `Europe/Berlin` around 25 October 2026, when the clocks go from +02:00 to +01:00. -/
def berlin : Location := oneChange (lit "Europe/Berlin") 1792890000 7200 3600 (by decide)

/-- 10 November 2026, 23:30 in Berlin. -/
def lateEvening : Time := ⟨1794349800 * GoTime.second⟩

/-- The first half hour of 13 August is older than 90 times 24 hours. -/
theorem berlin_window_expired :
    ∃ start stop, parseReportWindow (fun _ => some berlin) lateEvening (lit "Europe/Berlin")
        (lit "2026-08-13") (lit "2026-11-11") = .ok (start, stop, berlin) ∧
      ¬ Retained lateEvening start stop berlin := by
  refine ⟨berlin.midnight 20678, berlin.midnight 20768, ?_, ?_⟩
  · rw [@parseReportWindow_dates berlin (fun _ => some berlin) lateEvening (lit "Europe/Berlin")
      (lit "2026-08-13") (lit "2026-11-11") 20678 20768 rfl (by decide)
      (by decide) (by decide), checkWindow_ok]
    exact ⟨by decide +kernel, by decide +kernel, by decide +kernel, by decide +kernel, rfl⟩
  · rw [retained_iff (by decide)]
    decide

end ReportRetention
