import Mathlib.Algebra.BigOperators.Group.List.Basic
import Mathlib.Data.List.Nodup
import Mathlib.Logic.Function.Iterate
import ShortQ.LocalDays
import ShortQ.Schema

/-! # Reports by local day

`parseReportWindow` and the part of `buildReport` that reads the clicks of the period. Both
walk over the days by adding one calendar day to an instant. -/
namespace ReportDays

open GoText (Str lit trimSpace)
open GoTime (Time)
open LocalDays
open Models
open RowTable
open Schema

/-- Whether the loop ends within this many days. -/
def withinDays (loc : Location) (stop : ℤ) : ℕ → ℤ → Bool
  | 0, day => !(day < stop)
  | n + 1, day => !(day < stop) || withinDays loc stop n (loc.AddDate day 1)

/-- The checks on two dates, whose midnights are `fromLocal` and `toLocal`. -/
def checkWindow (loc : Location) (now : Time) (fromLocal toLocal : ℤ) :
    Except Str (ℤ × ℤ × Location) :=
  if !(fromLocal < toLocal) then .error (lit "from must be before the exclusive to date")
  else
    let today := loc.midnight (loc.dayOf (unixSecond now))
    let oldest := loc.AddDate today (-89)
    if fromLocal < oldest then
      .error (lit "detailed reports are available for the latest 90 local days")
    else if loc.AddDate today 1 < toLocal then .error (lit "to may not be after tomorrow")
    else if !withinDays loc toLocal 90 fromLocal then
      .error (lit "report range may contain at most 90 days")
    else .ok (fromLocal, toLocal, loc)

def zoneName (timezone : Str) : Str :=
  if trimSpace timezone = [] then lit "UTC" else trimSpace timezone

/-- The window of a request, in Unix seconds; the texts are those of the query. -/
def parseReportWindow (LoadLocation : Str → Option Location) (now : Time)
    (timezone fromText toText : Str) : Except Str (ℤ × ℤ × Location) :=
  if 80 < (zoneName timezone).length then .error (lit "timezone is too long")
  else
    match LoadLocation (zoneName timezone) with
    | none => .error (lit "timezone must be a valid IANA name")
    | some loc =>
      let fromDay := trimSpace fromText
      let toDay := trimSpace toText
      if fromDay = [] && toDay = [] then
        let today := loc.midnight (loc.dayOf (unixSecond now))
        .ok (loc.AddDate today (-29), loc.AddDate today 1, loc)
      else if fromDay = [] || toDay = [] then
        .error (lit "from and to must be supplied together")
      else
        match parseDate fromDay with
        | none => .error (lit "from must be YYYY-MM-DD")
        | some first =>
          match parseDate toDay with
          | none => .error (lit "to must be YYYY-MM-DD")
          | some last => checkWindow loc now (loc.midnight first) (loc.midnight last)

inductive Subject where
  | link (id : ℤ)
  | user (id : ℤ)

/-- `reportWhere`. -/
def reportWhere : Subject → LinkRow → Bool
  | .link id, l => l.id = id
  | .user id, l => l.userId = id

/-- The clicks of the period, joined to their links. -/
def periodRows (db : Database) (subject : Subject) (start stop : ℤ) : List ClickRow :=
  db.clicks.rows.filter fun c => (db.link c.linkId).any (reportWhere subject) &&
    (start * GoTime.second ≤ c.createdAt.nanos && c.createdAt.nanos < stop * GoTime.second)

def isSuccessfulRedirect (status : ℤ) (route : Str) : Bool :=
  route ≠ lit "expired" && (status = 301 || status = 302 || status = 307 || status = 308)

structure ReportDailyPoint where
  day : Str
  clicks : ℤ := 0
  human : ℤ := 0
  bots : ℤ := 0
  deriving DecidableEq, Repr

structure ReportSummary where
  periodClicks : ℤ := 0
  humanClicks : ℤ := 0
  botClicks : ℤ := 0
  expiredAttempts : ℤ := 0
  peakDay : Str := []
  peakDayClicks : ℤ := 0
  deriving DecidableEq, Repr

/-- `daily` is the map from the printed dates to their points. -/
structure Tally where
  summary : ReportSummary
  daily : Str → Option ReportDailyPoint

/-- The days of the loops, as instants; none when there are more than `n`. -/
def marks (loc : Location) (stop : ℤ) : ℕ → ℤ → Option (List ℤ)
  | 0, day => if day < stop then none else some []
  | n + 1, day =>
    if day < stop then (marks loc stop n (loc.AddDate day 1)).map (day :: ·) else some []

def keyOf (loc : Location) (t : ℤ) : Str := formatDate (loc.dayOf t)

/-- The first loop makes the points. -/
def emptyDaily (loc : Location) (days : List ℤ) : Str → Option ReportDailyPoint :=
  days.foldl (fun daily day => Function.update daily (keyOf loc day)
    (some { day := keyOf loc day }))
    fun _ => none

def ReportDailyPoint.count (p : ReportDailyPoint) (bot : Bool) : ReportDailyPoint :=
  if bot then { p with clicks := p.clicks + 1, bots := p.bots + 1 }
  else { p with clicks := p.clicks + 1, human := p.human + 1 }

def ReportSummary.count (s : ReportSummary) (bot : Bool) : ReportSummary :=
  if bot then { s with periodClicks := s.periodClicks + 1, botClicks := s.botClicks + 1 }
  else { s with periodClicks := s.periodClicks + 1, humanClicks := s.humanClicks + 1 }

def countRow (loc : Location) (tally : Tally) (c : ClickRow) : Tally :=
  let summary :=
    if c.routeType = lit "expired" || c.statusCode = 410 then
      { tally.summary with expiredAttempts := tally.summary.expiredAttempts + 1 }
    else tally.summary
  if !isSuccessfulRedirect c.statusCode c.routeType then { tally with summary := summary }
  else
    let key := keyOf loc (unixSecond c.createdAt)
    { summary := summary.count c.isBot
      daily := match tally.daily key with
        | none => tally.daily
        | some point => Function.update tally.daily key (some (point.count c.isBot)) }

/-- The last loop finds the peak. -/
def addPeak (s : ReportSummary) (p : ReportDailyPoint) : ReportSummary :=
  if s.peakDayClicks < p.clicks then { s with peakDayClicks := p.clicks, peakDay := p.day } else s

structure AnalyticsReport where
  fromDate : Str
  toDate : Str
  timezone : Str
  detailRetainedDays : ℤ
  summary : ReportSummary
  daily : List ReportDailyPoint

/-- None when a loop goes over more than `n` days, or for a day without a point. -/
def buildReport (n : ℕ) (db : Database) (subject : Subject) (start stop : ℤ) (loc : Location) :
    Option AnalyticsReport := do
  let days ← marks loc stop n start
  let tally := (periodRows db subject start stop).foldl (countRow loc) ⟨{}, emptyDaily loc days⟩
  let daily ← days.mapM fun day => tally.daily (keyOf loc day)
  some
    { fromDate := keyOf loc start
      toDate := keyOf loc stop
      timezone := loc.name
      detailRetainedDays := 90
      summary := daily.foldl addPeak tally.summary
      daily := daily }

/-! ## The days of the loops -/

variable {loc : Location}

/-- The mark of the loop after `k` days. -/
def mark (loc : Location) (start : ℤ) (k : ℕ) : ℤ := (loc.AddDate · 1)^[k] start

theorem mark_succ (start : ℤ) (k : ℕ) :
    mark loc start (k + 1) = mark loc (loc.AddDate start 1) k := by
  rw [mark, Function.iterate_succ_apply]
  rfl

/-- The loop goes over the marks before its end. -/
theorem marks_eq_some {stop : ℤ} {n : ℕ} {start : ℤ} {days : List ℤ} :
    marks loc stop n start = some days ↔ days.length ≤ n ∧
      days = (List.range days.length).map (mark loc start) ∧
        (∀ k < days.length, mark loc start k < stop) ∧ ¬ mark loc start days.length < stop := by
  induction n generalizing start days with
  | zero =>
    by_cases h : start < stop
    · simp only [marks, if_pos h]
      constructor
      · intro hnone
        cases hnone
      · rintro ⟨hlength, -, -, hend⟩
        rw [Nat.le_zero.mp hlength] at hend
        exact absurd h hend
    · simp only [marks, if_neg h, Option.some.injEq]
      constructor
      · rintro rfl
        exact ⟨le_refl 0, rfl, fun k hk => absurd hk (Nat.not_lt_zero k), h⟩
      · rintro ⟨hlength, -, -, -⟩
        exact (List.length_eq_zero_iff.mp (Nat.le_zero.mp hlength)).symm
  | succ n ih =>
    by_cases h : start < stop
    · simp only [marks, if_pos h, Option.map_eq_some_iff]
      constructor
      · rintro ⟨rest, hrest, rfl⟩
        obtain ⟨hlength, hrest, hbefore, hend⟩ := ih.mp hrest
        refine ⟨Nat.succ_le_succ hlength, ?_, fun k hk => ?_, ?_⟩
        · rw [List.length_cons, List.range_succ_eq_map, List.map_cons, List.map_map]
          refine congrArg₂ List.cons rfl (hrest.trans ?_)
          exact List.map_congr_left fun k _ => (mark_succ start k).symm
        · cases k with
          | zero => exact h
          | succ k =>
            rw [mark_succ]
            exact hbefore k (Nat.lt_of_succ_lt_succ hk)
        · rw [List.length_cons, mark_succ]
          exact hend
      · rintro ⟨hlength, hdays, hbefore, hend⟩
        cases days with
        | nil => exact absurd h hend
        | cons day rest =>
          rw [List.length_cons, List.range_succ_eq_map, List.map_cons, List.map_map,
            List.cons.injEq] at hdays
          refine ⟨rest, ih.mpr ⟨Nat.le_of_succ_le_succ hlength, ?_, fun k hk => ?_, ?_⟩, ?_⟩
          · refine hdays.2.trans ?_
            exact List.map_congr_left fun k _ => mark_succ start k
          · rw [← mark_succ]
            exact hbefore (k + 1) (Nat.succ_lt_succ hk)
          · rw [← mark_succ]
            exact hend
          · exact congrArg (· :: rest) hdays.1.symm
    · simp only [marks, if_neg h, Option.some.injEq]
      constructor
      · rintro rfl
        exact ⟨Nat.zero_le _, rfl, fun k hk => absurd hk (Nat.not_lt_zero k), h⟩
      · rintro ⟨-, -, hbefore, -⟩
        by_contra hne
        exact h (hbefore 0 (List.length_pos_iff.mpr (Ne.symm hne)))

theorem withinDays_eq {stop : ℤ} {n : ℕ} {start : ℤ} :
    withinDays loc stop n start = (marks loc stop n start).isSome := by
  induction n generalizing start with
  | zero =>
    by_cases h : start < stop <;> simp [withinDays, marks, h]
  | succ n ih =>
    by_cases h : start < stop <;> simp [withinDays, marks, h, ih]

/-! ## Counting the rows -/

def successful (c : ClickRow) : Bool := isSuccessfulRedirect c.statusCode c.routeType

def clickKey (loc : Location) (c : ClickRow) : Str := keyOf loc (unixSecond c.createdAt)

/-- What the rows count for one printed date. -/
def pointOf (loc : Location) (rows : List ClickRow) (key : Str) : ReportDailyPoint where
  day := key
  clicks := rows.countP fun c => successful c && clickKey loc c = key
  human := rows.countP fun c => (successful c && !c.isBot) && clickKey loc c = key
  bots := rows.countP fun c => (successful c && c.isBot) && clickKey loc c = key

theorem emptyDaily_eq (days : List ℤ) (key : Str) :
    emptyDaily loc days key =
      if key ∈ days.map (keyOf loc) then some (pointOf loc [] key) else none := by
  induction days using List.reverseRecOn with
  | nil => rfl
  | append_singleton days day ih =>
    rw [emptyDaily, List.foldl_append, List.foldl_cons, List.foldl_nil, List.map_append,
      List.map_singleton]
    by_cases h : key = keyOf loc day
    · rw [h, Function.update_self, if_pos (by simp)]
      rfl
    · rw [Function.update_of_ne h]
      refine ih.trans ?_
      simp [h]

/-- What the summary counts besides the attempts on expired links. -/
structure Counted (rows : List ClickRow) (s : ReportSummary) : Prop where
  period : s.periodClicks = rows.countP successful
  human : s.humanClicks = rows.countP fun c => successful c && !c.isBot
  bots : s.botClicks = rows.countP fun c => successful c && c.isBot

theorem pointOf_other {rows : List ClickRow} {c : ClickRow} {key : Str}
    (h : ¬ (successful c = true ∧ clickKey loc c = key)) :
    pointOf loc (rows ++ [c]) key = pointOf loc rows key := by
  have hnone : ∀ p : ClickRow → Bool,
      ((successful c && p c) && decide (clickKey loc c = key)) = false := by
    intro p
    by_contra hboth
    simp only [Bool.not_eq_false, Bool.and_eq_true, decide_eq_true_eq] at hboth
    exact h ⟨hboth.1.1, hboth.2⟩
  have hplain : (successful c && decide (clickKey loc c = key)) = false := by
    simpa using hnone fun _ => true
  simp only [pointOf, List.countP_append, List.countP_singleton, hplain, hnone fun c => c.isBot,
    hnone fun c => !c.isBot]
  simp

theorem pointOf_own {rows : List ClickRow} {c : ClickRow} (h : successful c = true) :
    pointOf loc (rows ++ [c]) (clickKey loc c) =
      (pointOf loc rows (clickKey loc c)).count c.isBot := by
  cases hbot : c.isBot <;>
    simp [pointOf, ReportDailyPoint.count, List.countP_append, h, hbot]

theorem Counted.same {rows : List ClickRow} {c : ClickRow} {s t : ReportSummary}
    (h : Counted rows s) (hc : successful c = false) (hperiod : t.periodClicks = s.periodClicks)
    (hhuman : t.humanClicks = s.humanClicks) (hbots : t.botClicks = s.botClicks) :
    Counted (rows ++ [c]) t := by
  constructor
  · simp [hperiod, h.period, List.countP_append, hc]
  · simp [hhuman, h.human, List.countP_append, hc]
  · simp [hbots, h.bots, List.countP_append, hc]

theorem Counted.count {rows : List ClickRow} {c : ClickRow} {s t : ReportSummary}
    (h : Counted rows s) (hc : successful c = true) (hperiod : t.periodClicks = s.periodClicks)
    (hhuman : t.humanClicks = s.humanClicks) (hbots : t.botClicks = s.botClicks) :
    Counted (rows ++ [c]) (t.count c.isBot) := by
  cases hbot : c.isBot
  all_goals
    constructor
    · simp [ReportSummary.count, hperiod, h.period, List.countP_append, hc]
    · simp [ReportSummary.count, hhuman, h.human, List.countP_append, hc, hbot]
    · simp [ReportSummary.count, hbots, h.bots, List.countP_append, hc, hbot]

theorem tally_rows (days : List ℤ) (rows : List ClickRow) :
    Counted rows (rows.foldl (countRow loc) ⟨{}, emptyDaily loc days⟩).summary ∧
      ∀ key, (rows.foldl (countRow loc) ⟨{}, emptyDaily loc days⟩).daily key =
        if key ∈ days.map (keyOf loc) then some (pointOf loc rows key) else none := by
  induction rows using List.reverseRecOn with
  | nil => exact ⟨⟨rfl, rfl, rfl⟩, emptyDaily_eq days⟩
  | append_singleton rows c ih =>
    rw [List.foldl_append, List.foldl_cons, List.foldl_nil]
    generalize rows.foldl (countRow loc) ⟨{}, emptyDaily loc days⟩ = tally at ih ⊢
    obtain ⟨hcounted, hdaily⟩ := ih
    -- an attempt on an expired link moves none of the three counters
    obtain ⟨s, hs, hperiod, hhuman, hbots⟩ : ∃ s, s =
        (if c.routeType = lit "expired" || c.statusCode = 410 then
          { tally.summary with expiredAttempts := tally.summary.expiredAttempts + 1 }
        else tally.summary) ∧ s.periodClicks = tally.summary.periodClicks ∧
          s.humanClicks = tally.summary.humanClicks ∧ s.botClicks = tally.summary.botClicks := by
      refine ⟨_, rfl, ?_⟩
      split
      · exact ⟨rfl, rfl, rfl⟩
      · exact ⟨rfl, rfl, rfl⟩
    by_cases hc : successful c = true
    · have hstep : countRow loc tally c = ⟨s.count c.isBot,
          match tally.daily (clickKey loc c) with
          | none => tally.daily
          | some point => Function.update tally.daily (clickKey loc c)
              (some (point.count c.isBot))⟩ := by
        rw [countRow, ← hs, if_neg]
        · rfl
        · simpa [successful] using hc
      rw [hstep]
      refine ⟨hcounted.count hc hperiod hhuman hbots, fun key => ?_⟩
      have hget := hdaily (clickKey loc c)
      by_cases hmem : clickKey loc c ∈ days.map (keyOf loc)
      · rw [if_pos hmem] at hget
        rw [hget]
        dsimp only
        by_cases hkey : key = clickKey loc c
        · rw [hkey, Function.update_self, if_pos hmem, pointOf_own hc]
        · rw [Function.update_of_ne hkey, hdaily, pointOf_other fun h => hkey h.2.symm]
      · rw [if_neg hmem] at hget
        rw [hget]
        dsimp only
        by_cases hkey : key = clickKey loc c
        · rw [hkey, hget, if_neg hmem]
        · rw [hdaily, pointOf_other fun h => hkey h.2.symm]
    · have hfalse : successful c = false := by simpa using hc
      have hstep : countRow loc tally c = { tally with summary := s } := by
        rw [countRow, ← hs, if_pos]
        simpa [successful] using hfalse
      rw [hstep]
      refine ⟨hcounted.same hfalse hperiod hhuman hbots, fun key => ?_⟩
      rw [pointOf_other fun h => hc h.1]
      exact hdaily key

theorem addPeak_counted {rows : List ClickRow} {s : ReportSummary} (h : Counted rows s)
    (points : List ReportDailyPoint) : Counted rows (points.foldl addPeak s) := by
  induction points generalizing s with
  | nil => exact h
  | cons p points ih =>
    refine ih ?_
    unfold addPeak
    split
    · exact ⟨h.period, h.human, h.bots⟩
    · exact h

theorem mapM_points {daily : Str → Option ReportDailyPoint} {point : Str → ReportDailyPoint}
    {days : List ℤ} (h : ∀ day ∈ days, daily (keyOf loc day) = some (point (keyOf loc day))) :
    days.mapM (fun day => daily (keyOf loc day)) =
      some (days.map fun day => point (keyOf loc day)) := by
  induction days with
  | nil => rfl
  | cons day days ih =>
    rw [List.mapM_cons, h day List.mem_cons_self, ih fun d hd => h d (List.mem_cons_of_mem day hd)]
    rfl

/-- The report over the days of the loops. -/
theorem buildReport_spec {n : ℕ} {db : Database} {subject : Subject} {start stop : ℤ}
    {days : List ℤ} (h : marks loc stop n start = some days) :
    ∃ report, buildReport n db subject start stop loc = some report ∧
      report.fromDate = keyOf loc start ∧ report.toDate = keyOf loc stop ∧
        report.daily = days.map (fun day => pointOf loc (periodRows db subject start stop)
          (keyOf loc day)) ∧
          Counted (periodRows db subject start stop) report.summary := by
  obtain ⟨hcounted, hdaily⟩ := @tally_rows loc days (periodRows db subject start stop)
  have hpoints := mapM_points fun day hday =>
    (hdaily (keyOf loc day)).trans (if_pos (List.mem_map_of_mem hday))
  simp only [buildReport, h, Option.bind_eq_bind, Option.bind_some, hpoints]
  exact ⟨_, rfl, rfl, rfl, rfl, addPeak_counted hcounted _⟩

/-! ## Points and sums -/

theorem countP_or {α : Type*} {p q : α → Bool} (h : ∀ a, p a = true → q a = true → False)
    (l : List α) : l.countP (fun a => p a || q a) = l.countP p + l.countP q := by
  induction l with
  | nil => rfl
  | cons a l ih =>
    rw [List.countP_cons, List.countP_cons, List.countP_cons, ih]
    have hboth := h a
    cases hp : p a <;> cases hq : q a
    · simp
    · simp
      omega
    · simp
      omega
    · exact absurd hq (fun _ => hboth hp hq)

/-- Over distinct keys the elements are counted once each. -/
theorem sum_countP {α κ : Type*} [DecidableEq κ] [BEq κ] [LawfulBEq κ] {rows : List α}
    (p : α → Bool) (key : α → κ) {keys : List κ} (h : keys.Nodup) :
    (keys.map fun k => ((rows.countP fun c => p c && decide (key c = k) : ℕ) : ℤ)).sum =
      (rows.countP fun c => p c && decide (key c ∈ keys) : ℕ) := by
  induction keys with
  | nil => simp
  | cons k keys ih =>
    obtain ⟨hk, hkeys⟩ := List.nodup_cons.mp h
    have hsplit : (fun c => p c && decide (key c ∈ k :: keys)) = fun c =>
        (p c && decide (key c = k)) || (p c && decide (key c ∈ keys)) := by
      funext c
      cases p c <;> simp
    rw [List.map_cons, List.sum_cons, ih hkeys, hsplit, countP_or, Nat.cast_add]
    intro c hown hother
    simp only [Bool.and_eq_true, decide_eq_true_eq] at hown hother
    exact hk (hown.2 ▸ hother.2)

/-! ## When the days are partitioned -/

/-- The dates from `first` on and before `last`. -/
def datesFrom (first last : ℤ) : List Str :=
  (List.range (last - first).toNat).map fun k : ℕ => formatDate (first + k)

structure Partitions (report : AnalyticsReport) (fromText toText : Str) (first last : ℤ) :
    Prop where
  fromDate : report.fromDate = fromText
  toDate : report.toDate = toText
  days : report.daily.map ReportDailyPoint.day = datesFrom first last
  clicks : (report.daily.map ReportDailyPoint.clicks).sum = report.summary.periodClicks
  human : (report.daily.map ReportDailyPoint.human).sum = report.summary.humanClicks
  bots : (report.daily.map ReportDailyPoint.bots).sum = report.summary.botClicks

/-- The window is accepted, and its report gives every date its clicks. -/
def Partitioned (LoadLocation : Str → Option Location) (now : Time) (timezone fromText toText : Str)
    (db : Database) (subject : Subject) (first last : ℤ) : Prop :=
  ∃ start stop loc,
    parseReportWindow LoadLocation now timezone fromText toText = .ok (start, stop, loc) ∧
      ∀ n, 90 ≤ n → ∃ report, buildReport n db subject start stop loc = some report ∧
        Partitions report (trimSpace fromText) (trimSpace toText) first last

/-- `time.Date` answers a local time with an instant on the same date. -/
def KeepsDate (loc : Location) (l : ℤ) : Prop := loc.dayOf (loc.Date l) = l / 86400

/-- The local times that `time.Date` is asked for: the two midnights, and on each day between
them the clock of the mark before. -/
def asked (loc : Location) (first last : ℤ) : List ℤ :=
  first * 86400 :: last * 86400 :: (List.range ((last - first).toNat - 1)).map fun k =>
    loc.clock (mark loc (loc.midnight first) k) + 86400

structure Steady (loc : Location) (now : Time) (db : Database) (subject : Subject)
    (first last : ℤ) : Prop where
  kept : ∀ l ∈ asked loc first last, KeepsDate loc l
  before : ∀ k < (last - first).toNat, mark loc (loc.midnight first) k < loc.midnight last
  after : ¬ mark loc (loc.midnight first) (last - first).toNat < loc.midnight last
  oldest : ¬ loc.midnight first <
    loc.AddDate (loc.midnight (loc.dayOf (unixSecond now))) (-89)
  newest : ¬ loc.AddDate (loc.midnight (loc.dayOf (unixSecond now))) 1 < loc.midnight last
  clicks : ∀ c ∈ periodRows db subject (loc.midnight first) (loc.midnight last),
    successful c = true → first ≤ loc.dayOf (unixSecond c.createdAt) ∧
      loc.dayOf (unixSecond c.createdAt) < last

theorem mark_next (start : ℤ) (k : ℕ) :
    mark loc start (k + 1) = loc.AddDate (mark loc start k) 1 :=
  Function.iterate_succ_apply' (loc.AddDate · 1) k start

theorem mem_datesFrom {first last day : ℤ} (hfirst : FourDigits first) (hlast : FourDigits last) :
    formatDate day ∈ datesFrom first last ↔ first ≤ day ∧ day < last := by
  simp only [datesFrom, List.mem_map, List.mem_range]
  constructor
  · rintro ⟨k, hk, heq⟩
    have hday : day = first + (k : ℤ) := by
      refine formatDate_inj ?_ heq.symm
      have h₁ := hfirst.1
      have h₂ := hlast.2
      exact ⟨by omega, by omega⟩
    omega
  · rintro ⟨hle, hlt⟩
    exact ⟨(day - first).toNat, by omega, by rw [Int.toNat_of_nonneg (by omega)]; congr 1; omega⟩

theorem nodup_datesFrom {first last : ℤ} (hfirst : FourDigits first) (hlast : FourDigits last) :
    (datesFrom first last).Nodup := by
  refine List.Nodup.map_on (fun k hk l hl heq => ?_) List.nodup_range
  rw [List.mem_range] at hk hl
  have h₁ := hfirst.1
  have h₂ := hlast.2
  have hday := @formatDate_inj (first + (k : ℤ)) (first + (l : ℤ)) ⟨by omega, by omega⟩ heq
  omega

/-- The marks are printed as the dates just when they are on them. -/
theorem keys_eq_dates {first last : ℤ} (hfirst : FourDigits first) (hlast : FourDigits last)
    (h : first < last) {start : ℤ} {days : List ℤ}
    (hdays : days = (List.range days.length).map (mark loc start)) :
    days.map (keyOf loc) = datesFrom first last ↔ days.length = (last - first).toNat ∧
      ∀ k < (last - first).toNat, loc.dayOf (mark loc start k) = first + k := by
  have h₁ := hfirst.1
  have h₂ := hlast.2
  constructor
  · intro hkeys
    have hlength : days.length = (last - first).toNat := by
      have hcount := congrArg List.length hkeys
      simpa [datesFrom] using hcount
    refine ⟨hlength, fun k hk => ?_⟩
    rw [hdays, List.map_map, datesFrom, hlength] at hkeys
    have hkey := List.map_inj_left.mp hkeys k (List.mem_range.mpr hk)
    exact formatDate_inj ⟨by omega, by omega⟩ hkey
  · rintro ⟨hlength, hmarks⟩
    rw [hdays, List.map_map, datesFrom, hlength]
    refine List.map_congr_left fun k hk => ?_
    exact congrArg formatDate (hmarks k (List.mem_range.mp hk))

theorem keepsDate_next {t : ℤ} :
    KeepsDate loc (loc.clock t + 86400) ↔ loc.dayOf (loc.AddDate t 1) = loc.dayOf t + 1 := by
  have hday : (loc.clock t + 86400) / 86400 = loc.dayOf t + 1 := by
    unfold Location.dayOf
    omega
  rw [KeepsDate, hday, Location.AddDate, one_mul]

theorem keepsDate_midnight {day : ℤ} :
    KeepsDate loc (day * 86400) ↔ loc.dayOf (loc.midnight day) = day := by
  rw [KeepsDate, Location.midnight, Int.mul_ediv_cancel day (by decide)]

/-- The marks are on one date after another. -/
theorem kept_iff {first last : ℤ} (h : first < last) :
    (∀ l ∈ asked loc first last, KeepsDate loc l) ↔
      loc.dayOf (loc.midnight last) = last ∧ ∀ k < (last - first).toNat,
        loc.dayOf (mark loc (loc.midnight first) k) = first + k := by
  constructor
  · intro hkept
    refine ⟨keepsDate_midnight.mp (hkept _ (by simp [asked])), fun k hk => ?_⟩
    induction k with
    | zero =>
      rw [Nat.cast_zero, add_zero]
      exact keepsDate_midnight.mp (hkept _ (by simp [asked]))
    | succ k ih =>
      have hasked : loc.clock (mark loc (loc.midnight first) k) + 86400 ∈ asked loc first last := by
        refine List.mem_cons_of_mem _ (List.mem_cons_of_mem _ (List.mem_map.mpr ⟨k, ?_, rfl⟩))
        exact List.mem_range.mpr (by omega)
      rw [mark_next, keepsDate_next.mp (hkept _ hasked), ih (by omega)]
      omega
  · rintro ⟨hlast, hmarks⟩ l hl
    simp only [asked, List.mem_cons, List.mem_map, List.mem_range] at hl
    rcases hl with rfl | rfl | ⟨k, hk, rfl⟩
    · have hzero := hmarks 0 (by omega)
      rw [Nat.cast_zero, add_zero] at hzero
      exact keepsDate_midnight.mpr hzero
    · exact keepsDate_midnight.mpr hlast
    · rw [keepsDate_next, ← mark_next, hmarks (k + 1) (by omega), hmarks k (by omega)]
      omega

section Request

variable {LoadLocation : Str → Option Location} {now : Time} {timezone fromText toText : Str}
  {db : Database} {subject : Subject} {first last : ℤ}

theorem parseReportWindow_dates (hzone : LoadLocation (zoneName timezone) = some loc)
    (hshort : (zoneName timezone).length ≤ 80) (hfrom : parseDate (trimSpace fromText) = some first)
    (hto : parseDate (trimSpace toText) = some last) :
    parseReportWindow LoadLocation now timezone fromText toText =
      checkWindow loc now (loc.midnight first) (loc.midnight last) := by
  have hne {s : Str} {day : ℤ} (h : parseDate s = some day) : s ≠ [] := by
    rintro rfl
    cases h
  simp only [parseReportWindow, if_neg (Nat.not_lt.mpr hshort), hzone, hfrom, hto,
    decide_eq_false (hne hfrom), decide_eq_false (hne hto), Bool.false_and, Bool.or_self,
    Bool.false_eq_true, if_false]

theorem checkWindow_ok {fromLocal toLocal : ℤ} {out : ℤ × ℤ × Location} :
    checkWindow loc now fromLocal toLocal = .ok out ↔ fromLocal < toLocal ∧
      ¬ fromLocal < loc.AddDate (loc.midnight (loc.dayOf (unixSecond now))) (-89) ∧
        ¬ loc.AddDate (loc.midnight (loc.dayOf (unixSecond now))) 1 < toLocal ∧
          (marks loc toLocal 90 fromLocal).isSome ∧ out = (fromLocal, toLocal, loc) := by
  rw [← withinDays_eq]
  unfold checkWindow
  by_cases horder : fromLocal < toLocal
  · by_cases hold :
        fromLocal < loc.AddDate (loc.midnight (loc.dayOf (unixSecond now))) (-89)
    · simp [horder, hold]
    · by_cases hnew : loc.AddDate (loc.midnight (loc.dayOf (unixSecond now))) 1 < toLocal
      · simp [horder, hold, hnew]
      · cases hdays : withinDays loc toLocal 90 fromLocal <;>
          simp [horder, hold, hnew, eq_comm]
  · simp [horder]

/-- Over the marks the points add up just when every click counted is on one of the dates. -/
theorem sums_iff {rows : List ClickRow} {keys : List Str} (h : keys.Nodup) :
    ((keys.map fun key => (pointOf loc rows key).clicks).sum = rows.countP successful ↔
        ∀ c ∈ rows, successful c = true → clickKey loc c ∈ keys) ∧
      ((∀ c ∈ rows, successful c = true → clickKey loc c ∈ keys) →
        (keys.map fun key => (pointOf loc rows key).human).sum =
            (rows.countP fun c => successful c && !c.isBot) ∧
          (keys.map fun key => (pointOf loc rows key).bots).sum =
            (rows.countP fun c => successful c && c.isBot)) := by
  have hsum (p : ClickRow → Bool) := @sum_countP _ _ _ _ _ rows p (clickKey loc) keys h
  have hall {p : ClickRow → Bool} (hp : ∀ c ∈ rows, p c = true → clickKey loc c ∈ keys) :
      (rows.countP fun c => p c && decide (clickKey loc c ∈ keys)) = rows.countP p := by
    refine List.countP_congr fun c hc => ?_
    simp only [Bool.and_eq_true, decide_eq_true_eq, and_iff_left_iff_imp]
    exact hp c hc
  refine ⟨⟨fun heq => ?_, fun hkeys => ?_⟩, fun hkeys => ⟨?_, ?_⟩⟩
  · have hcounts : (rows.countP fun c => successful c && decide (clickKey loc c ∈ keys)) =
        rows.countP successful := Int.ofNat.inj ((hsum successful).symm.trans heq)
    have hfilter : (rows.filter successful).countP (fun c => decide (clickKey loc c ∈ keys)) =
        (rows.filter successful).length := by
      rw [List.countP_filter, ← List.countP_eq_length_filter, ← hcounts]
      exact congrArg (List.countP · rows) (funext fun c => Bool.and_comm _ _)
    intro c hc hp
    exact of_decide_eq_true (List.countP_eq_length.mp hfilter c (List.mem_filter.mpr ⟨hc, hp⟩))
  · exact (hsum successful).trans (congrArg Nat.cast (hall hkeys))
  · refine (hsum fun c => successful c && !c.isBot).trans (congrArg Nat.cast (hall ?_))
    intro c hc hp
    exact hkeys c hc (Bool.and_eq_true_iff.mp hp).1
  · refine (hsum fun c => successful c && c.isBot).trans (congrArg Nat.cast (hall ?_))
    intro c hc hp
    exact hkeys c hc (Bool.and_eq_true_iff.mp hp).1

/-- The report of a window partitions the dates just when the marks are on them and every click
counted is. -/
theorem partitions_iff (hfrom : parseDate (trimSpace fromText) = some first)
    (hto : parseDate (trimSpace toText) = some last) (hlt : first < last) {n : ℕ}
    {days : List ℤ} (hmarks : marks loc (loc.midnight last) n (loc.midnight first) = some days) :
    (∃ report, buildReport n db subject (loc.midnight first) (loc.midnight last) loc =
        some report ∧ Partitions report (trimSpace fromText) (trimSpace toText) first last) ↔
      loc.dayOf (loc.midnight last) = last ∧ days.length = (last - first).toNat ∧
        (∀ k < (last - first).toNat, loc.dayOf (mark loc (loc.midnight first) k) = first + k) ∧
          ∀ c ∈ periodRows db subject (loc.midnight first) (loc.midnight last),
            successful c = true → first ≤ loc.dayOf (unixSecond c.createdAt) ∧
              loc.dayOf (unixSecond c.createdAt) < last := by
  have hfirst := fourDigits_of_parse hfrom
  have hlast := fourDigits_of_parse hto
  have hdays := (marks_eq_some.mp hmarks).2.1
  obtain ⟨report, hbuild, hreportFrom, hreportTo, hdaily, hcounted⟩ :=
    @buildReport_spec loc n db subject _ _ days hmarks
  have hpoints (f : ReportDailyPoint → ℤ) : report.daily.map f =
      (days.map (keyOf loc)).map fun key => f (pointOf loc
        (periodRows db subject (loc.midnight first) (loc.midnight last)) key) := by
    rw [hdaily, List.map_map, List.map_map]
    rfl
  have hnames : report.daily.map ReportDailyPoint.day = days.map (keyOf loc) := by
    rw [hdaily, List.map_map]
    rfl
  have hmem (c : ClickRow) : clickKey loc c ∈ datesFrom first last ↔
      first ≤ loc.dayOf (unixSecond c.createdAt) ∧ loc.dayOf (unixSecond c.createdAt) < last :=
    mem_datesFrom hfirst hlast
  have hsums := @sums_iff loc
    (periodRows db subject (loc.midnight first) (loc.midnight last)) _
    (nodup_datesFrom hfirst hlast)
  constructor
  · rintro ⟨report', hbuild', hpart⟩
    obtain rfl := Option.some.inj (hbuild.symm.trans hbuild')
    have hkeys : days.map (keyOf loc) = datesFrom first last := hnames.symm.trans hpart.days
    obtain ⟨hlength, hon⟩ := (keys_eq_dates hfirst hlast hlt hdays).mp hkeys
    refine ⟨formatDate_inj hlast ?_, hlength, hon, fun c hc hsuccess => (hmem c).mp ?_⟩
    · rw [formatDate_of_parse hto, ← hpart.toDate, hreportTo]
      rfl
    · have hsum := hpart.clicks
      rw [hpoints, hkeys, hcounted.period] at hsum
      exact hsums.1.mp hsum c hc hsuccess
  · rintro ⟨hend, hlength, hon, hclicks⟩
    have hkeys := (keys_eq_dates hfirst hlast hlt hdays).mpr ⟨hlength, hon⟩
    have hall := fun c hc hsuccess => (hmem c).mpr (hclicks c hc hsuccess)
    have hzero : loc.dayOf (loc.midnight first) = first := by
      have hstart := hon 0 (by omega)
      rwa [Nat.cast_zero, add_zero] at hstart
    refine ⟨report, hbuild, ?_, ?_, hnames.trans hkeys, ?_, ?_, ?_⟩
    · rw [hreportFrom, keyOf, hzero, formatDate_of_parse hfrom]
    · rw [hreportTo, keyOf, hend, formatDate_of_parse hto]
    · rw [hpoints, hkeys, hcounted.period]
      exact hsums.1.mpr hall
    · rw [hpoints, hkeys, hcounted.human]
      exact (hsums.2 hall).1
    · rw [hpoints, hkeys, hcounted.bots]
      exact (hsums.2 hall).2

/-- Of dates that lie within the days on offer, the window is accepted and its report partitions
them if and only if `time.Date` keeps the dates it is asked for, their instants come in order
and today's lie around them, and no counted click was made on another date. -/
theorem report_partitions_days (hzone : LoadLocation (zoneName timezone) = some loc)
    (hshort : (zoneName timezone).length ≤ 80)
    (hfrom : parseDate (trimSpace fromText) = some first)
    (hto : parseDate (trimSpace toText) = some last) (hlt : first < last)
    (hold : loc.dayOf (unixSecond now) - 89 ≤ first)
    (hnew : last ≤ loc.dayOf (unixSecond now) + 1) :
    Partitioned LoadLocation now timezone fromText toText db subject first last ↔
      Steady loc now db subject first last := by
  have hparse := @parseReportWindow_dates loc LoadLocation now timezone fromText toText first last
    hzone hshort hfrom hto
  constructor
  · rintro ⟨start, stop, loc', hok, hreport⟩
    rw [hparse, checkWindow_ok] at hok
    obtain ⟨-, holdest, hnewest, hdays, hout⟩ := hok
    simp only [Prod.mk.injEq] at hout
    obtain ⟨rfl, rfl, rfl⟩ := hout
    obtain ⟨days, hmarks⟩ := Option.isSome_iff_exists.mp hdays
    obtain ⟨hend, hlength, hon, hclicks⟩ :=
      (partitions_iff hfrom hto hlt hmarks).mp (hreport 90 (le_refl 90))
    obtain ⟨-, -, hbefore, hafter⟩ := marks_eq_some.mp hmarks
    rw [hlength] at hbefore hafter
    exact ⟨(kept_iff hlt).mpr ⟨hend, hon⟩, hbefore, hafter, holdest, hnewest, hclicks⟩
  · rintro ⟨hkept, hbefore, hafter, holdest, hnewest, hclicks⟩
    obtain ⟨hend, hon⟩ := (kept_iff hlt).mp hkept
    have hmarks (n : ℕ) (hn : 90 ≤ n) : marks loc (loc.midnight last) n (loc.midnight first) =
        some ((List.range (last - first).toNat).map (mark loc (loc.midnight first))) := by
      rw [marks_eq_some]
      simp only [List.length_map, List.length_range]
      exact ⟨by omega, trivial, hbefore, hafter⟩
    refine ⟨loc.midnight first, loc.midnight last, loc, ?_, fun n hn => ?_⟩
    · rw [hparse, checkWindow_ok, hmarks 90 (le_refl 90)]
      exact ⟨hbefore 0 (by omega), holdest, hnewest, rfl, rfl⟩
    · refine (partitions_iff hfrom hto hlt (hmarks n hn)).mpr ⟨hend, ?_, hon, hclicks⟩
      rw [List.length_map, List.length_range]

end Request

/-! ## Zones without changes -/

/-- A zone whose offset never changes meets the condition. -/
theorem steady_of_fixed {offset : ℤ} (h : ∀ t, loc.offset t = offset) {now : Time} {db : Database}
    {subject : Subject} {first last : ℤ} (hlt : first < last)
    (hold : loc.dayOf (unixSecond now) - 89 ≤ first)
    (hnew : last ≤ loc.dayOf (unixSecond now) + 1) : Steady loc now db subject first last := by
  have hdate (l : ℤ) : loc.Date l = l - offset := by
    have hexists := loc.existing (l - offset)
    rw [h (l - offset), sub_add_cancel, h] at hexists
    omega
  have hmidnight (day : ℤ) : loc.midnight day = day * 86400 - offset := hdate _
  have hclock (t : ℤ) : loc.clock t = t + offset := by rw [Location.clock, h]
  have hadd (t days : ℤ) : loc.AddDate t days = t + days * 86400 := by
    rw [Location.AddDate, hdate, hclock]
    omega
  have hmark (k : ℕ) : mark loc (loc.midnight first) k = (first + k) * 86400 - offset := by
    induction k with
    | zero =>
      rw [Nat.cast_zero, add_zero]
      exact hmidnight first
    | succ k ih =>
      rw [mark_next, hadd, ih]
      omega
  constructor
  · intro l _
    rw [KeepsDate, Location.dayOf, hclock, hdate, sub_add_cancel]
  · intro k hk
    rw [hmark, hmidnight]
    omega
  · rw [hmark, hmidnight]
    omega
  · rw [hadd, hmidnight, hmidnight]
    omega
  · rw [hadd, hmidnight, hmidnight]
    omega
  · intro c hc _
    simp only [periodRows, List.mem_filter, Bool.and_eq_true, decide_eq_true_eq] at hc
    obtain ⟨-, -, hafter, hbefore⟩ := hc
    rw [hmidnight] at hafter hbefore
    simp only [Location.dayOf, hclock, unixSecond, GoTime.second] at hafter hbefore ⊢
    constructor
    · omega
    · omega

/-! ## A zone whose clock skips a midnight -/

/-- `Asia/Kolkata` as it has been since 1945. -/
def kolkata : Location := oneChange (lit "Asia/Kolkata") 0 19800 19800 (by decide)

/-- Around 6 September 2026 in `America/Santiago` the local hour from 00:00 does not exist. -/
def santiago : Location :=
  oneChange (lit "America/Santiago") 1788667200 (-14400) (-10800) (by decide)

def zones (name : Str) : Option Location :=
  [kolkata, santiago].find? fun loc => loc.name = name

/-- 20 September 2026, 12:00 UTC. -/
def noon : Time := ⟨1789905600 * GoTime.second⟩

/-- A counted click of 6 September. -/
def click : ClickRow where
  linkId := 1
  eventId := none
  ip := []
  userAgent := []
  referrer := []
  countryCode := []
  method := lit "GET"
  statusCode := 302
  resolvedUrl := sampleLink.targetUrl
  routeType := lit "default"
  browser := []
  os := []
  device := []
  isBot := false
  referrerHost := []
  utmSource := []
  utmMedium := []
  utmCampaign := []
  createdAt := ⟨1788700000 * GoTime.second⟩

def clicked : Database :=
  { Database.single sampleLink with clicks := ⟨[click], List.pairwise_singleton _ _⟩ }

theorem report_partitions_days_kolkata :
    Partitioned zones noon (lit "Asia/Kolkata") (lit "2026-09-05") (lit "2026-09-08") clicked
      (.link 1) 20701 20704 := by
  have hzone : zones (zoneName (lit "Asia/Kolkata")) = some kolkata := rfl
  refine (report_partitions_days hzone (by decide) (by decide) (by decide)
    (by decide) (by decide) (by decide)).mpr ?_
  refine @steady_of_fixed kolkata 19800 (fun t => ?_) noon clicked (.link 1) 20701 20704
    (by decide) (by decide) (by decide)
  exact ite_self _

/-- Midnight of the 6th is answered with 23:00 of the 5th, which is in the report twice. -/
theorem santiago_repeats_a_day :
    zones (zoneName (lit "America/Santiago")) = some santiago ∧
      parseDate (trimSpace (lit "2026-09-05")) = some 20701 ∧
        parseDate (trimSpace (lit "2026-09-08")) = some 20704 ∧
          santiago.dayOf (unixSecond noon) - 89 ≤ 20701 ∧
            20704 ≤ santiago.dayOf (unixSecond noon) + 1 ∧
              ¬ Partitioned zones noon (lit "America/Santiago") (lit "2026-09-05")
                (lit "2026-09-08") clicked (.link 1) 20701 20704 := by
  have hzone : zones (zoneName (lit "America/Santiago")) = some santiago := rfl
  have hfirst : parseDate (trimSpace (lit "2026-09-05")) = some 20701 := by decide
  have hlast : parseDate (trimSpace (lit "2026-09-08")) = some 20704 := by decide
  refine ⟨hzone, hfirst, hlast, by decide, by decide, ?_⟩
  rintro ⟨start, stop, loc, hok, hreport⟩
  rw [parseReportWindow_dates hzone (by decide) hfirst hlast, checkWindow_ok] at hok
  obtain ⟨-, -, -, -, hout⟩ := hok
  simp only [Prod.mk.injEq] at hout
  obtain ⟨rfl, rfl, rfl⟩ := hout
  obtain ⟨report, hbuild, hpart⟩ := hreport 90 (le_refl 90)
  have hdays : (buildReport 90 clicked (.link 1) (santiago.midnight 20701)
      (santiago.midnight 20704) santiago).map (fun r => r.daily.map ReportDailyPoint.day) =
        some [lit "2026-09-05", lit "2026-09-05", lit "2026-09-06", lit "2026-09-07"] := by
    decide
  rw [hbuild, Option.map_some, hpart.days] at hdays
  revert hdays
  decide

end ReportDays
