import Mathlib.Algebra.BigOperators.Group.List.Basic
import Mathlib.Data.List.Dedup
import ShortQ.AuditedHandlers
import ShortQ.ReportDays

/-! # The figures of a report

The whole of `buildReport`: the loop over the clicks of the period with its eleven dimensions,
and the figures that statements of their own count. -/
namespace ReportFigures

open AccountRows (UserRow userClash)
open AuditedHandlers (formatInt)
open GoText (Str lit trimSpace)
open GoTime (Time)
open LinkStore
open LocalDays
open Models
open ReportDays
open RowTable
open Schema

/-! ## Counting by key -/

structure AnalyticsPoint where
  key : Str
  clicks : ℤ
  deriving DecidableEq, Repr

def pointClash (a b : AnalyticsPoint) : Prop := a.key = b.key

instance : DecidableRel pointClash := fun a b => inferInstanceAs (Decidable (a.key = b.key))

/-- A map from keys to counts. -/
abbrev Counts := Table AnalyticsPoint pointClash

def AnalyticsPoint.addOne (p : AnalyticsPoint) : AnalyticsPoint := { p with clicks := p.clicks + 1 }

theorem keeps_addOne : Table.Keeps pointClash AnalyticsPoint.addOne :=
  fun _ _ => ⟨Iff.rfl, Iff.rfl⟩

/-- `counts[key]++`. -/
def bump (counts : Counts) (key : Str) : Counts := counts.upsert ⟨key, 1⟩ .addOne keeps_addOne

def reportKey (value : Str) : Str :=
  if trimSpace value = [] then lit "unknown" else trimSpace value

inductive Dimension where
  | country | device | browser | os | referrer | utmSource | utmMedium | campaign
  | route | status | traffic
  deriving DecidableEq, Repr

/-- The dimensions that count every row of the period. -/
def Dimension.ofEveryRow : Dimension → Bool
  | .route | .status => true
  | _ => false

def Dimension.key (c : ClickRow) : Dimension → Str
  | .country => reportKey c.countryCode
  | .device => reportKey c.device
  | .browser => reportKey c.browser
  | .os => reportKey c.os
  | .referrer => reportKey c.referrerHost
  | .utmSource => reportKey c.utmSource
  | .utmMedium => reportKey c.utmMedium
  | .campaign => reportKey c.utmCampaign
  | .route => reportKey c.routeType
  | .status => formatInt c.statusCode
  | .traffic => if c.isBot then lit "bot" else lit "human"

/-- The state of the loop over the rows. -/
structure Figures where
  tally : Tally
  dimensions : Dimension → Counts

def Figures.initial (loc : Location) (days : List ℤ) : Figures :=
  ⟨⟨{}, emptyDaily loc days⟩, fun _ => .empty⟩

def countRow (loc : Location) (figures : Figures) (c : ClickRow) : Figures where
  tally := ReportDays.countRow loc figures.tally c
  dimensions d :=
    if d.ofEveryRow || isSuccessfulRedirect c.statusCode c.routeType then
      bump (figures.dimensions d) (d.key c)
    else figures.dimensions d

/-- The order in which the points are sorted. -/
def before (a b : AnalyticsPoint) : Bool :=
  if a.clicks = b.clicks then decide (a.key < b.key) else decide (b.clicks < a.clicks)

def sortedPoints (counts : Counts) (limit : ℕ) : List AnalyticsPoint :=
  let points := counts.rows.mergeSort fun a b => !before b a
  if limit < points.length then
    points.take (limit - 1) ++
      [⟨lit "Other", ((points.drop (limit - 1)).map AnalyticsPoint.clicks).sum⟩]
  else points

/-! ## The statements -/

/-- What a statement may read. -/
structure Stored where
  db : Database
  users : Table UserRow userClash

/-- `route_type<>'expired' AND status_code IN (301,302,307,308)`. -/
def redirected (c : ClickRow) : Bool :=
  c.routeType ≠ lit "expired" && [301, 302, 307, 308].contains c.statusCode

/-- The row of the one `SELECT COUNT(DISTINCT CASE .. END)`. -/
def estimatedUniqueVisitors (db : Database) (subject : Subject) (start stop : ℤ) : ℤ :=
  (((periodRows db subject start stop).filter fun c => c.isBot = false && redirected c).map
    ClickRow.ip |>.filter (· ≠ [])).dedup.length

def previousPeriodClicks (db : Database) (subject : Subject) (start stop : ℤ) : ℤ :=
  (periodRows db subject start stop).countP redirected

structure ReportLinkRank where
  id : ℤ
  slug : Str
  title : Str
  visibility : Str
  periodClicks : ℤ
  allTimeClicks : ℤ
  deletedAt : Option Time
  deriving DecidableEq, Repr

/-- `clicks c ON c.link_id=l.id AND c.created_at>=? AND c.created_at<?`. -/
def joined (db : Database) (start stop link : ℤ) : List ClickRow :=
  db.clicks.rows.filter fun c => c.linkId = link &&
    (start * GoTime.second ≤ c.createdAt.nanos && c.createdAt.nanos < stop * GoTime.second)

def rankLink (db : Database) (start stop : ℤ) (l : LinkRow) : ReportLinkRank where
  id := l.id
  slug := l.slug
  title := l.title
  visibility := l.visibility
  periodClicks := ((joined db start stop l.id).map fun c => if redirected c then 1 else 0).sum
  allTimeClicks := l.clicks
  deletedAt := l.deletedAt

/-- `ORDER BY period_clicks DESC,l.clicks DESC,l.id DESC`. -/
def rankedBefore (a b : ReportLinkRank) : Bool :=
  b.periodClicks < a.periodClicks || (a.periodClicks = b.periodClicks &&
    (b.allTimeClicks < a.allTimeClicks || (a.allTimeClicks = b.allTimeClicks && b.id ≤ a.id)))

def topLinks (db : Database) (user start stop : ℤ) : List ReportLinkRank :=
  ((db.links.rows.filter fun l => l.userId = user).map (rankLink db start stop)).mergeSort
    rankedBefore |>.take 20

/-- An event without the id of its row. -/
structure SafeClickEvent where
  linkId : ℤ
  slug : Str
  countryCode : Str
  statusCode : ℤ
  routeType : Str
  browser : Str
  os : Str
  device : Str
  isBot : Bool
  referrerHost : Str
  utmSource : Str
  utmMedium : Str
  utmCampaign : Str
  createdAt : Time
  deriving DecidableEq, Repr

def safeEvent (db : Database) (c : ClickRow) : SafeClickEvent where
  linkId := c.linkId
  slug := (db.link c.linkId).elim [] LinkRow.slug
  countryCode := c.countryCode
  statusCode := c.statusCode
  routeType := c.routeType
  browser := c.browser
  os := c.os
  device := c.device
  isBot := c.isBot
  referrerHost := c.referrerHost
  utmSource := c.utmSource
  utmMedium := c.utmMedium
  utmCampaign := c.utmCampaign
  createdAt := c.createdAt

/-- The newest rows; none for an export of more than 100000. -/
def safeEvents (db : Database) (subject : Subject) (start stop : ℤ) (limit : ℕ) :
    Option (List SafeClickEvent) :=
  let out := ((periodRows db subject start stop).reverse.take limit).map (safeEvent db)
  if 100001 ≤ out.length then none else some out

/-! ## The report -/

inductive ReportSubject where
  | link (link : Link)
  | user (user : UserRow)

def ReportSubject.toSubject : ReportSubject → Subject
  | .link l => .link l.id
  | .user u => .user u.id

/-- The subject as it is reported: a link with its owner, or a user. -/
inductive Described where
  | link (link : Link) (owner : UserRow)
  | user (user : UserRow)

/-- The figures about links rather than clicks. -/
structure LinkFigures where
  allTimeClicks : ℤ
  activeLinks : ℤ
  deletedLinks : ℤ
  privateLinks : ℤ
  sharedLinks : ℤ

def linkFigures (link : Link) : LinkFigures where
  allTimeClicks := link.clicks
  activeLinks := if link.deletedAt = none then 1 else 0
  deletedLinks := if link.deletedAt = none then 0 else 1
  privateLinks := if link.visibility = lit "department" then 0 else 1
  sharedLinks := if link.visibility = lit "department" then 1 else 0

def userFigures (links : List LinkRow) : LinkFigures where
  allTimeClicks := (links.map LinkRow.clicks).sum
  activeLinks := links.countP fun l => l.deletedAt = none
  deletedLinks := links.countP fun l => l.deletedAt ≠ none
  privateLinks := links.countP fun l => l.visibility = lit "private"
  sharedLinks := links.countP fun l => l.visibility = lit "department"

/-- The first statement of the report. -/
def overview (stored : Stored) : ReportSubject → Option (Described × LinkFigures)
  | .link link =>
    (stored.users.find (·.id = link.userId)).map fun owner => (.link link owner, linkFigures link)
  | .user user =>
    some (.user user, userFigures (stored.db.links.rows.filter fun l => l.userId = user.id))

structure ReportSummary extends ReportDays.ReportSummary, LinkFigures where
  estimatedUniqueVisitors : ℤ
  previousPeriodClicks : Option ℤ

structure AnalyticsReport where
  subject : Described
  fromDate : Str
  toDate : Str
  timezone : Str
  detailRetainedDays : ℤ
  summary : ReportSummary
  daily : List ReportDailyPoint
  breakdowns : Dimension → List AnalyticsPoint
  topLinks : List ReportLinkRank
  recentEvents : List SafeClickEvent

/-- Where the window before this one starts. -/
def previousFrom (loc : Location) (start : ℤ) (daysInWindow : ℕ) : ℤ :=
  loc.AddDate start (-daysInWindow)

/-- `!previousFrom.Before(time.Now().UTC().AddDate(0, 0, -reportRetentionDays))`. -/
def retains (now : Time) (start : ℤ) : Bool :=
  !(start * GoTime.second < now.nanos - 90 * GoTime.day)

def previousPeriod (read : Option Stored) (now : Time) (subject : Subject) (earlier start : ℤ) :
    Option (Option ℤ) :=
  if retains now earlier then
    read.map fun s => some (previousPeriodClicks s.db subject earlier start)
  else some none

def ranking (read : Option Stored) (start stop : ℤ) : ReportSubject → Option (List ReportLinkRank)
  | .link _ => some []
  | .user user => read.map fun s => topLinks s.db user.id start stop

/-- The statement in slot `k` reads `reads k`, or fails. None is a failed statement, or a loop
over more than `n` days. -/
def buildReport (n : ℕ) (reads : ℕ → Option Stored) (now : Time) (subject : ReportSubject)
    (start stop : ℤ) (loc : Location) : Option AnalyticsReport := do
  let (described, figures) ← (reads 2).bind (overview · subject)
  let days ← marks loc stop n start
  let stored ← reads 3
  let rows := periodRows stored.db subject.toSubject start stop
  let counted := rows.foldl (countRow loc) (.initial loc days)
  let daily ← days.mapM fun day => counted.tally.daily (keyOf loc day)
  let unique ← (reads 4).map fun s => estimatedUniqueVisitors s.db subject.toSubject start stop
  let earlier := previousFrom loc start daily.length
  let previous ← previousPeriod (reads 5) now subject.toSubject earlier start
  let top ← ranking (reads 6) start stop subject
  let events ← (reads 7).bind fun s => safeEvents s.db subject.toSubject start stop 50
  some
    { subject := described
      fromDate := keyOf loc start
      toDate := keyOf loc stop
      timezone := loc.name
      detailRetainedDays := 90
      summary :=
        { toReportSummary := daily.foldl addPeak counted.tally.summary
          toLinkFigures := figures
          estimatedUniqueVisitors := unique
          previousPeriodClicks := previous }
      daily := daily
      breakdowns := fun d => sortedPoints (counted.dimensions d) 10
      topLinks := top
      recentEvents := events }

def reportLink (reads : ℕ → Option Stored) (scope : User) (id : ℤ) : Option Link := do
  let inScope ← (addLinkViewScope scope false).toOption
  let row ← (reads 0).bind fun s => s.db.links.find fun r => r.id = id && inScope r
  (reads 1).map fun s => hydrateLink s.db (scanLink row)

def reportUser (reads : ℕ → Option Stored) (scope : User) (id : ℤ) : Option UserRow := do
  let target ← (reads 0).bind fun s => s.users.find (·.id = id)
  match scope.role with
  | .superadmin => some target
  | .tenant =>
    if scope.tenantId.isSome && scope.tenantId = target.tenantId then some target else none
  | .customer => if scope.id = target.id then some target else none

/-- The subject of a request, as far as the user may see it. -/
def reportSubject (reads : ℕ → Option Stored) (scope : User) : Subject → Option ReportSubject
  | .link id => (reportLink reads scope id).map .link
  | .user id => (reportUser reads scope id).map .user

/-- `LinkReport` and `UserReport`. -/
def report (n : ℕ) (reads : ℕ → Option Stored) (now : Time) (scope : User) (subject : Subject)
    (start stop : ℤ) (loc : Location) : Option AnalyticsReport :=
  (reportSubject reads scope subject).bind fun s => buildReport n reads now s start stop loc

def reportEvents (reads : ℕ → Option Stored) (scope : User) (subject : Subject)
    (start stop : ℤ) : Option (List SafeClickEvent) := do
  let s ← reportSubject reads scope subject
  let stored ← reads 2
  safeEvents stored.db s.toSubject start stop 100001

/-! ## The totals of the counts -/

def clicksOf (points : List AnalyticsPoint) : ℤ := (points.map AnalyticsPoint.clicks).sum

theorem clicksOf_append (points rest : List AnalyticsPoint) :
    clicksOf (points ++ rest) = clicksOf points + clicksOf rest := by
  rw [clicksOf, List.map_append, List.sum_append]
  rfl

theorem clicksOf_addOne (p : AnalyticsPoint → Bool) (points : List AnalyticsPoint) :
    clicksOf (points.map fun a => if p a then a.addOne else a) =
      clicksOf points + points.countP p := by
  induction points with
  | nil => rfl
  | cons a points ih =>
    have hcons (b : AnalyticsPoint) (rest : List AnalyticsPoint) :
        clicksOf (b :: rest) = b.clicks + clicksOf rest := List.sum_cons
    rw [List.map_cons, hcons, hcons, ih, List.countP_cons]
    by_cases h : p a
    · rw [if_pos h, if_pos h, AnalyticsPoint.addOne]
      push_cast
      omega
    · rw [if_neg h, if_neg h]
      push_cast
      omega

theorem clicksOf_bump (counts : Counts) (key : Str) :
    clicksOf (bump counts key).rows = clicksOf counts.rows + 1 := by
  unfold bump Table.upsert
  cases hinsert : counts.insert ⟨key, 1⟩ with
  | some grown =>
    dsimp only
    rw [(Table.insert_eq_some.mp hinsert).2, clicksOf_append]
    rfl
  | none =>
    obtain ⟨p, hp, hclash⟩ := Table.insert_eq_none.mp hinsert
    have hone : counts.affected (fun a => decide (pointClash a ⟨key, 1⟩)) = 1 := by
      have hfind := @Table.affected_of_find _ _ counts (fun a => decide (pointClash a ⟨key, 1⟩))
        (fun _ => true) fun a b ha hb => (of_decide_eq_true ha).trans (of_decide_eq_true hb).symm
      simp only [Bool.and_true] at hfind
      rw [hfind, Bool.toNat_eq_one, Option.any_eq_true_iff_get]
      refine ⟨?_, rfl⟩
      rw [Table.find, List.find?_isSome]
      exact ⟨p, hp, decide_eq_true hclash⟩
    dsimp only
    rw [Table.rows_update, clicksOf_addOne]
    rw [Table.affected] at hone
    rw [hone]
    rfl

theorem clicksOf_perm {points rest : List AnalyticsPoint} (h : points.Perm rest) :
    clicksOf points = clicksOf rest := (h.map AnalyticsPoint.clicks).sum_eq

/-- The long tail keeps its sum. -/
theorem clicksOf_sortedPoints (counts : Counts) (limit : ℕ) :
    clicksOf (sortedPoints counts limit) = clicksOf counts.rows := by
  have hsorted := clicksOf_perm (List.mergeSort_perm counts.rows fun a b => !before b a)
  unfold sortedPoints
  dsimp only
  generalize counts.rows.mergeSort (fun a b => !before b a) = points at hsorted ⊢
  by_cases hlong : limit < points.length
  · rw [if_pos hlong, clicksOf_append]
    calc clicksOf (points.take (limit - 1)) + clicksOf [_]
        = clicksOf (points.take (limit - 1)) + clicksOf (points.drop (limit - 1)) := by
          rw [clicksOf, clicksOf, clicksOf, List.map_singleton, List.sum_singleton]
      _ = clicksOf points := by rw [← clicksOf_append, List.take_append_drop]
      _ = clicksOf counts.rows := hsorted
  · rw [if_neg hlong]
    exact hsorted

theorem length_sortedPoints (counts : Counts) {limit : ℕ} (h : 0 < limit) :
    (sortedPoints counts limit).length ≤ limit := by
  unfold sortedPoints
  dsimp only
  by_cases hlong : limit < (counts.rows.mergeSort fun a b => !before b a).length
  · rw [if_pos hlong, List.length_append, List.length_take, List.length_singleton]
    omega
  · rw [if_neg hlong]
    omega

section Loop

variable {loc : Location}

theorem tally_countRow (rows : List ClickRow) (figures : Figures) :
    (rows.foldl (countRow loc) figures).tally =
      rows.foldl (ReportDays.countRow loc) figures.tally := by
  induction rows generalizing figures with
  | nil => rfl
  | cons c rows ih => exact ih (countRow loc figures c)

/-- Each dimension counts the rows it is meant to. -/
theorem clicksOf_dimension (rows : List ClickRow) (days : List ℤ) (d : Dimension) :
    clicksOf ((rows.foldl (countRow loc) (.initial loc days)).dimensions d).rows =
      rows.countP fun c => d.ofEveryRow || successful c := by
  induction rows using List.reverseRecOn with
  | nil => rfl
  | append_singleton rows c ih =>
    rw [List.foldl_append, List.foldl_cons, List.foldl_nil, List.countP_append,
      List.countP_singleton]
    generalize rows.foldl (countRow loc) (.initial loc days) = figures at ih ⊢
    have hstep : (countRow loc figures c).dimensions d =
        if d.ofEveryRow || successful c then bump (figures.dimensions d) (d.key c)
        else figures.dimensions d := rfl
    rw [hstep]
    by_cases h : (d.ofEveryRow || successful c) = true
    · rw [if_pos h, if_pos h, clicksOf_bump, ih]
      rfl
    · rw [if_neg h, if_neg h, ih]
      rfl

theorem redirected_eq (c : ClickRow) : redirected c = successful c := by
  unfold redirected successful isSuccessfulRedirect
  simp only [List.contains_cons, List.contains_nil, beq_eq_decide, Bool.or_false, Bool.or_assoc]

/-- No row moves the peak. -/
theorem peak_countRow (rows : List ClickRow) (daily : Str → Option ReportDailyPoint) :
    (rows.foldl (ReportDays.countRow loc) ⟨{}, daily⟩).summary.peakDay = [] ∧
      (rows.foldl (ReportDays.countRow loc) ⟨{}, daily⟩).summary.peakDayClicks = 0 := by
  induction rows using List.reverseRecOn with
  | nil => exact ⟨rfl, rfl⟩
  | append_singleton rows c ih =>
    rw [List.foldl_append, List.foldl_cons, List.foldl_nil]
    generalize rows.foldl (ReportDays.countRow loc) ⟨{}, daily⟩ = tally at ih ⊢
    unfold ReportDays.countRow ReportSummary.count
    dsimp only
    split_ifs
    all_goals exact ih

end Loop

/-! ## The peak -/

/-- The summary names the first day with the most clicks, if there was a click at all. -/
def Peak (s : ReportDays.ReportSummary) (daily : List ReportDailyPoint) : Prop :=
  (s.peakDay = [] ∧ s.peakDayClicks = 0 ∧ ∀ p ∈ daily, p.clicks ≤ 0) ∨
    ∃ earlier p later, daily = earlier ++ p :: later ∧ s.peakDay = p.day ∧
      s.peakDayClicks = p.clicks ∧ (∀ q ∈ earlier, q.clicks < p.clicks) ∧
        ∀ q ∈ later, q.clicks ≤ p.clicks

theorem Peak.bound {s : ReportDays.ReportSummary} {daily : List ReportDailyPoint}
    (h : Peak s daily) :
    ∀ p ∈ daily, p.clicks ≤ s.peakDayClicks := by
  intro q hq
  rcases h with ⟨-, hzero, hnone⟩ | ⟨earlier, p, later, rfl, -, hpeak, hearlier, hlater⟩
  · rw [hzero]
    exact hnone q hq
  · rw [hpeak]
    rcases List.mem_append.mp hq with hq | hq
    · exact le_of_lt (hearlier q hq)
    · rcases List.mem_cons.mp hq with rfl | hq
      · exact le_refl _
      · exact hlater q hq

theorem Peak.addPeak {s : ReportDays.ReportSummary} {daily : List ReportDailyPoint}
    (h : Peak s daily) (p : ReportDailyPoint) :
    Peak (addPeak s p) (daily ++ [p]) := by
  unfold ReportDays.addPeak
  by_cases hhigher : s.peakDayClicks < p.clicks
  · rw [if_pos hhigher]
    refine Or.inr ⟨daily, p, [], rfl, rfl, rfl, fun q hq => ?_,
      fun q hq => absurd hq List.not_mem_nil⟩
    exact lt_of_le_of_lt (h.bound q hq) hhigher
  · rw [if_neg hhigher]
    rcases h with ⟨hday, hzero, hnone⟩ | ⟨earlier, q, later, rfl, hday, hpeak, hearlier, hlater⟩
    · refine Or.inl ⟨hday, hzero, fun q hq => ?_⟩
      rcases List.mem_append.mp hq with hq | hq
      · exact hnone q hq
      · rw [List.mem_singleton.mp hq]
        omega
    · refine Or.inr ⟨earlier, q, later ++ [p], by simp, hday, hpeak, hearlier, fun r hr => ?_⟩
      rcases List.mem_append.mp hr with hr | hr
      · exact hlater r hr
      · rw [List.mem_singleton.mp hr]
        omega

theorem peak_foldl {s : ReportDays.ReportSummary} (hday : s.peakDay = [])
    (hzero : s.peakDayClicks = 0) (daily : List ReportDailyPoint) :
    Peak (daily.foldl addPeak s) daily := by
  induction daily using List.reverseRecOn with
  | nil => exact Or.inl ⟨hday, hzero, fun p hp => absurd hp List.not_mem_nil⟩
  | append_singleton daily p ih =>
    rw [List.foldl_append, List.foldl_cons, List.foldl_nil]
    exact ih.addPeak p

/-! ## What a report says -/

section Report

variable {loc : Location} {n : ℕ} {reads : ℕ → Option Stored} {now : Time}
  {subject : ReportSubject} {start stop : ℤ} {report : AnalyticsReport}

/-- A report, statement by statement. -/
structure Reported (reads : ℕ → Option Stored) (now : Time) (subject : ReportSubject)
    (start stop : ℤ) (loc : Location) (days : List ℤ) (rows : List ClickRow)
    (report : AnalyticsReport) : Prop where
  read : (reads 3).map (fun s => periodRows s.db subject.toSubject start stop) = some rows
  counted : Counted rows report.summary.toReportSummary
  peak : Peak report.summary.toReportSummary report.daily
  points : report.daily = days.map fun day => pointOf loc rows (keyOf loc day)
  breakdowns : ∀ d, report.breakdowns d =
    sortedPoints ((rows.foldl (countRow loc) (.initial loc days)).dimensions d) 10
  unique : (reads 4).map (fun s => estimatedUniqueVisitors s.db subject.toSubject start stop) =
    some report.summary.estimatedUniqueVisitors
  previous : previousPeriod (reads 5) now subject.toSubject
    (previousFrom loc start report.daily.length) start = some report.summary.previousPeriodClicks
  topLinks : ranking (reads 6) start stop subject = some report.topLinks
  recentEvents : ((reads 7).bind fun s => safeEvents s.db subject.toSubject start stop 50) =
    some report.recentEvents

theorem buildReport_spec (h : buildReport n reads now subject start stop loc = some report) :
    ∃ days rows, marks loc stop n start = some days ∧
      Reported reads now subject start stop loc days rows report := by
  simp only [buildReport, Option.bind_eq_bind, Option.bind_eq_some_iff] at h
  obtain ⟨⟨described, figures⟩, -, days, hdays, stored, hstored, daily, hdaily, unique, hunique,
    previous, hprevious, top, htop, events, hevents, hreport⟩ := h
  obtain rfl := Option.some.inj hreport
  obtain ⟨hcounted, hpoints⟩ :=
    @tally_rows loc days (periodRows stored.db subject.toSubject start stop)
  obtain ⟨hday, hzero⟩ := @peak_countRow loc (periodRows stored.db subject.toSubject start stop)
    (emptyDaily loc days)
  rw [tally_countRow] at hdaily
  refine ⟨days, _, hdays, ⟨?_, ?_, ?_, ?_, fun d => rfl, hunique, hprevious, htop, ?_⟩⟩
  · rw [hstored]
    rfl
  · rw [tally_countRow]
    exact addPeak_counted hcounted daily
  · rw [tally_countRow]
    exact peak_foldl hday hzero daily
  · refine Option.some.inj (hdaily.symm.trans (mapM_points fun day hmem => ?_))
    exact (hpoints (keyOf loc day)).trans (if_pos (List.mem_map_of_mem hmem))
  · exact Option.bind_eq_some_iff.mpr hevents

/-- Whoever reads a whole report has read every statement. -/
theorem buildReport_isSome (hreads : ∀ k, (reads k).isSome)
    (hsubject : ((reads 2).bind (overview · subject)).isSome)
    (hdays : (marks loc stop n start).isSome) :
    (buildReport n reads now subject start stop loc).isSome := by
  have hread (k : ℕ) : ∃ s, reads k = some s := Option.isSome_iff_exists.mp (hreads k)
  obtain ⟨seen, hseen⟩ := Option.isSome_iff_exists.mp hsubject
  obtain ⟨days, hdays⟩ := Option.isSome_iff_exists.mp hdays
  obtain ⟨stored, hstored⟩ := hread 3
  obtain ⟨s4, h4⟩ := hread 4
  obtain ⟨s5, h5⟩ := hread 5
  obtain ⟨s6, h6⟩ := hread 6
  obtain ⟨s7, h7⟩ := hread 7
  obtain ⟨-, hpoints⟩ := @tally_rows loc days (periodRows stored.db subject.toSubject start stop)
  have hdaily := mapM_points fun day hmem =>
    (hpoints (keyOf loc day)).trans (if_pos (List.mem_map_of_mem hmem))
  have hprevious (earlier : ℤ) :
      (previousPeriod (some s5) now subject.toSubject earlier start).isSome := by
    unfold previousPeriod
    split
    · rfl
    · rfl
  have htop : (ranking (some s6) start stop subject).isSome := by
    cases subject with
    | link => rfl
    | user => rfl
  have hevents : (safeEvents s7.db subject.toSubject start stop 50).isSome := by
    have hshort : ¬ 100001 ≤ (((periodRows s7.db subject.toSubject start stop).reverse.take
        50).map (safeEvent s7.db)).length := by
      rw [List.length_map, List.length_take]
      omega
    rw [safeEvents, if_neg hshort]
    rfl
  obtain ⟨previous, hprevious⟩ := Option.isSome_iff_exists.mp (hprevious (previousFrom loc start
    (days.map fun day => pointOf loc (periodRows stored.db subject.toSubject start stop)
      (keyOf loc day)).length))
  obtain ⟨top, htop⟩ := Option.isSome_iff_exists.mp htop
  obtain ⟨events, hevents⟩ := Option.isSome_iff_exists.mp hevents
  simp only [buildReport, Option.bind_eq_bind, hseen, hdays, hstored, h4, h5, h6, h7,
    Option.bind_some, Option.map_some, tally_countRow]
  simp only [Figures.initial, hdaily, hprevious, htop, hevents, Option.bind_some,
    Option.isSome_some]

/-- The sums, bounds and the peak of a report over `rows`. -/
structure Reconciles (report : AnalyticsReport) (rows : List ClickRow) : Prop where
  traffic : report.summary.humanClicks + report.summary.botClicks = report.summary.periodClicks
  redirects : ∀ d, d.ofEveryRow = false →
    clicksOf (report.breakdowns d) = report.summary.periodClicks
  everyRow : ∀ d, d.ofEveryRow = true → clicksOf (report.breakdowns d) = rows.length
  short : ∀ d, (report.breakdowns d).length ≤ 10
  highest : ∀ p ∈ report.daily, p.clicks ≤ report.summary.peakDayClicks
  attained : report.daily ≠ [] → ∃ p ∈ report.daily, p.clicks = report.summary.peakDayClicks
  first : report.summary.peakDay ≠ [] → ∃ earlier p later,
    report.daily = earlier ++ p :: later ∧ p.day = report.summary.peakDay ∧
      p.clicks = report.summary.peakDayClicks ∧ ∀ q ∈ earlier, q.clicks < p.clicks

theorem humans_and_bots (rows : List ClickRow) :
    (rows.countP fun c => successful c && !c.isBot) +
      (rows.countP fun c => successful c && c.isBot) =
      rows.countP successful := by
  rw [← countP_or]
  · refine List.countP_congr fun c _ => ?_
    cases successful c <;> cases c.isBot <;> simp
  · intro c hhuman hbot
    simp only [Bool.and_eq_true, Bool.not_eq_true'] at hhuman hbot
    rw [hhuman.2] at hbot
    exact absurd hbot.2 (by decide)

theorem Reported.reconciles {days : List ℤ} {rows : List ClickRow}
    (h : Reported reads now subject start stop loc days rows report) : Reconciles report rows := by
  have hsum (d : Dimension) : clicksOf (report.breakdowns d) =
      rows.countP fun c => d.ofEveryRow || successful c := by
    rw [h.breakdowns, clicksOf_sortedPoints, clicksOf_dimension]
  constructor
  · rw [h.counted.human, h.counted.bots, h.counted.period, ← humans_and_bots]
    push_cast
    rfl
  · intro d hd
    rw [hsum, h.counted.period, hd]
    rfl
  · intro d hd
    rw [hsum, hd]
    simp
  · intro d
    rw [h.breakdowns]
    exact length_sortedPoints _ (by decide)
  · exact h.peak.bound
  · intro hdays
    rcases h.peak with ⟨-, hzero, hnone⟩ | ⟨earlier, p, later, hdaily, -, hpeak, -, -⟩
    · obtain ⟨p, hp⟩ := List.exists_mem_of_ne_nil _ hdays
      refine ⟨p, hp, ?_⟩
      have hpos : 0 ≤ p.clicks := by
        rw [h.points] at hp
        obtain ⟨day, -, rfl⟩ := List.mem_map.mp hp
        exact Int.natCast_nonneg _
      have hnone := hnone p hp
      omega
    · refine ⟨p, ?_, hpeak.symm⟩
      rw [hdaily]
      exact List.mem_append_right _ List.mem_cons_self
  · intro hset
    rcases h.peak with ⟨hday, -, -⟩ | ⟨earlier, p, later, hdaily, hday, hpeak, hearlier, -⟩
    · exact absurd hday hset
    · exact ⟨earlier, p, later, hdaily, hday.symm, hpeak.symm, hearlier⟩

/-- Visitors are counted among the human clicks. -/
theorem estimatedUniqueVisitors_le (db : Database) (s : Subject) :
    estimatedUniqueVisitors db s start stop ≤
      ((periodRows db s start stop).countP fun c => successful c && !c.isBot : ℕ) := by
  unfold estimatedUniqueVisitors
  rw [Nat.cast_le]
  refine (List.dedup_sublist _).length_le.trans (List.length_filter_le _ _ |>.trans ?_)
  rw [List.length_map, ← List.countP_eq_length_filter]
  refine List.countP_mono_left fun c _ hc => ?_
  simp only [redirected_eq, Bool.and_eq_true, decide_eq_true_eq] at hc
  rw [hc.1, hc.2]
  rfl

/-- The figures of every report agree with each other and with the rows it went over; the visitors
are at most the human clicks when the statements see one state. -/
theorem report_reconciles (h : buildReport n reads now subject start stop loc = some report) :
    ∃ stored, reads 3 = some stored ∧
      Reconciles report (periodRows stored.db subject.toSubject start stop) ∧
        (reads 4 = some stored →
          report.summary.estimatedUniqueVisitors ≤ report.summary.humanClicks) := by
  obtain ⟨days, rows, -, hreported⟩ := buildReport_spec h
  obtain ⟨stored, hstored, rfl⟩ := Option.map_eq_some_iff.mp hreported.read
  refine ⟨stored, hstored, hreported.reconciles, fun hsame => ?_⟩
  have hunique := hreported.unique
  rw [hsame, Option.map_some, Option.some.injEq] at hunique
  rw [← hunique, hreported.counted.human]
  exact estimatedUniqueVisitors_le stored.db subject.toSubject

end Report

/-! ## A report of several clicks -/

def owner : UserRow :=
  ⟨1, some 1, lit "owner@example.com", lit "Owner", .customer, false, true, []⟩

/-- The second link of the owner. -/
def mailLink : LinkRow := { sampleLink with id := 2, slug := lit "mail" }

/-- A redirect before the period, and in it redirects of two links on two days, one of a bot and
one with a referrer that a spreadsheet would run, an attempt after the expiry and a failure. -/
def visits : List ClickRow :=
  [{ click with createdAt := ⟨1788500000 * GoTime.second⟩ },
    { click with
      ip := lit "198.51.100.7"
      countryCode := lit "DE"
      browser := lit "Firefox"
      os := lit "Linux"
      device := lit "desktop"
      referrerHost := lit "=cmd"
      utmCampaign := lit "spring" },
    { click with ip := lit "198.51.100.8", isBot := true },
    { click with statusCode := 410, routeType := lit "expired" },
    { click with statusCode := 404 },
    { click with
      linkId := 2
      ip := lit "198.51.100.9"
      routeType := lit "ios"
      device := lit "mobile"
      createdAt := ⟨1788800000 * GoTime.second⟩ }]

def visited : Stored where
  db :=
    { Database.single sampleLink with
      links := ⟨[sampleLink, mailLink], by decide⟩
      clicks := ⟨visits, by decide⟩
      nextLinkId := 3 }
  users := ⟨[owner], List.pairwise_singleton _ _⟩

/-- The user reads a report about 5 to 7 September 2026. -/
theorem buildReport_visited :
    (buildReport 90 (fun _ => some visited) noon (.user owner) (kolkata.midnight 20701)
      (kolkata.midnight 20704) kolkata).isSome :=
  buildReport_isSome (fun _ => rfl) rfl (by decide)

theorem periodRows_visited :
    periodRows visited.db (.user 1) (kolkata.midnight 20701) (kolkata.midnight 20704) =
      visits.tail := by
  decide

theorem report_reconciles_visited :
    ∃ report, buildReport 90 (fun _ => some visited) noon (.user owner) (kolkata.midnight 20701)
      (kolkata.midnight 20704) kolkata = some report ∧ Reconciles report visits.tail ∧
        report.summary.estimatedUniqueVisitors ≤ report.summary.humanClicks := by
  obtain ⟨report, h⟩ := Option.isSome_iff_exists.mp buildReport_visited
  obtain ⟨stored, hstored, hreconciles, hvisitors⟩ := report_reconciles h
  obtain rfl := Option.some.inj hstored
  rw [show (ReportSubject.user owner).toSubject = .user 1 from rfl, periodRows_visited]
    at hreconciles
  exact ⟨report, h, hreconciles, hvisitors rfl⟩

/-! ## One notion of a redirect -/

section Agreement

variable {loc : Location} {n : ℕ} {now : Time} {scope : User} {subject : Subject} {start stop : ℤ}
  {v : Stored} {r : AnalyticsReport}

/-- Statements that all see the same state. -/
def still (v : Stored) : ℕ → Option Stored := fun _ => some v

theorem toSubject_of_reportSubject {reads : ℕ → Option Stored} {s : ReportSubject}
    (h : reportSubject reads scope subject = some s) : s.toSubject = subject := by
  cases subject with
  | link id =>
    obtain ⟨link, hlink, rfl⟩ := Option.map_eq_some_iff.mp h
    simp only [reportLink, Option.bind_eq_bind, Option.bind_eq_some_iff,
      Option.map_eq_some_iff] at hlink
    obtain ⟨inScope, -, row, ⟨stored, -, hrow⟩, seen, -, rfl⟩ := hlink
    have hid := List.find?_some hrow
    simp only [Bool.and_eq_true, decide_eq_true_eq] at hid
    exact congrArg Subject.link hid.1
  | user id =>
    obtain ⟨user, huser, rfl⟩ := Option.map_eq_some_iff.mp h
    simp only [reportUser, Option.bind_eq_bind, Option.bind_eq_some_iff] at huser
    obtain ⟨target, ⟨stored, -, htarget⟩, hrole⟩ := huser
    have hid := List.find?_some htarget
    rw [decide_eq_true_eq] at hid
    have htarget : target = user := by
      cases hscope : scope.role with
      | superadmin =>
        rw [hscope] at hrole
        exact Option.some.inj hrole
      | tenant =>
        rw [hscope] at hrole
        exact Option.some.inj (Option.ite_none_right_eq_some.mp hrole).2
      | customer =>
        rw [hscope] at hrole
        exact Option.some.inj (Option.ite_none_right_eq_some.mp hrole).2
    rw [← hid, htarget]
    rfl

/-- A report over one state, in terms of its rows. -/
theorem report_still (h : report n (still v) now scope subject start stop loc = some r) :
    r.summary.periodClicks = (periodRows v.db subject start stop).countP successful ∧
      (∀ clicks, r.summary.previousPeriodClicks = some clicks → clicks =
        previousPeriodClicks v.db subject (previousFrom loc start r.daily.length) start) ∧
      ∃ s : ReportSubject, s.toSubject = subject ∧
        ranking (some v) start stop s = some r.topLinks := by
  obtain ⟨s, hs, hreport⟩ := Option.bind_eq_some_iff.mp h
  obtain ⟨days, rows, -, hreported⟩ := buildReport_spec hreport
  obtain rfl := toSubject_of_reportSubject hs
  have hread := Option.some.inj hreported.read
  refine ⟨?_, fun clicks hclicks => ?_, s, rfl, hreported.topLinks⟩
  · rw [hreported.counted.period, ← hread]
  · have hprevious := hreported.previous
    unfold previousPeriod at hprevious
    rw [hclicks] at hprevious
    by_cases hretained : retains now (previousFrom loc start r.daily.length) = true
    · rw [if_pos hretained] at hprevious
      exact (Option.some.inj (Option.some.inj hprevious)).symm
    · rw [if_neg hretained] at hprevious
      cases hprevious

theorem previousPeriodClicks_eq (db : Database) (s : Subject) (start stop : ℤ) :
    previousPeriodClicks db s start stop = (periodRows db s start stop).countP successful := by
  rw [previousPeriodClicks, funext redirected_eq]

/-- The clicks of the window. -/
def inWindow (start stop : ℤ) (c : ClickRow) : Bool :=
  start * GoTime.second ≤ c.createdAt.nanos && c.createdAt.nanos < stop * GoTime.second

theorem rankLink_eq (db : Database) (start stop : ℤ) (l : LinkRow) :
    (rankLink db start stop l).periodClicks =
      (db.clicks.rows.countP fun c => (successful c && inWindow start stop c) &&
        decide (c.linkId = l.id) : ℕ) := by
  have hsum (rows : List ClickRow) :
      (rows.map fun c => if redirected c then (1 : ℤ) else 0).sum = rows.countP successful := by
    induction rows with
    | nil => rfl
    | cons c rows ih =>
      rw [List.map_cons, List.sum_cons, ih, List.countP_cons, redirected_eq]
      by_cases hc : successful c = true
      · rw [if_pos hc, if_pos hc]
        push_cast
        omega
      · rw [if_neg hc, if_neg hc]
        push_cast
        omega
  rw [rankLink, hsum, joined, List.countP_filter]
  refine congrArg Nat.cast (List.countP_congr fun c _ => ?_)
  simp only [inWindow, Bool.and_eq_true, decide_eq_true_eq]
  constructor
  · rintro ⟨hc, hlink, hwindow⟩
    exact ⟨⟨hc, hwindow⟩, hlink⟩
  · rintro ⟨⟨hc, hwindow⟩, hlink⟩
    exact ⟨hc, hlink, hwindow⟩

theorem periodClicks_eq (db : Database) (s : Subject) (start stop : ℤ) :
    (periodRows db s start stop).countP successful =
      db.clicks.rows.countP fun c => (successful c && inWindow start stop c) &&
        (db.link c.linkId).any (reportWhere s) := by
  rw [periodRows, List.countP_filter]
  refine List.countP_congr fun c _ => ?_
  simp only [inWindow, Bool.and_eq_true]
  constructor
  · rintro ⟨hc, hlink, hwindow⟩
    exact ⟨⟨hc, hwindow⟩, hlink⟩
  · rintro ⟨⟨hc, hwindow⟩, hlink⟩
    exact ⟨hc, hlink, hwindow⟩

/-- A click belongs to the user of the link it names. -/
theorem link_any_iff (db : Database) (p : LinkRow → Bool) (id : ℤ) :
    (db.link id).any p = decide (id ∈ (db.links.rows.filter p).map LinkRow.id) := by
  rw [Bool.eq_iff_iff, decide_eq_true_eq, Option.any_eq_true]
  constructor
  · rintro ⟨l, hl, hp⟩
    obtain ⟨hrow, hid⟩ := LinkWrites.mem_link hl
    exact List.mem_map.mpr ⟨l, List.mem_filter.mpr ⟨hrow, hp⟩, hid⟩
  · intro hmem
    obtain ⟨l, hl, rfl⟩ := List.mem_map.mp hmem
    obtain ⟨hrow, hp⟩ := List.mem_filter.mp hl
    exact ⟨l, LinkWrites.link_mem hrow, hp⟩

/-- The links of a user share out the clicks of the user. -/
theorem rankLinks_sum (db : Database) (user start stop : ℤ) :
    (((db.links.rows.filter fun l => l.userId = user).map (rankLink db start stop)).map
      ReportLinkRank.periodClicks).sum =
        ((periodRows db (.user user) start stop).countP successful : ℕ) := by
  have hnodup : ((db.links.rows.filter fun l => l.userId = user).map LinkRow.id).Nodup := by
    rw [List.Nodup, List.pairwise_map]
    exact (db.links.distinct.filter _).imp fun hab heq => hab (Or.inl heq)
  have hsum := @sum_countP _ _ _ _ _ db.clicks.rows (fun c => successful c && inWindow start stop c)
    ClickRow.linkId _ hnodup
  have hwhere : reportWhere (.user user) = fun l => decide (l.userId = user) := rfl
  rw [periodClicks_eq, List.map_map]
  simp only [link_any_iff, hwhere]
  rw [← hsum, List.map_map]
  exact congrArg List.sum (List.map_congr_left fun l _ => rankLink_eq db start stop l)

theorem topLinks_perm {db : Database} {user : ℤ}
    (h : (db.links.rows.countP fun l => l.userId = user) ≤ 20) :
    (topLinks db user start stop).Perm
      ((db.links.rows.filter fun l => l.userId = user).map (rankLink db start stop)) := by
  rw [topLinks, List.take_of_length_le]
  · exact List.mergeSort_perm _ _
  · rw [List.length_mergeSort, List.length_map, ← List.countP_eq_length_filter]
    exact h

theorem mem_topLinks {db : Database} {user : ℤ} {rank : ReportLinkRank}
    (h : rank ∈ topLinks db user start stop) :
    ∃ l ∈ db.links.rows, l.userId = user ∧ rank = rankLink db start stop l := by
  have hsorted := List.mem_of_mem_take h
  rw [List.mem_mergeSort] at hsorted
  obtain ⟨l, hl, rfl⟩ := List.mem_map.mp hsorted
  obtain ⟨hrow, huser⟩ := List.mem_filter.mp hl
  exact ⟨l, hrow, of_decide_eq_true huser, rfl⟩

theorem rankLink_own {db : Database} {l : LinkRow} (h : l ∈ db.links.rows) :
    (rankLink db start stop l).periodClicks =
      ((periodRows db (.link l.id) start stop).countP successful : ℕ) := by
  rw [rankLink_eq, periodClicks_eq]
  refine congrArg Nat.cast (List.countP_congr fun c _ => ?_)
  have hlink : (db.link c.linkId).any (reportWhere (.link l.id)) = decide (c.linkId = l.id) := by
    rw [link_any_iff, decide_eq_decide]
    simp only [reportWhere, List.mem_map, List.mem_filter, decide_eq_true_eq]
    constructor
    · rintro ⟨k, ⟨-, hk⟩, heq⟩
      exact heq.symm.trans hk
    · intro heq
      exact ⟨l, ⟨h, rfl⟩, heq.symm⟩
  rw [hlink]

/-- The export counts what the report counts. -/
theorem safeEvents_count {db : Database} {s : Subject} {events : List SafeClickEvent}
    (h : safeEvents db s start stop 100001 = some events) :
    events.countP (fun e => isSuccessfulRedirect e.statusCode e.routeType) =
      (periodRows db s start stop).countP successful := by
  obtain ⟨hshort, hevents⟩ := Option.ite_none_left_eq_some.mp h
  obtain rfl := Option.some.inj hevents
  rw [List.length_map, List.length_take, List.length_reverse] at hshort
  rw [List.countP_map, List.take_of_length_le (by rw [List.length_reverse]; omega),
    List.countP_reverse]
  rfl

theorem reportEvents_isSome {s : ReportSubject}
    (hs : reportSubject (still v) scope subject = some s)
    (hshort : (periodRows v.db subject start stop).length ≤ 100000) :
    (reportEvents (still v) scope subject start stop).isSome := by
  obtain rfl := toSubject_of_reportSubject hs
  have hlength : ¬ 100001 ≤ (((periodRows v.db s.toSubject start stop).reverse.take
      100001).map (safeEvent v.db)).length := by
    rw [List.length_map, List.length_take, List.length_reverse]
    omega
  simp only [reportEvents, hs, Option.bind_eq_bind, Option.bind_some, still, safeEvents]
  rw [if_neg hlength]
  rfl

/-- What the figures of a report are over one unchanging state. -/
structure SameNotion (v : Stored) (loc : Location) (subject : Subject) (start stop : ℤ)
    (r : AnalyticsReport) : Prop where
  previous : ∀ clicks, r.summary.previousPeriodClicks = some clicks →
    ∀ n now scope earlier, report n (still v) now scope subject
      (previousFrom loc start r.daily.length) start loc = some earlier →
        clicks = earlier.summary.periodClicks
  total : ∀ user, subject = .user user →
    (v.db.links.rows.countP fun l => l.userId = user) ≤ 20 →
      (r.topLinks.map ReportLinkRank.periodClicks).sum = r.summary.periodClicks
  each : ∀ rank ∈ r.topLinks, ∀ n now scope own,
    report n (still v) now scope (.link rank.id) start stop loc = some own →
      rank.periodClicks = own.summary.periodClicks
  events : ∀ scope, (∃ s, reportSubject (still v) scope subject = some s) →
    (periodRows v.db subject start stop).length ≤ 100000 →
      ∃ events, reportEvents (still v) scope subject start stop = some events ∧
        (events.countP fun e => isSuccessfulRedirect e.statusCode e.routeType) =
          r.summary.periodClicks

/-- Over one state the statements of a report agree with the loop over its rows, and with the
reports of the window before, of the links and with the export. -/
theorem report_same_notion (h : report n (still v) now scope subject start stop loc = some r) :
    SameNotion v loc subject start stop r := by
  obtain ⟨hperiod, hprevious, s, rfl, htop⟩ := report_still h
  constructor
  · intro clicks hclicks m now' scope' earlier hearlier
    rw [hprevious clicks hclicks, previousPeriodClicks_eq, (report_still hearlier).1]
  · intro user huser hfew
    cases s with
    | link link => cases huser
    | user u =>
      obtain rfl : u.id = user := Subject.user.inj huser
      have htop : topLinks v.db u.id start stop = r.topLinks := Option.some.inj htop
      rw [← htop, hperiod]
      refine Eq.trans ?_ (rankLinks_sum v.db u.id start stop)
      exact ((topLinks_perm hfew).map _).sum_eq
  · intro rank hrank m now' scope' own hown
    cases s with
    | link link =>
      have htop : [] = r.topLinks := Option.some.inj htop
      rw [← htop] at hrank
      cases hrank
    | user u =>
      have htop : topLinks v.db u.id start stop = r.topLinks := Option.some.inj htop
      rw [← htop] at hrank
      obtain ⟨l, hl, -, rfl⟩ := mem_topLinks hrank
      rw [rankLink_own hl, (report_still hown).1]
      rfl
  · intro scope' ⟨s', hs'⟩ hshort
    obtain ⟨events, hevents⟩ := Option.isSome_iff_exists.mp (reportEvents_isSome hs' hshort)
    refine ⟨events, hevents, ?_⟩
    simp only [reportEvents, hs', Option.bind_eq_bind, Option.bind_some, still,
      toSubject_of_reportSubject hs'] at hevents
    rw [safeEvents_count hevents, hperiod]

end Agreement

/-- The report of `visited`: its three redirects are those of its two links and of the export. -/
theorem report_same_notion_visited :
    ∃ r events, report 90 (still visited) noon ⟨1, some 1, .customer⟩ (.user 1)
        (kolkata.midnight 20701) (kolkata.midnight 20704) kolkata = some r ∧
      SameNotion visited kolkata (.user 1) (kolkata.midnight 20701) (kolkata.midnight 20704) r ∧
      reportEvents (still visited) ⟨1, some 1, .customer⟩ (.user 1) (kolkata.midnight 20701)
        (kolkata.midnight 20704) = some events ∧
      r.summary.periodClicks = 3 ∧ (r.topLinks.map ReportLinkRank.periodClicks).sum = 3 ∧
        (events.countP fun e => isSuccessfulRedirect e.statusCode e.routeType) = 3 := by
  obtain ⟨r, hr⟩ := Option.isSome_iff_exists.mp buildReport_visited
  have h : report 90 (still visited) noon ⟨1, some 1, .customer⟩ (.user 1)
      (kolkata.midnight 20701) (kolkata.midnight 20704) kolkata = some r := hr
  have hsame := report_same_notion h
  obtain ⟨events, hevents, hcount⟩ := hsame.events ⟨1, some 1, .customer⟩ ⟨_, rfl⟩ (by decide)
  have hperiod : r.summary.periodClicks = 3 := by
    rw [(report_still h).1, periodRows_visited]
    decide
  refine ⟨r, events, h, hsame, hevents, hperiod, ?_, ?_⟩
  · exact (hsame.total 1 rfl (by decide)).trans hperiod
  · have hcount := hcount.trans hperiod
    exact_mod_cast hcount

end ReportFigures
