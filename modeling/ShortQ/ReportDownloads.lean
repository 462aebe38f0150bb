import Mathlib.Algebra.Order.BigOperators.Group.List
import ShortQ.CsvCells
import ShortQ.PasswordGate
import ShortQ.ReportFigures

/-! # The two downloads of a report

`reportRequest` with its two CSV files. Whoever holds only the files can recount the figures of
the summary from the sheet of events. -/
namespace ReportDownloads

open AuditedHandlers (formatInt)
open CsvCells
open CsvLinks (formula safeCSVCell formatBool)
open CsvText (crlf)
open GoText (Str lit isDigit)
open GoTime (Time digits)
open Hosts (trim)
open LinkHandlers (parseInt)
open LinkStore (addLinkViewScope)
open LocalDays
open Models
open ReportDays (Subject keyOf marks parseReportWindow periodRows successful)
open ReportFigures
open Schema

/-! ## The files -/

/-- `Format(time.RFC3339)` in a zone. -/
def timestamp (loc : Location) (t : Time) : Str :=
  let clock := loc.clock (unixSecond t) % 86400
  let zone := (loc.offset (unixSecond t)).tdiv 60
  formatDate (loc.dayOf (unixSecond t)) ++ 84 :: (digits 2 (clock / 3600) ++ lit ":" ++
    digits 2 (clock / 60 % 60) ++ lit ":" ++ digits 2 (clock % 60) ++
      if loc.offset (unixSecond t) = 0 then lit "Z"
      else (if zone < 0 then lit "-" else lit "+") ++ digits 2 (|zone| / 60) ++ lit ":" ++
        digits 2 (|zone| % 60))

def eventsHeader : List Str :=
  ["timestamp", "link_id", "slug", "country", "device", "browser", "os", "referrer_host",
    "utm_source", "utm_medium", "utm_campaign", "route", "is_bot", "status"].map lit

def eventCells (loc : Location) (e : SafeClickEvent) : List Str :=
  [timestamp loc e.createdAt, formatInt e.linkId, e.slug, e.countryCode, e.device, e.browser, e.os,
    e.referrerHost, e.utmSource, e.utmMedium, e.utmCampaign, e.routeType, formatBool e.isBot,
    formatInt e.statusCode]

def writeEventsCSV (loc : Location) (events : List SafeClickEvent) : Str :=
  CsvText.write (eventsHeader :: events.map fun e => (eventCells loc e).map safeCSVCell)

def summaryHeader : List Str := ["section", "metric", "label", "value"].map lit

def Dimension.name : Dimension → Str
  | .country => lit "country"
  | .device => lit "device"
  | .browser => lit "browser"
  | .os => lit "os"
  | .referrer => lit "referrer"
  | .utmSource => lit "utm_source"
  | .utmMedium => lit "utm_medium"
  | .campaign => lit "campaign"
  | .route => lit "route"
  | .status => lit "status"
  | .traffic => lit "traffic"

/-- How the quotient of the clicks and the days is printed, and the order in which the map of the
breakdowns is walked. -/
structure Printer where
  average : ℤ → ℕ → Str
  order : List Dimension
  complete : ∀ d, d ∈ order
  once : order.Nodup

def metrics (p : Printer) (r : AnalyticsReport) : List (Str × Str) :=
  [(lit "all_time_clicks", formatInt r.summary.allTimeClicks),
    (lit "period_clicks", formatInt r.summary.periodClicks),
    (lit "human_clicks", formatInt r.summary.humanClicks),
    (lit "bot_clicks", formatInt r.summary.botClicks),
    (lit "estimated_unique_visitors", formatInt r.summary.estimatedUniqueVisitors),
    (lit "expired_attempts", formatInt r.summary.expiredAttempts),
    (lit "average_clicks_per_day", p.average r.summary.periodClicks r.daily.length),
    (lit "peak_day", r.summary.peakDay),
    (lit "peak_day_clicks", formatInt r.summary.peakDayClicks),
    (lit "active_links", formatInt r.summary.activeLinks),
    (lit "deleted_links", formatInt r.summary.deletedLinks),
    (lit "private_links", formatInt r.summary.privateLinks),
    (lit "shared_links", formatInt r.summary.sharedLinks)]

def metricRow (metric : Str × Str) : List Str :=
  [lit "summary", metric.1, metric.1, safeCSVCell metric.2]

def breakdownRow (d : Dimension) (point : AnalyticsPoint) : List Str :=
  [lit "breakdown", Dimension.name d, safeCSVCell point.key, formatInt point.clicks]

def dailyRow (point : ReportDays.ReportDailyPoint) : List Str :=
  [lit "daily", lit "clicks", point.day, formatInt point.clicks]

def writeSummaryCSV (p : Printer) (r : AnalyticsReport) : Str :=
  CsvText.write (summaryHeader :: ((metrics p r).map metricRow ++
    p.order.flatMap (fun d => (r.breakdowns d).map (breakdownRow d)) ++ r.daily.map dailyRow))

/-! ## The request -/

inductive Kind where
  | link
  | user
  deriving DecidableEq, Repr

def Kind.text : Kind → Str
  | .link => lit "link"
  | .user => lit "user"

def Kind.subject : Kind → ℤ → Subject
  | .link, id => .link id
  | .user, id => .user id

/-- Why the store has nothing to answer with; a loop over more than so many days is unfinished. -/
inductive Failure where
  | noRows
  | message (text : Str)
  | panic
  | unfinished
  deriving DecidableEq, Repr

section Failures

/-! `driver k` is the text of the error of the statement in slot `k`. -/

variable (driver : ℕ → Str) (reads : ℕ → Option Stored)

def reportLinkFailure (scope : User) (id : ℤ) : Failure :=
  match addLinkViewScope scope false with
  | .error _ => .panic
  | .ok inScope =>
    match reads 0 with
    | none => .message (driver 0)
    | some s =>
      if (s.db.links.find fun r => r.id = id && inScope r).isNone then .noRows
      else .message (driver 1)

def reportUserFailure : Failure :=
  if (reads 0).isNone then .message (driver 0) else .noRows

def subjectFailure (scope : User) : Subject → Failure
  | .link id => reportLinkFailure driver reads scope id
  | .user _ => reportUserFailure driver reads

def reportEventsFailure (scope : User) (subject : Subject) : Failure :=
  if (reportSubject reads scope subject).isNone then subjectFailure driver reads scope subject
  else if (reads 2).isNone then .message (driver 2)
  else .message (lit "event export exceeds 100000 rows; choose a shorter date range")

/-- Whether `buildReport` executes the statement in slot `k`. -/
def executes (now : Time) (subject : ReportSubject) (earlier : ℤ) (k : ℕ) : Bool :=
  (k ≠ 5 || retains now earlier) &&
    (k ≠ 6 || match subject with
      | .link _ => false
      | .user _ => true)

def buildReportFailure (n : ℕ) (now : Time) (subject : ReportSubject) (start stop : ℤ)
    (loc : Location) : Failure :=
  match reads 2 with
  | none => .message (driver 2)
  | some stored =>
    if (overview stored subject).isNone then .noRows
    else
      match marks loc stop n start with
      | none => .unfinished
      | some days =>
        let failed := [3, 4, 5, 6].find? fun k =>
          executes now subject (previousFrom loc start days.length) k && (reads k).isNone
        .message (driver (failed.getD 7))

def reportFailure (n : ℕ) (now : Time) (scope : User) (subject : Subject) (start stop : ℤ)
    (loc : Location) : Failure :=
  match reportSubject reads scope subject with
  | none => subjectFailure driver reads scope subject
  | some s => buildReportFailure driver reads n now s start stop loc

end Failures

inductive Response where
  | methodNotAllowed
  | error (status : ℕ) (message : Str)
  | panic
  | unfinished
  | report (r : AnalyticsReport)
  | file (name body : Str)

/-- The answer to a failure of the store, with the status code for those that have a text. -/
def Failure.answer (status : ℕ) : Failure → Response
  | .noRows => .error 404 (lit "report not found")
  | .message text => .error status text
  | .panic => .panic
  | .unfinished => .unfinished

def reportID (u : User) (kind : Kind) (first : Str) : Option ℤ :=
  if first = [] then none
  else if kind = .user && first = lit "me" then some u.id
  else (parseInt first).filter (1 ≤ ·)

/-- The id and the format that a path names. -/
def target (u : User) (kind : Kind) (tail : Str) : Option (ℤ × Str) :=
  match (trim 47 tail).splitOn 47 with
  | [first] => (reportID u kind first).map fun id => (id, [])
  | [first, format] => (reportID u kind first).map fun id => (id, format)
  | _ => none

def fileName (kind : Kind) (id : ℤ) (what : String) : Str :=
  lit "shortq-" ++ kind.text ++ lit "-" ++ formatInt id ++ lit what

structure Query where
  timezone : Str
  fromDay : Str
  toDay : Str

/-- `reportRequest`; `now` is the time at which the window is checked, `later` that of the report,
whose loops go over at most `n` days. -/
def reportRequest (LoadLocation : Str → Option Location) (p : Printer) (driver : ℕ → Str) (n : ℕ)
    (reads : ℕ → Option Stored) (now later : Time) (u : User) (get : Bool) (kind : Kind)
    (tail : Str) (q : Query) : Response :=
  if !get then .methodNotAllowed
  else
    match target u kind tail with
    | none => .error 404 (lit "report not found")
    | some (id, format) =>
      match parseReportWindow LoadLocation now q.timezone q.fromDay q.toDay with
      | .error message => .error 400 message
      | .ok (start, stop, loc) =>
        if format = lit "events.csv" then
          match reportEvents reads u (kind.subject id) start stop with
          | none => (reportEventsFailure driver reads u (kind.subject id)).answer 400
          | some events => .file (fileName kind id "-events.csv") (writeEventsCSV loc events)
        else
          match report n reads later u (kind.subject id) start stop loc with
          | none =>
            (reportFailure driver reads n later u (kind.subject id) start stop loc).answer 500
          | some r =>
            if format = [] then .report r
            else if format = lit "summary.csv" then
              .file (fileName kind id "-summary.csv") (writeSummaryCSV p r)
            else .error 404 (lit "report not found")

/-! ## Reading the files -/

/-- A cell of the file as a reader of CSV meets it. -/
def readCell (x : Str) : Str := crlf (safeCSVCell x)

/-- A row of the sheet of events that is a redirect. -/
def redirectRow (row : List Str) : Bool :=
  row.getD 11 [] ≠ lit "expired" &&
    ["301", "302", "307", "308"].any fun status => row.getD 13 [] = lit status

def botRow (row : List Str) : Bool := row.getD 12 [] = lit "true"

def expiredRow (row : List Str) : Bool :=
  row.getD 11 [] = lit "expired" || row.getD 13 [] = lit "410"

/-- The date of the timestamp, without the apostrophe of a year below 0. -/
def dateOf (row : List Str) : Str :=
  ((row.getD 0 []).dropWhile (· = 39)).takeWhile (· ≠ 84)

/-- The value of a metric in the summary. -/
def metricValue (figures : List (List Str)) (metric : Str) : Option Str :=
  (figures.find? fun row => row.take 2 = [lit "summary", metric]).map fun row => row.getD 3 []

def sectionValue (name : Str) (row : List Str) : Option Str :=
  if row.take 2 = [lit "breakdown", name] then some (row.getD 3 []) else none

/-- The counts of a breakdown. -/
def sectionValues (figures : List (List Str)) (name : Str) : List Str :=
  figures.filterMap (sectionValue name)

def dayValue (row : List Str) : Option (Str × Str) :=
  if row.head? = some (lit "daily") then some (row.getD 2 [], row.getD 3 []) else none

/-- The days of the summary with their values. -/
def series (figures : List (List Str)) : List (Str × Str) := figures.filterMap dayValue

/-! ### Cells -/

theorem formula_space {b : UInt8} (h : (b = 32 || b = 9 || b = 13 || b = 10) = true) (x : Str) :
    formula (b :: x) = formula x := by
  rw [formula, List.dropWhile_cons_of_pos (by rw [h])]
  rfl

theorem formula_crlf (x : Str) : formula (crlf x) = formula x := by
  have hcons (b : UInt8) {s t : Str} (h : formula s = formula t) :
      formula (b :: s) = formula (b :: t) := by
    by_cases hb : (b = 32 || b = 9 || b = 13 || b = 10) = true
    · rw [formula_space hb, formula_space hb, h]
    · rw [formula_cons (Bool.eq_false_iff.mpr hb), formula_cons (Bool.eq_false_iff.mpr hb)]
  induction x using CsvText.crlf_induction with
  | nil => rfl
  | newline rest ih =>
    rw [crlf]
    exact hcons 10 ih
  | other b rest hnext ih =>
    rw [CsvText.crlf_cons hnext]
    exact hcons b ih

theorem formula_safe (x : Str) : formula (safeCSVCell x) = false := by
  unfold safeCSVCell
  split
  · rfl
  · rename_i h
    exact Bool.eq_false_iff.mpr h

/-- No cell opens a formula in a spreadsheet. -/
theorem formula_readCell (x : Str) : formula (readCell x) = false := by
  rw [readCell, formula_crlf]
  exact formula_safe x

theorem newline_mem_crlf {x : Str} (h : (10 : UInt8) ∈ x) : (10 : UInt8) ∈ crlf x := by
  induction x using CsvText.crlf_induction with
  | nil => cases h
  | newline rest ih =>
    rw [crlf]
    exact List.mem_cons_self
  | other b rest hnext ih =>
    rw [CsvText.crlf_cons hnext]
    rcases List.mem_cons.mp h with rfl | h
    · exact List.mem_cons_self
    · exact List.mem_cons_of_mem _ (ih h)

theorem crlf_of_oneLine {x : Str} (h : (10 : UInt8) ∉ x) : crlf x = x := by
  induction x using CsvText.crlf_induction with
  | nil => rfl
  | newline rest ih => exact absurd (by simp) h
  | other b rest hnext ih =>
    rw [CsvText.crlf_cons hnext, ih fun hmem => h (List.mem_cons_of_mem _ hmem)]

/-- A text that a reader is looking for, such as a status. -/
structure Sought (y : Str) : Prop where
  oneLine : (10 : UInt8) ∉ y
  plain : formula y = false
  unquoted : y.head? ≠ some 39

theorem readCell_eq_iff {x y : Str} (hy : Sought y) : readCell x = y ↔ x = y := by
  constructor
  · intro h
    unfold readCell safeCSVCell at h
    by_cases hx : formula x = true
    · rw [if_pos hx, CsvText.crlf_cons (fun h => by cases h)] at h
      exact absurd (by rw [← h]; rfl) hy.unquoted
    · rw [if_neg hx] at h
      have hline : (10 : UInt8) ∉ x := by
        intro hmem
        exact hy.oneLine (h ▸ newline_mem_crlf hmem)
      rw [← h, crlf_of_oneLine hline]
  · rintro rfl
    rw [readCell, safeCSVCell, if_neg (by rw [hy.plain]; decide)]
    exact crlf_of_oneLine hy.oneLine

theorem readCell_number {i : ℤ} {text : String} {j : ℤ} (hy : Sought (lit text))
    (htext : lit text = formatInt j) : readCell (formatInt i) = lit text ↔ i = j := by
  rw [readCell_eq_iff hy, htext]
  constructor
  · exact PasswordGate.formatInt_inj
  · intro h
    rw [h]

/-! ### The sheet of events -/

def eventRow (loc : Location) (e : SafeClickEvent) : List Str := (eventCells loc e).map readCell

def dateByte (b : UInt8) : Bool := b = 45 || isDigit b

theorem dateByte_formatInt {i : ℤ} {b : UInt8} (h : b ∈ formatInt i) : dateByte b = true := by
  have hdigit {n : ℕ} (hb : b ∈ lit (Nat.repr n)) : dateByte b = true := by
    rw [dateByte, DecimalText.digit_of_mem_repr hb, Bool.or_true]
  cases i with
  | ofNat n => exact hdigit h
  | negSucc n =>
    rw [PasswordGate.formatInt_negSucc] at h
    rcases List.mem_cons.mp h with rfl | h
    · rfl
    · exact hdigit h

theorem dateByte_digits {k : ℕ} {v : ℤ} {b : UInt8} (h : b ∈ digits k v) : dateByte b = true := by
  rcases List.mem_append.mp h with h | h
  · rw [List.eq_of_mem_replicate h]
    rfl
  · exact dateByte_formatInt h

theorem dateByte_formatDate {day : ℤ} {b : UInt8} (h : b ∈ formatDate day) : dateByte b = true := by
  unfold formatDate at h
  simp only [List.mem_append, lit_hyphen, List.mem_singleton] at h
  rcases h with (((h | rfl) | h) | rfl) | h
  · split at h
    · rcases List.mem_cons.mp h with rfl | h
      · rfl
      · exact dateByte_digits h
    · exact dateByte_digits h
  · rfl
  · exact dateByte_digits h
  · rfl
  · exact dateByte_digits h

theorem dateByte_spec : ∀ b : UInt8, dateByte b = true → b ≠ 13 ∧ b ≠ 39 ∧ b ≠ 84 :=
  Runes.forall_byte (by decide +kernel)

theorem return_notMem_timestamp (loc : Location) (t : Time) : (13 : UInt8) ∉ timestamp loc t := by
  have hdigits (k : ℕ) (v : ℤ) : (13 : UInt8) ∉ digits k v :=
    fun h => (dateByte_spec 13 (dateByte_digits h)).1 rfl
  have hdate : (13 : UInt8) ∉ formatDate (loc.dayOf (unixSecond t)) :=
    fun h => (dateByte_spec 13 (dateByte_formatDate h)).1 rfl
  have hlit : (13 : UInt8) ∉ lit ":" ∧ (13 : UInt8) ∉ lit "Z" ∧ (13 : UInt8) ∉ lit "-" ∧
      (13 : UInt8) ∉ lit "+" := by decide
  unfold timestamp
  dsimp only
  split_ifs
  all_goals simp [hdigits, hdate, hlit]

/-- The reader finds the local date of an event. -/
theorem dateOf_eventRow (loc : Location) (e : SafeClickEvent) :
    dateOf (eventRow loc e) = keyOf loc (unixSecond e.createdAt) := by
  have hreturn := return_notMem_timestamp loc e.createdAt
  obtain ⟨rest, hrest⟩ : ∃ rest, timestamp loc e.createdAt =
      formatDate (loc.dayOf (unixSecond e.createdAt)) ++ 84 :: rest := ⟨_, rfl⟩
  have hbytes : ∀ b ∈ formatDate (loc.dayOf (unixSecond e.createdAt)), b ≠ 39 ∧ b ≠ 84 :=
    fun b hb => (dateByte_spec b (dateByte_formatDate hb)).2
  have hbare : (timestamp loc e.createdAt).dropWhile (· = 39) = timestamp loc e.createdAt := by
    rw [hrest]
    cases hdate : formatDate (loc.dayOf (unixSecond e.createdAt)) with
    | nil => rfl
    | cons b date =>
      rw [hdate] at hbytes
      exact List.dropWhile_cons_of_neg (by simpa using (hbytes b List.mem_cons_self).1)
  have hcell : (readCell (timestamp loc e.createdAt)).dropWhile (· = 39) =
      timestamp loc e.createdAt := by
    unfold readCell safeCSVCell
    split
    · have hquoted : (13 : UInt8) ∉ 39 :: timestamp loc e.createdAt := by
        rw [List.mem_cons, not_or]
        exact ⟨by decide, hreturn⟩
      rw [CsvText.crlf_of_notMem hquoted, List.dropWhile_cons_of_pos rfl]
      exact hbare
    · rw [CsvText.crlf_of_notMem hreturn]
      exact hbare
  change ((readCell (timestamp loc e.createdAt)).dropWhile (· = 39)).takeWhile (· ≠ 84) = _
  rw [hcell, hrest, List.takeWhile_append_of_pos]
  · simp [keyOf]
  · intro b hb
    simpa using (hbytes b hb).2

theorem sought_expired : Sought (lit "expired") := ⟨by decide, by decide, by decide⟩

theorem status_cell (i : ℤ) (text : String) (j : ℤ) (hy : Sought (lit text))
    (htext : lit text = formatInt j) :
    decide (readCell (formatInt i) = lit text) = decide (i = j) :=
  decide_eq_decide.mpr (readCell_number hy htext)

theorem redirectRow_eventRow (loc : Location) (e : SafeClickEvent) :
    redirectRow (eventRow loc e) = ReportDays.isSuccessfulRedirect e.statusCode e.routeType := by
  have hstatus := status_cell e.statusCode
  have hroute : decide (readCell e.routeType ≠ lit "expired") =
      decide (e.routeType ≠ lit "expired") :=
    decide_eq_decide.mpr (not_congr (readCell_eq_iff sought_expired))
  change (decide (readCell e.routeType ≠ lit "expired") && ["301", "302", "307", "308"].any
    fun status => decide (readCell (formatInt e.statusCode) = lit status)) = _
  simp only [List.any_cons, List.any_nil, Bool.or_false]
  rw [hroute, hstatus "301" 301 ⟨by decide, by decide, by decide⟩ (by decide),
    hstatus "302" 302 ⟨by decide, by decide, by decide⟩ (by decide),
    hstatus "307" 307 ⟨by decide, by decide, by decide⟩ (by decide),
    hstatus "308" 308 ⟨by decide, by decide, by decide⟩ (by decide),
    ReportDays.isSuccessfulRedirect, Bool.or_assoc, Bool.or_assoc]

theorem botRow_eventRow (loc : Location) (e : SafeClickEvent) :
    botRow (eventRow loc e) = e.isBot := by
  change decide (readCell (formatBool e.isBot) = lit "true") = e.isBot
  cases e.isBot
  · decide
  · decide

theorem expiredRow_eventRow (loc : Location) (e : SafeClickEvent) :
    expiredRow (eventRow loc e) = (e.routeType = lit "expired" || e.statusCode = 410) := by
  have hroute : decide (readCell e.routeType = lit "expired") =
      decide (e.routeType = lit "expired") :=
    decide_eq_decide.mpr (readCell_eq_iff sought_expired)
  change (decide (readCell e.routeType = lit "expired") ||
    decide (readCell (formatInt e.statusCode) = lit "410")) = _
  rw [hroute, status_cell e.statusCode "410" 410 ⟨by decide, by decide, by decide⟩ (by decide)]

/-! ### The summary -/

theorem sheet_read (loc : Location) (events : List SafeClickEvent) :
    CsvText.read (writeEventsCSV loc events) =
      some (eventsHeader :: events.map (eventRow loc)) := by
  have hwidth : ∀ row ∈ eventsHeader :: events.map (fun e => (eventCells loc e).map safeCSVCell),
      row.length = 14 := by
    intro row hrow
    rcases List.mem_cons.mp hrow with rfl | hrow
    · rfl
    · obtain ⟨e, -, rfl⟩ := List.mem_map.mp hrow
      rfl
  rw [writeEventsCSV, CsvText.read_write (by decide) hwidth, List.map_cons, List.map_map]
  refine congrArg some (congrArg₂ List.cons (by decide) (List.map_congr_left fun e _ => ?_))
  exact List.map_map

def readMetric (metric : Str × Str) : List Str :=
  [lit "summary", crlf metric.1, crlf metric.1, readCell metric.2]

def readBreakdown (d : Dimension) (point : AnalyticsPoint) : List Str :=
  [lit "breakdown", Dimension.name d, readCell point.key, formatInt point.clicks]

def figuresOf (p : Printer) (r : AnalyticsReport) : List (List Str) :=
  (metrics p r).map readMetric ++
    p.order.flatMap (fun d => (r.breakdowns d).map (readBreakdown d)) ++ r.daily.map dailyRow

theorem crlf_formatInt (i : ℤ) : crlf (formatInt i) = formatInt i :=
  CsvText.crlf_of_notMem fun h => (dateByte_spec 13 (dateByte_formatInt h)).1 rfl

theorem name_inj {d e : Dimension} (h : Dimension.name d = Dimension.name e) : d = e := by
  revert h
  cases d <;> cases e <;> decide

theorem crlf_name (d : Dimension) : crlf (Dimension.name d) = Dimension.name d := by
  cases d <;> decide

theorem summary_read {p : Printer} {r : AnalyticsReport}
    (hdays : ∀ point ∈ r.daily, (13 : UInt8) ∉ point.day) :
    CsvText.read (writeSummaryCSV p r) = some (summaryHeader :: figuresOf p r) := by
  have hwidth : ∀ row ∈ summaryHeader :: ((metrics p r).map metricRow ++
      p.order.flatMap (fun d => (r.breakdowns d).map (breakdownRow d)) ++ r.daily.map dailyRow),
      row.length = 4 := by
    intro row hrow
    simp only [List.mem_cons, List.mem_append, List.mem_map, List.mem_flatMap] at hrow
    rcases hrow with rfl | (⟨metric, -, rfl⟩ | ⟨d, -, point, -, rfl⟩) | ⟨point, -, rfl⟩
    all_goals rfl
  rw [writeSummaryCSV, CsvText.read_write (by decide) hwidth, List.map_cons]
  refine congrArg some (congrArg₂ List.cons (by decide) ?_)
  rw [List.map_append, List.map_append, List.map_map, List.map_flatMap, List.map_map, figuresOf]
  refine congrArg₂ _ (congrArg₂ _ ?_ ?_) ?_
  · refine List.map_congr_left fun metric _ => ?_
    have hsummary : crlf (lit "summary") = lit "summary" := by decide
    simp only [Function.comp_apply, metricRow, List.map_cons, List.map_nil, hsummary]
    rfl
  · refine List.flatMap_congr fun d _ => ?_
    rw [List.map_map]
    refine List.map_congr_left fun point _ => ?_
    have hbreakdown : crlf (lit "breakdown") = lit "breakdown" := by decide
    simp only [Function.comp_apply, breakdownRow, List.map_cons, List.map_nil, hbreakdown,
      crlf_name, crlf_formatInt]
    rfl
  · refine List.map_congr_left fun point hpoint => ?_
    have hdaily : crlf (lit "daily") = lit "daily" := by decide
    have hclicks : crlf (lit "clicks") = lit "clicks" := by decide
    simp only [Function.comp_apply, dailyRow, List.map_cons, List.map_nil, hdaily, hclicks,
      crlf_formatInt, CsvText.crlf_of_notMem (hdays point hpoint)]

theorem dayValue_metric (metric : Str × Str) : dayValue (readMetric metric) = none :=
  if_neg fun h => absurd (Option.some.inj h) (by decide)

theorem dayValue_breakdown (d : Dimension) (point : AnalyticsPoint) :
    dayValue (readBreakdown d point) = none :=
  if_neg fun h => absurd (Option.some.inj h) (by decide)

theorem dayValue_daily (point : ReportDays.ReportDailyPoint) :
    dayValue (dailyRow point) = some (point.day, formatInt point.clicks) := if_pos rfl

theorem series_figures (p : Printer) (r : AnalyticsReport) :
    series (figuresOf p r) = r.daily.map fun point => (point.day, formatInt point.clicks) := by
  have hbefore : ((metrics p r).map readMetric ++ p.order.flatMap fun d =>
      (r.breakdowns d).map (readBreakdown d)).filterMap dayValue = [] := by
    rw [List.filterMap_eq_nil_iff]
    intro row hrow
    simp only [List.mem_append, List.mem_map, List.mem_flatMap] at hrow
    rcases hrow with ⟨metric, -, rfl⟩ | ⟨d, -, point, -, rfl⟩
    · exact dayValue_metric metric
    · exact dayValue_breakdown d point
  rw [series, figuresOf, List.filterMap_append, hbefore, List.filterMap_map, List.nil_append,
    ← List.filterMap_eq_map]
  exact List.filterMap_congr fun point _ => dayValue_daily point

theorem sectionValue_breakdown (d e : Dimension) (point : AnalyticsPoint) :
    sectionValue (Dimension.name d) (readBreakdown e point) =
      if e = d then some (formatInt point.clicks) else none := by
  have hsame : (readBreakdown e point).take 2 = [lit "breakdown", Dimension.name d] ↔ e = d := by
    constructor
    · intro h
      exact name_inj (List.cons.inj (List.cons.inj h).2).1
    · rintro rfl
      rfl
  by_cases h : e = d
  · rw [if_pos h]
    exact if_pos (hsame.mpr h)
  · rw [if_neg h]
    exact if_neg (h ∘ hsame.mp)

theorem flatMap_once {α β : Type*} [DecidableEq α] {order : List α} {a : α} (hmem : a ∈ order)
    (honce : order.Nodup) (l : List β) :
    (order.flatMap fun b => if b = a then l else []) = l := by
  induction order with
  | nil => cases hmem
  | cons b order ih =>
    rw [List.flatMap_cons]
    obtain ⟨hb, honce⟩ := List.nodup_cons.mp honce
    by_cases hba : b = a
    · have hrest : (order.flatMap fun b => if b = a then l else []) = [] := by
        rw [List.flatMap_eq_nil_iff]
        intro c hc
        apply if_neg
        rintro rfl
        exact hb (hba ▸ hc)
      rw [if_pos hba, hrest, List.append_nil]
    · rw [if_neg hba, List.nil_append]
      exact ih ((List.mem_cons.mp hmem).resolve_left (Ne.symm hba)) honce

/-- The rows of a dimension stand together, whatever the order of the dimensions. -/
theorem sectionValues_figures (p : Printer) (r : AnalyticsReport) (d : Dimension) :
    sectionValues (figuresOf p r) (Dimension.name d) =
      ((r.breakdowns d).map AnalyticsPoint.clicks).map formatInt := by
  have hmetrics : ((metrics p r).map readMetric).filterMap (sectionValue (Dimension.name d)) =
      [] := by
    rw [List.filterMap_eq_nil_iff]
    intro row hrow
    obtain ⟨metric, -, rfl⟩ := List.mem_map.mp hrow
    exact if_neg fun h => absurd (List.cons.inj h).1 (by decide)
  have hdays : (r.daily.map dailyRow).filterMap (sectionValue (Dimension.name d)) = [] := by
    rw [List.filterMap_eq_nil_iff]
    intro row hrow
    obtain ⟨point, -, rfl⟩ := List.mem_map.mp hrow
    exact if_neg fun h => absurd (List.cons.inj h).1 (by decide)
  have hdimension (e : Dimension) : ((r.breakdowns e).map (readBreakdown e)).filterMap
      (sectionValue (Dimension.name d)) =
        if e = d then ((r.breakdowns d).map AnalyticsPoint.clicks).map formatInt else [] := by
    by_cases h : e = d
    · subst h
      rw [if_pos rfl, List.filterMap_map, List.map_map, ← List.filterMap_eq_map]
      refine List.filterMap_congr fun point _ => ?_
      exact (sectionValue_breakdown e e point).trans (if_pos rfl)
    · rw [if_neg h, List.filterMap_eq_nil_iff]
      intro row hrow
      obtain ⟨point, -, rfl⟩ := List.mem_map.mp hrow
      exact (sectionValue_breakdown d e point).trans (if_neg h)
  rw [sectionValues, figuresOf, List.filterMap_append, List.filterMap_append, hmetrics, hdays,
    List.filterMap_flatMap, List.nil_append, List.append_nil]
  simp only [hdimension]
  exact flatMap_once (p.complete d) p.once _

/-! ## The counts behind the figures -/

section Counts

variable {loc : Location}

theorem expired_rows (rows : List ClickRow) (daily : Str → Option ReportDays.ReportDailyPoint) :
    (rows.foldl (ReportDays.countRow loc) ⟨{}, daily⟩).summary.expiredAttempts =
      rows.countP fun c => c.routeType = lit "expired" || c.statusCode = 410 := by
  induction rows using List.reverseRecOn with
  | nil => rfl
  | append_singleton rows c ih =>
    rw [List.foldl_append, List.foldl_cons, List.foldl_nil, List.countP_append,
      List.countP_singleton, Nat.cast_add, ← ih]
    generalize rows.foldl (ReportDays.countRow loc) ⟨{}, daily⟩ = tally
    have hcount (s : ReportDays.ReportSummary) (bot : Bool) :
        (s.count bot).expiredAttempts = s.expiredAttempts := by
      cases bot <;> rfl
    have hstep : (ReportDays.countRow loc tally c).summary.expiredAttempts =
        (if c.routeType = lit "expired" || c.statusCode = 410 then
          { tally.summary with expiredAttempts := tally.summary.expiredAttempts + 1 }
        else tally.summary).expiredAttempts := by
      unfold ReportDays.countRow
      dsimp only
      split
      · rfl
      · exact hcount _ _
    rw [hstep]
    split
    · rfl
    · exact (Int.add_zero _).symm

theorem expired_foldl (s : ReportDays.ReportSummary) (daily : List ReportDays.ReportDailyPoint) :
    (daily.foldl ReportDays.addPeak s).expiredAttempts = s.expiredAttempts := by
  induction daily generalizing s with
  | nil => rfl
  | cons p daily ih =>
    rw [List.foldl_cons, ih, ReportDays.addPeak]
    split
    · rfl
    · rfl

theorem nonneg_bump {counts : Counts} (h : ∀ p ∈ counts.rows, 0 ≤ p.clicks) (key : Str) :
    ∀ p ∈ (bump counts key).rows, 0 ≤ p.clicks := by
  unfold bump RowTable.Table.upsert
  cases hinsert : counts.insert ⟨key, 1⟩ with
  | some grown =>
    dsimp only
    rw [(RowTable.Table.insert_eq_some.mp hinsert).2]
    intro p hp
    rcases List.mem_append.mp hp with hp | hp
    · exact h p hp
    · rw [List.mem_singleton.mp hp]
      exact Int.one_nonneg
  | none =>
    dsimp only
    rw [RowTable.Table.rows_update]
    intro p hp
    obtain ⟨q, hq, rfl⟩ := List.mem_map.mp hp
    have hle := h q hq
    split
    · exact Int.add_nonneg hle Int.one_nonneg
    · exact hle

theorem nonneg_dimension (rows : List ClickRow) (days : List ℤ) (d : Dimension) :
    ∀ p ∈ ((rows.foldl (countRow loc) (.initial loc days)).dimensions d).rows, 0 ≤ p.clicks := by
  induction rows using List.reverseRecOn with
  | nil =>
    intro p hp
    cases hp
  | append_singleton rows c ih =>
    rw [List.foldl_append, List.foldl_cons, List.foldl_nil]
    generalize rows.foldl (countRow loc) (.initial loc days) = figures at ih ⊢
    rw [countRow]
    dsimp only
    split
    · exact nonneg_bump ih _
    · exact ih

theorem nonneg_sortedPoints {counts : Counts} (h : ∀ p ∈ counts.rows, 0 ≤ p.clicks) (limit : ℕ) :
    ∀ p ∈ sortedPoints counts limit, 0 ≤ p.clicks := by
  have hsorted : ∀ p ∈ counts.rows.mergeSort fun a b => !before b a, 0 ≤ p.clicks :=
    fun p hp => h p (List.mem_mergeSort.mp hp)
  unfold sortedPoints
  dsimp only
  split
  · intro p hp
    rcases List.mem_append.mp hp with hp | hp
    · exact hsorted p (List.mem_of_mem_take hp)
    · rw [List.mem_singleton.mp hp]
      refine List.sum_nonneg fun clicks hclicks => ?_
      obtain ⟨q, hq, rfl⟩ := List.mem_map.mp hclicks
      exact hsorted q (List.mem_of_mem_drop hq)
  · exact hsorted

end Counts

/-! ## The files of one state -/

section Files

variable {v : Stored} {loc : Location} {subject : Subject} {start stop : ℤ}

/-- What the summary counts over the rows of the window. -/
structure CountedReport (loc : Location) (rows : List ClickRow) (days : List ℤ)
    (r : AnalyticsReport) : Prop where
  figures : ReportDays.Counted rows r.summary.toReportSummary
  expired : r.summary.expiredAttempts =
    rows.countP fun c => c.routeType = lit "expired" || c.statusCode = 410
  daily : r.daily = days.map fun day => ReportDays.pointOf loc rows (keyOf loc day)
  nonneg : ∀ d, ∀ p ∈ r.breakdowns d, 0 ≤ p.clicks
  total : ∀ d, clicksOf (r.breakdowns d) = rows.countP fun c => d.ofEveryRow || successful c

theorem buildReport_expired {n : ℕ} {now : Time} {s : ReportSubject} {r : AnalyticsReport}
    (h : buildReport n (still v) now s start stop loc = some r) : r.summary.expiredAttempts =
      (periodRows v.db s.toSubject start stop).countP fun c =>
        c.routeType = lit "expired" || c.statusCode = 410 := by
  simp only [buildReport, Option.bind_eq_bind, Option.bind_eq_some_iff] at h
  obtain ⟨⟨described, figures⟩, -, days, -, stored, hstored, daily, -, unique, -,
    previous, -, top, -, events, -, hreport⟩ := h
  obtain rfl := Option.some.inj hreport
  obtain rfl := Option.some.inj hstored
  dsimp only
  rw [expired_foldl, tally_countRow]
  exact expired_rows _ _

theorem counts_of_report {n : ℕ} {later : Time} {u : User} {r : AnalyticsReport}
    (h : report n (still v) later u subject start stop loc = some r) :
    ∃ days, marks loc stop n start = some days ∧
      CountedReport loc (periodRows v.db subject start stop) days r := by
  obtain ⟨s, hs, hreport⟩ := Option.bind_eq_some_iff.mp h
  obtain rfl := toSubject_of_reportSubject hs
  obtain ⟨days, rows, hdays, hreported⟩ := buildReport_spec hreport
  obtain rfl := Option.some.inj hreported.read
  refine ⟨days, hdays, hreported.counted, buildReport_expired hreport, hreported.points, ?_, ?_⟩
  · intro d
    rw [hreported.breakdowns]
    exact nonneg_sortedPoints (nonneg_dimension _ days d) 10
  · intro d
    rw [hreported.breakdowns, clicksOf_sortedPoints, clicksOf_dimension]

/-- The sheet of events has one row for each row of the window, the newest first. -/
theorem events_of_rows {u : User} {events : List SafeClickEvent}
    (h : reportEvents (still v) u subject start stop = some events) :
    events = (periodRows v.db subject start stop).reverse.map (safeEvent v.db) := by
  simp only [reportEvents, Option.bind_eq_bind, Option.bind_eq_some_iff] at h
  obtain ⟨s, hs, stored, hstored, hevents⟩ := h
  obtain rfl := Option.some.inj hstored
  rw [toSubject_of_reportSubject hs] at hevents
  obtain ⟨hshort, hevents⟩ := Option.ite_none_left_eq_some.mp hevents
  rw [List.length_map, List.length_take, List.length_reverse] at hshort
  rw [← Option.some.inj hevents, List.take_of_length_le (by rw [List.length_reverse]; omega)]

/-- A count over the sheet is one over the rows of the window. -/
theorem countP_sheet (rows : List ClickRow) {p : List Str → Bool} {q : ClickRow → Bool}
    (h : ∀ c, p (eventRow loc (safeEvent v.db c)) = q c) :
    ((rows.reverse.map (safeEvent v.db)).map (eventRow loc)).countP p = rows.countP q := by
  rw [List.map_map, List.countP_map, List.countP_reverse]
  exact List.countP_congr fun c _ => by rw [Function.comp_apply, Function.comp_apply, h]

end Files

/-- What a reader of the two files finds: the figures of the summary, its days and its breakdowns
are counts over the sheet, and no cell opens a formula but the label of a day before the year 0. -/
structure Recounted (sheet figures : List (List Str)) (dates : List Str) : Prop where
  period : metricValue figures (lit "period_clicks") =
    some (formatInt (sheet.countP redirectRow))
  human : metricValue figures (lit "human_clicks") =
    some (formatInt (sheet.countP fun row => redirectRow row && !botRow row))
  bots : metricValue figures (lit "bot_clicks") =
    some (formatInt (sheet.countP fun row => redirectRow row && botRow row))
  expired : metricValue figures (lit "expired_attempts") =
    some (formatInt (sheet.countP expiredRow))
  days : series figures = dates.map fun date =>
    (date, formatInt (sheet.countP fun row => redirectRow row && dateOf row = date))
  breakdowns : ∀ d : Dimension, ∃ clicks : List ℤ,
    sectionValues figures (Dimension.name d) = clicks.map formatInt ∧
      clicks.sum = sheet.countP fun row => d.ofEveryRow || redirectRow row
  sheetCells : ∀ row ∈ sheet, ∀ x ∈ row, formula x = false
  figureCells : ∀ row ∈ figures, ∀ x ∈ row, formula x = true → x ∈ dates ∧ x.head? = some 45

theorem readCell_natCast (n : ℕ) : readCell (formatInt n) = formatInt n := by
  have hplain : formula (formatInt n) = false := (survives_repr n).plain
  rw [readCell, safeCSVCell, if_neg (by rw [hplain]; decide), crlf_formatInt]

theorem formula_date {day : ℤ} (h : formula (formatDate day) = true) :
    (formatDate day).head? = some 45 := by
  cases hdate : formatDate day with
  | nil =>
    rw [hdate] at h
    cases h
  | cons b rest =>
    have hb : dateByte b = true := dateByte_formatDate (hdate ▸ List.mem_cons_self)
    have hspec : ∀ b : UInt8, dateByte b = true →
        (b = 32 || b = 9 || b = 13 || b = 10) = false ∧
          ((b = 61 || b = 43 || b = 45 || b = 64) = true → b = 45) :=
      Runes.forall_byte (by decide +kernel)
    rw [hdate, formula_cons (hspec b hb).1] at h
    rw [(hspec b hb).2 h]
    rfl

section Answers

variable {LoadLocation : Str → Option Location} {p : Printer} {driver : ℕ → Str} {n : ℕ}
  {reads : ℕ → Option Stored} {now later : Time} {u : User} {kind : Kind} {id : ℤ}
  {tail name body : Str} {q : Query} {start stop : ℤ} {loc : Location}

theorem reportRequest_events (htarget : target u kind tail = some (id, lit "events.csv"))
    (hwindow : parseReportWindow LoadLocation now q.timezone q.fromDay q.toDay =
      .ok (start, stop, loc)) :
    reportRequest LoadLocation p driver n reads now later u true kind tail q =
      match reportEvents reads u (kind.subject id) start stop with
      | none => (reportEventsFailure driver reads u (kind.subject id)).answer 400
      | some events => .file (fileName kind id "-events.csv") (writeEventsCSV loc events) := by
  simp only [reportRequest, Bool.not_true, Bool.false_eq_true, if_false, htarget, hwindow]
  rw [if_pos trivial]

theorem reportRequest_summary (htarget : target u kind tail = some (id, lit "summary.csv"))
    (hwindow : parseReportWindow LoadLocation now q.timezone q.fromDay q.toDay =
      .ok (start, stop, loc)) :
    reportRequest LoadLocation p driver n reads now later u true kind tail q =
      match report n reads later u (kind.subject id) start stop loc with
      | none => (reportFailure driver reads n later u (kind.subject id) start stop loc).answer 500
      | some r => .file (fileName kind id "-summary.csv") (writeSummaryCSV p r) := by
  have hformat : lit "summary.csv" ≠ lit "events.csv" ∧ lit "summary.csv" ≠ [] := by decide
  simp only [reportRequest, Bool.not_true, Bool.false_eq_true, if_false, htarget, hwindow]
  rw [if_neg hformat.1]
  cases report n reads later u (kind.subject id) start stop loc with
  | none => rfl
  | some r =>
    dsimp only
    rw [if_neg hformat.2, if_pos trivial]

theorem Failure.answer_ne_file (f : Failure) (status : ℕ) : f.answer status ≠ .file name body := by
  intro h
  cases f <;> cases h

theorem reportEventsFailure_unseen {subject : Subject}
    (hunseen : reportSubject reads u subject = none) :
    reportEventsFailure driver reads u subject = subjectFailure driver reads u subject := by
  unfold reportEventsFailure
  rw [hunseen]
  rfl

theorem reportFailure_unseen {subject : Subject}
    (hunseen : reportSubject reads u subject = none) :
    reportFailure driver reads n later u subject start stop loc =
      subjectFailure driver reads u subject := by
  unfold reportFailure
  rw [hunseen]

/-- A subject outside the user's view is one that is not there. -/
theorem subjectFailure_unseen {subject : Subject} (hreads : ∀ k, (reads k).isSome)
    (hplaced : u.role = .tenant → u.tenantId.isSome)
    (hunseen : reportSubject reads u subject = none) :
    subjectFailure driver reads u subject = .noRows := by
  obtain ⟨s, hs⟩ := Option.isSome_iff_exists.mp (hreads 0)
  obtain ⟨s', hs'⟩ := Option.isSome_iff_exists.mp (hreads 1)
  cases subject with
  | user id =>
    change (if (reads 0).isNone then _ else _) = _
    rw [hs]
    rfl
  | link id =>
    obtain ⟨inScope, hscope⟩ : ∃ inScope, addLinkViewScope u false = .ok inScope := by
      unfold addLinkViewScope
      cases hrole : u.role with
      | superadmin => exact ⟨_, rfl⟩
      | tenant =>
        obtain ⟨t, ht⟩ := Option.isSome_iff_exists.mp (hplaced hrole)
        rw [ht]
        exact ⟨_, rfl⟩
      | customer => cases u.tenantId <;> exact ⟨_, rfl⟩
    have hnone : (s.db.links.find fun r => r.id = id && inScope r) = none := by
      by_contra hfound
      obtain ⟨row, hrow⟩ := Option.ne_none_iff_exists'.mp hfound
      simp only [reportSubject, reportLink, hscope, hs, hs', Except.toOption, hrow,
        Option.bind_eq_bind, Option.bind_some, Option.map_some] at hunseen
      cases hunseen
    change reportLinkFailure driver reads u id = _
    unfold reportLinkFailure
    rw [hscope, hs]
    dsimp only
    rw [hnone]
    rfl

/-- While the statements succeed, what a user may not see and what there is not are answered alike,
in every format. -/
theorem reportRequest_unseen {format : Str} (htarget : target u kind tail = some (id, format))
    (hwindow : parseReportWindow LoadLocation now q.timezone q.fromDay q.toDay =
      .ok (start, stop, loc)) (hreads : ∀ k, (reads k).isSome)
    (hplaced : u.role = .tenant → u.tenantId.isSome)
    (hunseen : reportSubject reads u (kind.subject id) = none) :
    reportRequest LoadLocation p driver n reads now later u true kind tail q =
      .error 404 (lit "report not found") := by
  have hevents : reportEvents reads u (kind.subject id) start stop = none := by
    rw [reportEvents, hunseen]
    rfl
  have hreport : report n reads later u (kind.subject id) start stop loc = none := by
    rw [report, hunseen]
    rfl
  simp only [reportRequest, Bool.not_true, Bool.false_eq_true, if_false, htarget, hwindow, hevents,
    hreport, reportEventsFailure_unseen hunseen, reportFailure_unseen hunseen,
    subjectFailure_unseen hreads hplaced hunseen, Failure.answer, ite_self]

theorem events_file
    (h : reportRequest LoadLocation p driver n reads now later u true kind tail q = .file name body)
    (htarget : target u kind tail = some (id, lit "events.csv"))
    (hwindow : parseReportWindow LoadLocation now q.timezone q.fromDay q.toDay =
      .ok (start, stop, loc)) :
    ∃ events, reportEvents reads u (kind.subject id) start stop = some events ∧
      body = writeEventsCSV loc events := by
  rw [reportRequest_events htarget hwindow] at h
  cases hevents : reportEvents reads u (kind.subject id) start stop with
  | none =>
    rw [hevents] at h
    exact absurd h (Failure.answer_ne_file _ _)
  | some events =>
    rw [hevents] at h
    exact ⟨events, rfl, (Response.file.inj h).2.symm⟩

theorem summary_file
    (h : reportRequest LoadLocation p driver n reads now later u true kind tail q = .file name body)
    (htarget : target u kind tail = some (id, lit "summary.csv"))
    (hwindow : parseReportWindow LoadLocation now q.timezone q.fromDay q.toDay =
      .ok (start, stop, loc)) :
    ∃ r, report n reads later u (kind.subject id) start stop loc = some r ∧
      body = writeSummaryCSV p r := by
  rw [reportRequest_summary htarget hwindow] at h
  cases hreport : report n reads later u (kind.subject id) start stop loc with
  | none =>
    rw [hreport] at h
    exact absurd h (Failure.answer_ne_file _ _)
  | some r =>
    rw [hreport] at h
    exact ⟨r, rfl, (Response.file.inj h).2.symm⟩

end Answers

theorem formula_formatInt {i : ℤ} (h : 0 ≤ i) : formula (formatInt i) = false := by
  obtain ⟨n, rfl⟩ := Int.eq_ofNat_of_zero_le h
  exact (survives_repr n).plain

/-- Every cell of the summary is safe but the labels of its days. -/
theorem formula_figures {p : Printer} {r : AnalyticsReport}
    (hbreakdowns : ∀ d, ∀ point ∈ r.breakdowns d, 0 ≤ point.clicks)
    (hdaily : ∀ point ∈ r.daily, 0 ≤ point.clicks) :
    ∀ row ∈ figuresOf p r, ∀ x ∈ row, formula x = true → ∃ point ∈ r.daily, x = point.day := by
  have hmetric : ∀ metric ∈ metrics p r, formula (crlf metric.1) = false := by
    intro metric hmem
    rw [formula_crlf]
    simp only [metrics, List.mem_cons, List.not_mem_nil, or_false] at hmem
    rcases hmem with rfl | rfl | rfl | rfl | rfl | rfl | rfl | rfl | rfl | rfl | rfl | rfl | rfl
    all_goals rfl
  have hname : ∀ d, formula (Dimension.name d) = false := by
    intro d
    cases d <;> decide
  have hlit : formula (lit "summary") = false ∧ formula (lit "breakdown") = false ∧
      formula (lit "daily") = false ∧ formula (lit "clicks") = false := by decide
  intro row hrow x hx hformula
  simp only [figuresOf, List.mem_append, List.mem_map, List.mem_flatMap] at hrow
  rcases hrow with (⟨metric, hmem, rfl⟩ | ⟨d, -, point, hpoint, rfl⟩) | ⟨point, hpoint, rfl⟩
  · simp only [readMetric, List.mem_cons, List.not_mem_nil, or_false] at hx
    rcases hx with rfl | rfl | rfl | rfl
    · simp [hlit] at hformula
    · simp [hmetric metric hmem] at hformula
    · simp [hmetric metric hmem] at hformula
    · simp [formula_readCell] at hformula
  · simp only [readBreakdown, List.mem_cons, List.not_mem_nil, or_false] at hx
    rcases hx with rfl | rfl | rfl | rfl
    · simp [hlit] at hformula
    · simp [hname] at hformula
    · simp [formula_readCell] at hformula
    · simp [formula_formatInt (hbreakdowns d point hpoint)] at hformula
  · simp only [dailyRow, List.mem_cons, List.not_mem_nil, or_false] at hx
    rcases hx with rfl | rfl | rfl | rfl
    · simp [hlit] at hformula
    · simp [hlit] at hformula
    · exact ⟨point, hpoint, rfl⟩
    · simp [formula_formatInt (hdaily point hpoint)] at hformula

theorem recounted_of_counts {v : Stored} {loc : Location} {rows : List ClickRow} {days : List ℤ}
    {p : Printer} {r : AnalyticsReport} (h : CountedReport loc rows days r) :
    Recounted ((rows.reverse.map (safeEvent v.db)).map (eventRow loc)) (figuresOf p r)
      (days.map (keyOf loc)) := by
  have hredirect (c : ClickRow) : redirectRow (eventRow loc (safeEvent v.db c)) = successful c :=
    redirectRow_eventRow loc _
  have hbot (c : ClickRow) : botRow (eventRow loc (safeEvent v.db c)) = c.isBot :=
    botRow_eventRow loc _
  have hdate (c : ClickRow) : dateOf (eventRow loc (safeEvent v.db c)) =
      ReportDays.clickKey loc c := dateOf_eventRow loc _
  have hdaily : ∀ point ∈ r.daily, 0 ≤ point.clicks := by
    intro point hpoint
    rw [h.daily] at hpoint
    obtain ⟨day, -, rfl⟩ := List.mem_map.mp hpoint
    exact Int.natCast_nonneg _
  constructor
  · rw [countP_sheet rows hredirect, ← readCell_natCast, ← h.figures.period]
    rfl
  · have hsheet := @countP_sheet v loc rows (fun row => redirectRow row && !botRow row)
      (fun c => successful c && !c.isBot) fun c => by rw [hredirect, hbot]
    rw [hsheet, ← readCell_natCast, ← h.figures.human]
    rfl
  · have hsheet := @countP_sheet v loc rows (fun row => redirectRow row && botRow row)
      (fun c => successful c && c.isBot) fun c => by rw [hredirect, hbot]
    rw [hsheet, ← readCell_natCast, ← h.figures.bots]
    rfl
  · have hsheet := @countP_sheet v loc rows expiredRow
      (fun c => c.routeType = lit "expired" || c.statusCode = 410)
      fun c => expiredRow_eventRow loc _
    rw [hsheet, ← readCell_natCast, ← h.expired]
    rfl
  · rw [series_figures, h.daily, List.map_map, List.map_map]
    refine List.map_congr_left fun day _ => ?_
    have hsheet := @countP_sheet v loc rows
      (fun row => redirectRow row && dateOf row = keyOf loc day)
      (fun c => successful c && ReportDays.clickKey loc c = keyOf loc day)
      fun c => by rw [hredirect, hdate]
    rw [Function.comp_apply, Function.comp_apply, hsheet]
    rfl
  · intro d
    refine ⟨_, sectionValues_figures p r d, ?_⟩
    have hsheet := @countP_sheet v loc rows (fun row => d.ofEveryRow || redirectRow row)
      (fun c => d.ofEveryRow || successful c) fun c => by rw [hredirect]
    rw [hsheet]
    exact h.total d
  · intro row hrow x hx
    obtain ⟨e, -, rfl⟩ := List.mem_map.mp hrow
    obtain ⟨y, -, rfl⟩ := List.mem_map.mp hx
    exact formula_readCell y
  · intro row hrow x hx hformula
    obtain ⟨point, hpoint, rfl⟩ := formula_figures h.nonneg hdaily row hrow x hx hformula
    rw [h.daily] at hpoint
    obtain ⟨day, hday, rfl⟩ := List.mem_map.mp hpoint
    exact ⟨List.mem_map_of_mem hday, formula_date hformula⟩

/-- Two answers over one state with the same window give files of which the one recounts the
other, whoever asked for them and when. -/
theorem downloads_recount {LoadLocation : Str → Option Location} {p p' : Printer}
    {driver driver' : ℕ → Str} {n n' : ℕ} {v : Stored} {now now' later later' : Time}
    {u u' : User} {kind : Kind} {id : ℤ}
    {tail tail' name name' E S : Str} {q q' : Query} {start stop : ℤ} {loc : Location}
    (hevents : reportRequest LoadLocation p driver n (still v) now later u true kind tail q =
      .file name E)
    (hsummary : reportRequest LoadLocation p' driver' n' (still v) now' later' u' true kind
      tail' q' = .file name' S)
    (htarget : target u kind tail = some (id, lit "events.csv"))
    (htarget' : target u' kind tail' = some (id, lit "summary.csv"))
    (hwindow : parseReportWindow LoadLocation now q.timezone q.fromDay q.toDay =
      .ok (start, stop, loc))
    (hwindow' : parseReportWindow LoadLocation now' q'.timezone q'.fromDay q'.toDay =
      .ok (start, stop, loc)) :
    ∃ sheet figures days, CsvText.read E = some (eventsHeader :: sheet) ∧
      CsvText.read S = some (summaryHeader :: figures) ∧ marks loc stop n' start = some days ∧
        Recounted sheet figures (days.map (keyOf loc)) := by
  obtain ⟨events, hread, rfl⟩ := events_file hevents htarget hwindow
  obtain ⟨r, hreport, rfl⟩ := summary_file hsummary htarget' hwindow'
  obtain ⟨days, hdays, hcounts⟩ := counts_of_report hreport
  obtain rfl := events_of_rows hread
  refine ⟨_, _, days, sheet_read loc _, summary_read ?_, hdays, recounted_of_counts hcounts⟩
  intro point hpoint hmem
  rw [hcounts.daily] at hpoint
  obtain ⟨day, -, rfl⟩ := List.mem_map.mp hpoint
  exact (dateByte_spec 13 (dateByte_formatDate hmem)).1 rfl

/-- The owner of `visited` asks for both files about 5 to 7 September 2026. -/
def asked : Query := ⟨lit "Asia/Kolkata", lit "2026-09-05", lit "2026-09-08"⟩

def shuffled : List Dimension :=
  [.traffic, .status, .route, .country, .device, .browser, .os, .referrer, .utmSource, .utmMedium,
    .campaign]

theorem shuffled_complete (d : Dimension) : d ∈ shuffled := by
  cases d <;> decide

theorem shuffled_once : shuffled.Nodup := by decide

def printer : Printer where
  average clicks days := formatInt (clicks / days)
  order := shuffled
  complete := shuffled_complete
  once := shuffled_once

/-- A driver that numbers its errors. -/
def refused (k : ℕ) : Str := lit "statement " ++ formatInt k

theorem window_asked : parseReportWindow ReportDays.zones ReportDays.noon asked.timezone
    asked.fromDay asked.toDay =
      .ok (ReportDays.kolkata.midnight 20701, ReportDays.kolkata.midnight 20704,
        ReportDays.kolkata) := by
  have hzone : ReportDays.zones (ReportDays.zoneName (lit "Asia/Kolkata")) =
      some ReportDays.kolkata := rfl
  have hfirst : parseDate (GoText.trimSpace (lit "2026-09-05")) = some 20701 := by decide
  have hlast : parseDate (GoText.trimSpace (lit "2026-09-08")) = some 20704 := by decide
  refine (ReportDays.parseReportWindow_dates hzone (by decide) hfirst hlast).trans ?_
  exact ReportDays.checkWindow_ok.mpr ⟨by decide, by decide, by decide, by decide, rfl⟩

theorem downloads_recount_visited :
    ∃ E S name name' sheet figures dates,
      reportRequest ReportDays.zones printer refused 90 (still visited) ReportDays.noon
        ReportDays.noon ⟨1, some 1, .customer⟩ true .user (lit "1/events.csv") asked =
          .file name E ∧
      reportRequest ReportDays.zones printer refused 90 (still visited) ReportDays.noon
        ReportDays.noon ⟨1, some 1, .customer⟩ true .user (lit "me/summary.csv") asked =
          .file name' S ∧
      CsvText.read E = some (eventsHeader :: sheet) ∧
      CsvText.read S = some (summaryHeader :: figures) ∧
      Recounted sheet figures dates := by
  have htarget : target ⟨1, some 1, .customer⟩ .user (lit "1/events.csv") =
      some (1, lit "events.csv") := by decide
  have htarget' : target ⟨1, some 1, .customer⟩ .user (lit "me/summary.csv") =
      some (1, lit "summary.csv") := by decide
  have hread : (reportEvents (still visited) ⟨1, some 1, .customer⟩ (.user 1)
      (ReportDays.kolkata.midnight 20701) (ReportDays.kolkata.midnight 20704)).isSome :=
    reportEvents_isSome rfl (by decide)
  have hreport : (report 90 (still visited) ReportDays.noon ⟨1, some 1, .customer⟩ (.user 1)
      (ReportDays.kolkata.midnight 20701) (ReportDays.kolkata.midnight 20704)
      ReportDays.kolkata).isSome := buildReport_visited
  obtain ⟨events, hevents⟩ := Option.isSome_iff_exists.mp hread
  obtain ⟨r, hr⟩ := Option.isSome_iff_exists.mp hreport
  have hfile : reportRequest ReportDays.zones printer refused 90 (still visited) ReportDays.noon
      ReportDays.noon ⟨1, some 1, .customer⟩ true .user (lit "1/events.csv") asked =
        .file _ (writeEventsCSV ReportDays.kolkata events) :=
    (reportRequest_events htarget window_asked).trans (by rw [Kind.subject, hevents])
  have hfile' : reportRequest ReportDays.zones printer refused 90 (still visited) ReportDays.noon
      ReportDays.noon ⟨1, some 1, .customer⟩ true .user (lit "me/summary.csv") asked =
        .file _ (writeSummaryCSV printer r) :=
    (reportRequest_summary htarget' window_asked).trans (by rw [Kind.subject, hr])
  obtain ⟨sheet, figures, days, hsheet, hfigures, -, hrecounted⟩ :=
    downloads_recount hfile hfile' htarget htarget' window_asked window_asked
  exact ⟨_, _, _, _, sheet, figures, _, hfile, hfile', hsheet, hfigures, hrecounted⟩

end ReportDownloads
