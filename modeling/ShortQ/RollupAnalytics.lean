import ShortQ.ClickLedger
import ShortQ.GroupSums
import ShortQ.PagedLists

/-! # Analytics from the daily counters

`AnalyticsTimeseries` and `AnalyticsBreakdown`, which group the rows of `click_rollups_daily`. -/
namespace RollupAnalytics

open AuditedHandlers (formatInt)
open ClickLedger
open GoText
open GoTime (civil digits)
open GroupSums
open LabelledRuns
open LinkHandlers (parseInt)
open LinkScopes
open LinkStore
open LocalDays (parseDate)
open Models
open PagedLists (Query)
open Schema
open Transaction

structure AnalyticsPoint where
  key : Str
  clicks : ℤ
  deriving DecidableEq, Repr

/-! ## The arguments -/

def linkArgument (values : Query) : Except Err (Option ℤ) :=
  if values (lit "link_id") = [] then .ok none
  else
    match parseInt (values (lit "link_id")) with
    | none => .error (.rejected (lit "link_id must be a positive integer"))
    | some n =>
      if n < 1 then .error (.rejected (lit "link_id must be a positive integer")) else .ok (some n)

def checkDate (key : String) (raw : Str) : Except Err Unit :=
  if raw = [] || (parseDate raw).isSome then .ok ()
  else .error (.rejected (lit key ++ lit " must be YYYY-MM-DD"))

structure DateRange where
  start : Str
  stop : Str
  deriving DecidableEq, Repr

/-- The map of the two bounds is visited in the order it is written in. The texts are compared. -/
def parseDateRange (values : Query) : Except Err DateRange := do
  let range : DateRange := ⟨trimSpace (values (lit "from")), trimSpace (values (lit "to"))⟩
  checkDate "from" range.start
  checkDate "to" range.stop
  if range.start ≠ [] && range.stop ≠ [] && decide (¬ range.start < range.stop) then
    .error (.rejected (lit "from must be before to"))
  else .ok range

/-- A date column against a text argument. The server has no year 0. -/
def dateArgument (raw : Str) : Except Err (Option ℤ) :=
  if raw = [] then .ok none
  else
    match parseDate raw with
    | some day => if -719162 ≤ day then .ok (some day) else .error .schema
    | none => .error .schema

/-! ## The rows -/

/-- `JOIN links l ON l.id=r.link_id WHERE l.deleted_at IS NULL` with the scope. -/
def joined (db : Database) (scope : LinkRow → Bool) (link : ℤ) : Bool :=
  db.links.rows.any fun l => l.id = link && (l.deletedAt.isNone && scope l)

/-- What the conditions of both queries say of a row. -/
def covered (db : Database) (scope : LinkRow → Bool) (link start stop : Option ℤ)
    (k : RollupKey) : Bool :=
  joined db scope k.linkId && (link.all (k.linkId = ·) && (start.all (· ≤ k.day) &&
    stop.all (k.day < ·)))

/-- The conditions, or the first argument that is refused. -/
def conditions (db : Database) (u : User) (values : Query) :
    Except Err (Except Err (RollupKey → Bool)) := do
  let scope ← addLinkViewScope u false
  let link ← linkArgument values
  let range ← parseDateRange values
  .ok (do
    let start ← dateArgument range.start
    let stop ← dateArgument range.stop
    .ok (covered db scope link start stop))

/-- `Scan` into an `int64`. -/
def scanPoint (point : Str × ℤ) : Except Err AnalyticsPoint :=
  if -2 ^ 63 ≤ point.2 && point.2 < 2 ^ 63 then .ok ⟨point.1, point.2⟩ else .error .schema

def scanAnalyticsPoints (rows : List (Str × ℤ)) : Except Err (List AnalyticsPoint) :=
  rows.mapM scanPoint

/-- `TO_CHAR(r.day,'YYYY-MM-DD')`. A year before year 1 is printed as its number before Christ. -/
def toChar (day : ℤ) : Str :=
  let (year, month, d) := civil day
  digits 4 (if year ≤ 0 then 1 - year else year) ++ lit "-" ++ digits 2 month ++ lit "-" ++
    digits 2 d

/-- The days that have rows, in order. -/
def days (rows : List RollupRow) : List ℤ :=
  (groups (fun r => r.key.day) rows).mergeSort fun a b => decide (a ≤ b)

def timeseries (rows : List RollupRow) : List (Str × ℤ) :=
  (days rows).map fun day => (toChar day, groupSum (fun r => r.key.day) RollupRow.clicks rows day)

def AnalyticsTimeseries (io : Script) (db : Database) (u : User) (values : Query) :
    Except Err (List AnalyticsPoint) := do
  let query ← conditions db u values
  io.call 0 (query.bind fun p =>
    scanAnalyticsPoints (timeseries (db.rollups.rows.filter fun r => p r.key)))

/-! ## Columns -/

inductive Dimension where
  | country | device | browser | referrer | campaign | route | status
  deriving DecidableEq, Repr

def columns : List (Str × Dimension) :=
  [(lit "country", .country), (lit "device", .device), (lit "browser", .browser),
    (lit "referrer", .referrer), (lit "campaign", .campaign), (lit "route", .route),
    (lit "status", .status)]

def Dimension.column (k : RollupKey) : Dimension → Str
  | .country => k.countryCode
  | .device => k.device
  | .browser => k.browser
  | .referrer => k.referrerHost
  | .campaign => k.utmCampaign
  | .route => k.routeType
  | .status => formatInt k.statusCode

/-- `COALESCE(NULLIF(column,''),'unknown')`. A country of two blanks is equal to the empty text. -/
def Dimension.label (d : Dimension) (value : Str) : Str :=
  if value = [] || (d = .country && value.all (· = 32)) then lit "unknown" else value

/-- `ORDER BY SUM(r.clicks) DESC`, which leaves the order of equal sums to the server. -/
structure Arrangement where
  arrange : List (Str × ℤ) → List (Str × ℤ)
  perm : ∀ groups, (arrange groups).Perm groups
  descending : ∀ groups, (arrange groups).Pairwise fun a b => b.2 ≤ a.2

def breakdown (server : Arrangement) (d : Dimension) (rows : List RollupRow) : List (Str × ℤ) :=
  ((server.arrange ((groups (fun r => d.column r.key) rows).map fun value =>
    (value, groupSum (fun r => d.column r.key) RollupRow.clicks rows value))).take 100).map
      fun point => (d.label point.1, point.2)

def AnalyticsBreakdown (io : Script) (server : Arrangement) (db : Database) (u : User)
    (dimension : Str) (values : Query) : Except Err (List AnalyticsPoint) :=
  match columns.lookup dimension with
  | none => .error (.rejected (lit
    "group_by must be country, device, browser, referrer, campaign, route or status"))
  | some d => do
    let query ← conditions db u values
    io.call 0 (query.bind fun p =>
      scanAnalyticsPoints (breakdown server d (db.rollups.rows.filter fun r => p r.key)))

/-! ## What the queries ask for -/

/-- The condition is that of the arguments, over the links the user may see. -/
structure Asks (db : Database) (u : User) (values : Query) (p : RollupKey → Bool) : Prop where
  iff : ∀ k, p k = true ↔
    (∃ l ∈ db.links.rows, l.id = k.linkId ∧ l.deletedAt = none ∧ View u l) ∧
    (∀ n, linkArgument values = .ok (some n) → k.linkId = n) ∧
    (∀ day, dateArgument (trimSpace (values (lit "from"))) = .ok (some day) → day ≤ k.day) ∧
    ∀ day, dateArgument (trimSpace (values (lit "to"))) = .ok (some day) → k.day < day

theorem all_iff {α : Type} {o : Option α} {r : Except Err (Option α)} (h : r = .ok o)
    (p : α → Bool) : o.all p = true ↔ ∀ a, r = .ok (some a) → p a = true := by
  subst h
  cases o with
  | none => simp
  | some a =>
    rw [Option.all_some]
    constructor
    · intro hp b hb
      cases hb
      exact hp
    · intro hall
      exact hall a rfl

theorem bind_ok {α β : Type} {x : Except Err α} {f : α → Except Err β} {b : β}
    (h : x.bind f = .ok b) : ∃ a, x = .ok a ∧ f a = .ok b := by
  cases x with
  | error e => cases h
  | ok a => exact ⟨a, rfl, h⟩

theorem parseDateRange_eq {values : Query} {range : DateRange}
    (h : parseDateRange values = .ok range) :
    range = ⟨trimSpace (values (lit "from")), trimSpace (values (lit "to"))⟩ := by
  obtain ⟨-, -, h⟩ := bind_ok h
  obtain ⟨-, -, h⟩ := bind_ok h
  split at h
  · cases h
  · exact (Except.ok.inj h).symm

theorem joined_iff {db : Database} {u : User} {scope : LinkRow → Bool}
    (hscope : addLinkViewScope u false = .ok scope) (link : ℤ) : joined db scope link = true ↔
      ∃ l ∈ db.links.rows, l.id = link ∧ l.deletedAt = none ∧ View u l := by
  simp only [joined, List.any_eq_true, Bool.and_eq_true, decide_eq_true_eq,
    Option.isNone_iff_eq_none, view_of_scope hscope]

theorem asks_of_conditions {db : Database} {u : User} {values : Query} {p : RollupKey → Bool}
    (h : conditions db u values = .ok (.ok p)) : Asks db u values p := by
  obtain ⟨scope, hscope, h⟩ := bind_ok h
  obtain ⟨link, hlink, h⟩ := bind_ok h
  obtain ⟨range, hrange, h⟩ := bind_ok h
  obtain rfl := parseDateRange_eq hrange
  have harguments := Except.ok.inj h
  obtain ⟨start, hstart, harguments⟩ := bind_ok harguments
  obtain ⟨stop, hstop, harguments⟩ := bind_ok harguments
  obtain rfl := Except.ok.inj harguments
  constructor
  intro k
  simp only [covered, Bool.and_eq_true, joined_iff hscope, all_iff hlink, all_iff hstart,
    all_iff hstop, decide_eq_true_eq]

/-! ## The counters of a run -/

theorem rollup_of_mem {db : Database} {r : RollupRow} (h : r ∈ db.rollups.rows) :
    db.rollup r.key = r.clicks := by
  have hsome : (db.rollups.find fun a => a.key = r.key).isSome :=
    List.find?_isSome.mpr ⟨r, h, decide_eq_true rfl⟩
  obtain ⟨found, hfound⟩ := Option.isSome_iff_exists.mp hsome
  have hkey : found.key = r.key := by simpa using List.find?_some hfound
  have hsame : found = r := db.rollups.eq_of_clash (fun _ _ => Eq.symm)
    (List.mem_of_find?_eq_some hfound) h hkey
  rw [Database.rollup, hfound, hsame]

/-- After any history of store calls from a database without counters, every counter counts the
inserted events of its key. -/
theorem counts_of_run {db : Database} (hempty : db.rollups.rows = []) {ops : List StoreOp}
    {t : Ledger} (h : Execution ClickLedger.next ⟨db, []⟩ ops t) :
    Counts t.db.rollups.rows RollupRow.key RollupRow.clicks t.inserted
      fun e => rollupKey e e.occurredAt := by
  have haccounted := accounted_execution h
  have hcount (key : RollupKey) : t.db.rollup key =
      (t.inserted.countP fun e => rollupKey e e.occurredAt = some key : ℕ) := by
    have hzero : db.rollup key = 0 := by
      rw [Database.rollup, RowTable.Table.find, hempty]
      rfl
    have hrollup := haccounted.rollup key
    rw [hzero, zero_add] at hrollup
    exact hrollup
  constructor
  · rw [List.Nodup, List.pairwise_map]
    exact t.db.rollups.distinct
  · intro r hr
    rw [← hcount, rollup_of_mem hr]
  · intro e he
    obtain ⟨key, hkey, -⟩ := haccounted.keyed e he
    have hkeycount := hcount key
    have hpos : 0 < t.inserted.countP fun e => rollupKey e e.occurredAt = some key :=
      List.countP_pos_iff.mpr ⟨e, he, by simpa using hkey⟩
    unfold Database.rollup at hkeycount
    split at hkeycount
    · rename_i r hfind
      have hrow : r.key = key := by simpa using List.find?_some hfind
      exact ⟨r, List.mem_of_find?_eq_some hfind, by rw [hkey, hrow]⟩
    · omega

/-- Of the inserted events those that meet a condition on their key. -/
def countEvents (inserted : List ClickEvent) (p : RollupKey → Bool) : ℕ :=
  inserted.countP fun e => (rollupKey e e.occurredAt).any p

/-! ## The two queries -/

theorem points_of_scan {rows : List (Str × ℤ)} {points : List AnalyticsPoint}
    (h : scanAnalyticsPoints rows = .ok points) : points = rows.map fun r => ⟨r.1, r.2⟩ := by
  induction rows generalizing points with
  | nil =>
    cases h
    rfl
  | cons r rows ih =>
    rw [scanAnalyticsPoints, List.mapM_cons] at h
    obtain ⟨point, hpoint, h⟩ := bind_ok h
    obtain ⟨rest, hrest, h⟩ := bind_ok h
    obtain rfl := Except.ok.inj h
    unfold scanPoint at hpoint
    split at hpoint
    · obtain rfl := Except.ok.inj hpoint
      rw [ih hrest, List.map_cons]
    · cases hpoint

theorem mem_days {rows : List RollupRow} {day : ℤ} :
    day ∈ days rows ↔ ∃ r ∈ rows, r.key.day = day := by
  rw [days, List.mem_mergeSort, mem_groups]

theorem days_ascending (rows : List RollupRow) : (days rows).Pairwise (· < ·) := by
  have hsorted := @List.pairwise_mergeSort _ (fun a b : ℤ => decide (a ≤ b))
    (fun a b c hab hbc => by simp only [decide_eq_true_eq] at hab hbc ⊢; omega)
    (fun a b => by simp only [Bool.or_eq_true, decide_eq_true_eq]; omega)
    (groups (fun r => r.key.day) rows)
  have hnodup : (days rows).Nodup :=
    (List.mergeSort_perm _ _).nodup_iff.mpr (nodup_groups _ rows)
  refine (hsorted.and hnodup).imp fun {a b} h => ?_
  have hle : a ≤ b := by simpa using h.1
  exact lt_of_le_of_ne hle h.2

variable {db : Database} {ops : List StoreOp} {t : Ledger}

/-- The points of the series are the days of the inserted events the query asks for, in order, each
with the number of its events. -/
theorem timeseries_counts_events (hempty : db.rollups.rows = [])
    (h : Execution ClickLedger.next ⟨db, []⟩ ops t) {io : Script} {u : User} {values : Query}
    {points : List AnalyticsPoint} (hread : AnalyticsTimeseries io t.db u values = .ok points) :
    ∃ p, Asks t.db u values p ∧
      (∃ ds : List ℤ, ds.Pairwise (· < ·) ∧
        points = ds.map (fun day =>
          ⟨toChar day, countEvents t.inserted fun k => p k && k.day = day⟩) ∧
        ∀ e ∈ t.inserted, (rollupKey e e.occurredAt).any p = true →
          e.occurredAt.utcDay ∈ ds) ∧
      (points.map AnalyticsPoint.clicks).sum = countEvents t.inserted p := by
  obtain ⟨query, hquery, hread⟩ := bind_ok hread
  obtain ⟨p, rfl, hscan⟩ := bind_ok (call_ok hread)
  obtain rfl := points_of_scan hscan
  have hcounts := counts_of_run hempty h
  have hday (day : ℤ) := hcounts.groupSum_filter p RollupKey.day day
  refine ⟨p, asks_of_conditions hquery, ⟨days (t.db.rollups.rows.filter fun r => p r.key),
    days_ascending _, ?_, ?_⟩, ?_⟩
  · rw [timeseries, List.map_map]
    apply List.map_congr_left
    intro day _
    rw [Function.comp_apply, hday]
    rfl
  · intro e he hp
    obtain ⟨key, hkey, hutc⟩ := (accounted_execution h).keyed e he
    obtain ⟨r, hr, htarget⟩ := hcounts.present e he
    rw [hkey] at htarget hp
    obtain rfl := Option.some.inj htarget
    exact mem_days.mpr ⟨r, List.mem_filter.mpr ⟨hr, hp⟩, hutc⟩
  · have htotal := hcounts.sum_filter p
    rw [← sum_groups (fun r => r.key.day)] at htotal
    rw [countEvents, ← htotal, timeseries, List.map_map, List.map_map]
    exact ((List.mergeSort_perm _ _).map _).sum_eq

/-- Every visitor may read the counters of the two clicks. -/
theorem timeseries_counts_events_mixed : ∃ t points,
    Execution ClickLedger.next ⟨Database.single sampleLink, []⟩ mixedHistory t ∧
      AnalyticsTimeseries {} t.db ⟨1, none, .superadmin⟩ (fun _ => []) = .ok points ∧
      ∃ p, Asks t.db ⟨1, none, .superadmin⟩ (fun _ => []) p ∧
        (points.map AnalyticsPoint.clicks).sum = countEvents t.inserted p := by
  have hread : ((replay ClickLedger.next ⟨Database.single sampleLink, []⟩ mixedHistory).bind
      fun t => (AnalyticsTimeseries {} t.db ⟨1, none, .superadmin⟩
        fun _ => []).toOption).isSome := by
    decide +kernel
  obtain ⟨points, hpoints⟩ := Option.isSome_iff_exists.mp hread
  obtain ⟨t, ht, hok⟩ := Option.bind_eq_some_iff.mp hpoints
  have hrun := execution_of_replay ht
  cases hseries : AnalyticsTimeseries {} t.db ⟨1, none, .superadmin⟩ fun _ => [] with
  | error e =>
    rw [hseries] at hok
    cases hok
  | ok series =>
    obtain ⟨p, hasks, -, hsum⟩ := timeseries_counts_events rfl hrun hseries
    exact ⟨t, series, hrun, hseries, p, hasks, hsum⟩

/-- The texts of a column that the listing shows, the largest counts first. -/
structure Listed (inserted : List ClickEvent) (p : RollupKey → Bool) (d : Dimension)
    (values : List Str) : Prop where
  distinct : values.Nodup
  length : values.length ≤ 100
  descending : values.Pairwise fun a b =>
    countEvents inserted (fun k => p k && d.column k = b) ≤
      countEvents inserted fun k => p k && d.column k = a
  /-- What is left out is no larger than anything listed, and only a full list leaves out. -/
  rest : ∀ e ∈ inserted, ∀ k, rollupKey e e.occurredAt = some k → p k = true →
    d.column k ∈ values ∨ (values.length = 100 ∧ ∀ v ∈ values,
      countEvents inserted (fun k' => p k' && d.column k' = d.column k) ≤
        countEvents inserted fun k' => p k' && d.column k' = v)

section

variable {inserted : List ClickEvent} {p : RollupKey → Bool} {d : Dimension} {gs : List Str}
  {arranged : List (Str × ℤ)}

/-- An entry of the grouped query with its number of events. -/
def entry (inserted : List ClickEvent) (p : RollupKey → Bool) (d : Dimension) (v : Str) : Str × ℤ :=
  (v, countEvents inserted fun k => p k && d.column k = v)

theorem entry_of_mem (hperm : arranged.Perm (gs.map (entry inserted p d))) {a : Str × ℤ}
    (ha : a ∈ arranged) : a = entry inserted p d a.1 := by
  obtain ⟨v, -, rfl⟩ := List.mem_map.mp (hperm.mem_iff.mp ha)
  rfl

theorem take_eq_entries (hperm : arranged.Perm (gs.map (entry inserted p d))) (n : ℕ) :
    arranged.take n = ((arranged.take n).map Prod.fst).map (entry inserted p d) := by
  rw [List.map_map]
  refine (List.map_id _).symm.trans (List.map_congr_left fun a ha => ?_)
  exact entry_of_mem hperm (List.mem_of_mem_take ha)

theorem listed_of_arranged (hgs : gs.Nodup) (hperm : arranged.Perm (gs.map (entry inserted p d)))
    (hdescending : arranged.Pairwise fun a b => b.2 ≤ a.2)
    (hcovers : ∀ e ∈ inserted, ∀ k, rollupKey e e.occurredAt = some k → p k = true →
      d.column k ∈ gs) :
    Listed inserted p d ((arranged.take 100).map Prod.fst) := by
  constructor
  · have hkeys : (arranged.map Prod.fst).Perm gs := by
      have hmap := hperm.map Prod.fst
      rw [List.map_map] at hmap
      have hid : gs.map (Prod.fst ∘ entry inserted p d) = gs := List.map_id gs
      rwa [hid] at hmap
    rw [List.map_take]
    exact (hkeys.nodup_iff.mpr hgs).sublist (List.take_sublist 100 _)
  · rw [List.length_map, List.length_take]
    exact Nat.min_le_left _ _
  · rw [List.pairwise_map]
    refine (hdescending.sublist (List.take_sublist 100 _)).imp_of_mem fun {a b} ha hb hle => ?_
    have hfirst := entry_of_mem hperm (List.mem_of_mem_take ha)
    have hsecond := entry_of_mem hperm (List.mem_of_mem_take hb)
    rw [hfirst, hsecond] at hle
    exact Int.ofNat_le.mp hle
  · intro e he k hk hp
    have hmem : entry inserted p d (d.column k) ∈ arranged :=
      hperm.mem_iff.mpr (List.mem_map_of_mem (hcovers e he k hk hp))
    rw [← List.take_append_drop 100 arranged] at hmem hdescending
    rcases List.mem_append.mp hmem with hlisted | hdropped
    · exact Or.inl (List.mem_map.mpr ⟨_, hlisted, rfl⟩)
    · right
      have hlong : 100 < arranged.length := by
        by_contra hshort
        rw [List.drop_eq_nil_of_le (by omega)] at hdropped
        cases hdropped
      constructor
      · rw [List.length_map, List.length_take]
        omega
      · intro v hv
        obtain ⟨a, ha, rfl⟩ := List.mem_map.mp hv
        have hle := (List.pairwise_append.mp hdescending).2.2 a ha _ hdropped
        rw [entry_of_mem hperm (List.mem_of_mem_take ha)] at hle
        exact Int.ofNat_le.mp hle

end

/-- The points of the breakdown are the most frequent texts of the column among the inserted events
the query asks for, each with the number of its events; below 100 points they are all of them, and
add up to what the series of the same query adds up to. -/
theorem breakdown_counts_events (hempty : db.rollups.rows = [])
    (h : Execution ClickLedger.next ⟨db, []⟩ ops t) {io : Script} {server : Arrangement} {u : User}
    {dimension : Str} {values : Query} {points : List AnalyticsPoint}
    (hread : AnalyticsBreakdown io server t.db u dimension values = .ok points) :
    ∃ d p shown, columns.lookup dimension = some d ∧ Asks t.db u values p ∧
      Listed t.inserted p d shown ∧
      points = shown.map (fun v =>
        ⟨d.label v, countEvents t.inserted fun k => p k && d.column k = v⟩) ∧
      (points.length < 100 →
        (points.map AnalyticsPoint.clicks).sum = countEvents t.inserted p) := by
  unfold AnalyticsBreakdown at hread
  split at hread
  · cases hread
  · rename_i d hd
    obtain ⟨query, hquery, hread⟩ := bind_ok hread
    obtain ⟨p, rfl, hscan⟩ := bind_ok (call_ok hread)
    obtain rfl := points_of_scan hscan
    have hcounts := counts_of_run hempty h
    have hgroup := hcounts.groupSum_filter p fun k => d.column k
    generalize hrows : t.db.rollups.rows.filter (fun r => p r.key) = rows at hgroup
    have hentries : (groups (fun r => d.column r.key) rows).map (fun value =>
        (value, groupSum (fun r => d.column r.key) RollupRow.clicks rows value)) =
        (groups (fun r => d.column r.key) rows).map (entry t.inserted p d) := by
      apply List.map_congr_left
      intro v _
      rw [hgroup]
      rfl
    have hperm := server.perm ((groups (fun r => d.column r.key) rows).map fun value =>
      (value, groupSum (fun r => d.column r.key) RollupRow.clicks rows value))
    have hdescending := server.descending ((groups (fun r => d.column r.key) rows).map fun value =>
      (value, groupSum (fun r => d.column r.key) RollupRow.clicks rows value))
    have htotal := hcounts.sum_filter p
    rw [hrows, ← sum_groups (fun r => d.column r.key)] at htotal
    unfold breakdown
    generalize server.arrange ((groups (fun r => d.column r.key) rows).map fun value =>
      (value, groupSum (fun r => d.column r.key) RollupRow.clicks rows value)) = arranged
      at hperm hdescending
    have hperm' := hperm
    rw [hentries] at hperm'
    have htake := take_eq_entries hperm' 100
    refine ⟨d, p, (arranged.take 100).map Prod.fst, hd, asks_of_conditions hquery,
      listed_of_arranged (nodup_groups _ _) hperm' hdescending ?_, ?_, ?_⟩
    · intro e he k hk hp
      obtain ⟨r, hr, htarget⟩ := hcounts.present e he
      rw [hk] at htarget
      obtain rfl := Option.some.inj htarget
      refine (mem_groups _).mpr ⟨r, ?_, rfl⟩
      rw [← hrows]
      exact List.mem_filter.mpr ⟨hr, hp⟩
    · rw [List.map_map]
      conv_lhs => rw [htake]
      rw [List.map_map]
      rfl
    · intro hfew
      rw [List.length_map, List.length_map, List.length_take] at hfew
      rw [List.take_of_length_le (by omega), List.map_map, List.map_map, countEvents, ← htotal]
      have hsum := (hperm.map Prod.snd).sum_eq
      rw [List.map_map] at hsum
      exact hsum

/-- A server that keeps the order of equal sums. -/
def stable : Arrangement where
  arrange groups := groups.mergeSort fun a b => decide (b.2 ≤ a.2)
  perm groups := List.mergeSort_perm groups _
  descending groups := by
    have hsorted := @List.pairwise_mergeSort _ (fun a b : Str × ℤ => decide (b.2 ≤ a.2))
      (fun a b c hab hbc => by simp only [decide_eq_true_eq] at hab hbc ⊢; omega)
      (fun a b => by simp only [Bool.or_eq_true, decide_eq_true_eq]; omega) groups
    exact hsorted.imp fun h => by simpa using h

theorem breakdown_counts_events_mixed : ∃ t points,
    Execution ClickLedger.next ⟨Database.single sampleLink, []⟩ mixedHistory t ∧
      AnalyticsBreakdown {} stable t.db ⟨1, none, .superadmin⟩ (lit "country") (fun _ => []) =
        .ok points ∧
      ∃ p, Asks t.db ⟨1, none, .superadmin⟩ (fun _ => []) p ∧ (points.length < 100 →
        (points.map AnalyticsPoint.clicks).sum = countEvents t.inserted p) := by
  have hread : ((replay ClickLedger.next ⟨Database.single sampleLink, []⟩ mixedHistory).bind
      fun t => (AnalyticsBreakdown {} stable t.db ⟨1, none, .superadmin⟩ (lit "country")
        fun _ => []).toOption).isSome := by
    decide +kernel
  obtain ⟨points, hpoints⟩ := Option.isSome_iff_exists.mp hread
  obtain ⟨t, ht, hok⟩ := Option.bind_eq_some_iff.mp hpoints
  have hrun := execution_of_replay ht
  cases hlisting : AnalyticsBreakdown {} stable t.db ⟨1, none, .superadmin⟩ (lit "country")
      fun _ => [] with
  | error e =>
    rw [hlisting] at hok
    cases hok
  | ok listing =>
    obtain ⟨d, p, shown, -, hasks, -, -, hsum⟩ := breakdown_counts_events rfl hrun hlisting
    exact ⟨t, listing, hrun, hlisting, p, hasks, hsum⟩

end RollupAnalytics
