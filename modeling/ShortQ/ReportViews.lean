import ShortQ.DashboardDocuments

/-! # The report in the browser

The markup that `web/reports.js` writes for a report, whose keys are what visitors sent: referrers,
campaigns, countries. -/
namespace ReportViews

open DashboardViews
open DashboardDocuments
open GoText (Str lit)
open Markup

/-- Where a browser draws a point, in its own numbers. -/
structure Drawing where
  x : Inert
  y : Inert
  xFixed : Inert
  yFixed : Inert
  atLeft : Bool
  pastMiddle : Bool

/-- Numbers and dates as the browser writes them. -/
structure Figures where
  date : Str → Str
  number : ℤ → Inert
  /-- With one digit after the point. -/
  changePercent : Inert
  averageClicksPerDay : Inert
  /-- The width of a bar beside the longest. -/
  barWidth : ℤ → ℤ → Inert
  /-- The share of human clicks, what is left of it, and both with one digit. -/
  humanShare : ℤ → ℤ → Inert
  botShare : ℤ → ℤ → Inert
  humanPercent : ℤ → ℤ → Inert
  botPercent : ℤ → ℤ → Inert
  drawing : List (Str × ℤ) → ℕ → Drawing

structure Summary where
  allTimeClicks : ℤ
  periodClicks : ℤ
  humanClicks : ℤ
  botClicks : ℤ
  estimatedUniqueVisitors : ℤ
  expiredAttempts : ℤ
  peakDay : Str
  peakDayClicks : ℤ
  previousPeriodClicks : Option ℤ
  activeLinks : ℤ
  deletedLinks : ℤ
  deriving DecidableEq, Repr

structure TopLink where
  id : ℤ
  slug : Str
  title : Str
  visibility : Str
  periodClicks : ℤ
  allTimeClicks : ℤ
  deletedAt : Option Str
  deriving DecidableEq, Repr

structure EventItem where
  createdAt : Str
  slug : Str
  countryCode : Str
  device : Str
  browser : Str
  os : Str
  referrerHost : Str
  utmCampaign : Str
  isBot : Bool
  routeType : Str
  statusCode : ℤ
  deriving DecidableEq, Repr

structure Report where
  isLink : Bool
  summary : Summary
  daily : List (Str × ℤ)
  breakdowns : Str → List PointItem
  topLinks : List TopLink
  recentEvents : List EventItem

/-! ## The templates -/

structure Card where
  label : Str
  value : Str
  note : Str
  deriving DecidableEq, Repr

def reportCard (c : Card) : Template :=
  [.markup (lit "<article><span>"), .escaped c.label, .markup (lit "</span><b>"), .escaped c.value,
    .markup (lit "</b><small>"), .escaped c.note, .markup (lit "</small></article>")]

/-- The cards of `renderReport`. -/
def cards (fig : Figures) (report : Report) : List Card :=
  let summary := report.summary
  let number := fun n => (fig.number n).val
  [⟨lit "Period clicks", number summary.periodClicks,
      if summary.previousPeriodClicks.isNone then lit "Successful redirects"
      else fig.changePercent.val ++ lit "% vs prior period"⟩,
    ⟨lit "All-time clicks", number summary.allTimeClicks,
      if report.isLink then lit "Successful redirects" else lit "Across owned links"⟩,
    ⟨lit "Human clicks", number summary.humanClicks, lit "Heuristic non-bot traffic"⟩,
    ⟨lit "Estimated visitors", number summary.estimatedUniqueVisitors,
      lit "Distinct non-bot IPs"⟩,
    ⟨lit "Bot clicks", number summary.botClicks, lit "User-agent heuristic"⟩,
    ⟨lit "Expired attempts", number summary.expiredAttempts,
      lit "Tracked unavailable redirects"⟩,
    ⟨lit "Daily average", fig.averageClicksPerDay.val, lit "Successful redirects per day"⟩,
    ⟨lit "Peak day", textOr summary.peakDay (lit "—"),
      number summary.peakDayClicks ++ lit " clicks"⟩] ++
    if report.isLink then [] else
      [⟨lit "Owned links", number (summary.activeLinks + summary.deletedLinks),
        number summary.activeLinks ++ lit " active · " ++ number summary.deletedLinks ++
          lit " deleted"⟩]

def chartCard (title subtitle body : Str) : Template :=
  [.markup (lit "<section class=\"card chart-card\"><h3>"), .escaped title,
    .markup (lit "</h3><p class=\"muted\">"), .escaped subtitle, .markup (lit "</p>"), .html body,
    .markup (lit "</section>")]

def dataRow (fig : Figures) (point : Str × ℤ) : Template :=
  [.markup (lit "<tr><td>"), .escaped point.1, .markup (lit "</td><td>"),
    .plain (fig.number point.2), .markup (lit "</td></tr>")]

def chartDataTable (fig : Figures) (points : List (Str × ℤ)) : Template :=
  [.markup (lit ("<details class=\"chart-data\"><summary>View data</summary><table><thead><tr>" ++
      "<th>Label</th><th>Clicks</th></tr></thead><tbody>")),
    .html (rows (dataRow fig) points), .markup (lit "</tbody></table></details>")]

/-- `Math.max.apply(null, [1].concat(…))`. -/
def largest (points : List (Str × ℤ)) : ℤ := points.foldl (fun m point => max m point.2) 1

/-- `"x,y"` of each point, joined by blanks. -/
def polyline (coords : List Drawing) : Str :=
  List.intercalate [32] (coords.map fun c => c.xFixed.val ++ [44] ++ c.yFixed.val)

theorem inert_polyline (coords : List Drawing) : ∀ b ∈ polyline coords, inert b = true := by
  have hpoint : ∀ c : Drawing, ∀ b ∈ c.xFixed.val ++ [44] ++ c.yFixed.val, inert b = true := by
    intro c b hb
    rcases List.mem_append.mp hb with hb | hb
    · rcases List.mem_append.mp hb with hb | hb
      · exact c.xFixed.property b hb
      · rw [List.mem_singleton.mp hb]
        decide
    · exact c.yFixed.property b hb
  induction coords with
  | nil =>
    intro b hb
    cases hb
  | cons c coords ih =>
    intro b hb
    cases coords with
    | nil => exact hpoint c b (by simpa [polyline, List.intercalate] using hb)
    | cons d coords =>
      have hsplit : polyline (c :: d :: coords) =
          (c.xFixed.val ++ [44] ++ c.yFixed.val) ++ ([32] ++ polyline (d :: coords)) := by
        simp [polyline, List.intercalate]
      rw [hsplit] at hb
      rcases List.mem_append.mp hb with hb | hb
      · exact hpoint c b hb
      · rcases List.mem_append.mp hb with hb | hb
        · rw [List.mem_singleton.mp hb]
          decide
        · exact ih b hb

structure Coord where
  drawing : Drawing
  day : Str
  clicks : ℤ

def coords (fig : Figures) (points : List (Str × ℤ)) : List Coord :=
  points.zipIdx.map fun p => ⟨fig.drawing points p.2, p.1.1, p.1.2⟩

/-- The first point, the last and the one between them. -/
def labels (cs : List Coord) : List Coord :=
  (cs.zipIdx.filter fun p =>
    p.2 = 0 || p.2 = cs.length - 1 || p.2 = cs.length / 2).map Prod.fst

def circle (fig : Figures) (point : Coord) : Template :=
  [.markup (lit "<circle cx=\""), .plain point.drawing.x, .markup (lit "\" cy=\""),
    .plain point.drawing.y, .markup (lit "\" r=\"3.5\" class=\"chart-point\"><title>"),
    .escaped point.day, .markup (lit ": "), .plain (fig.number point.clicks),
    .markup (lit " clicks</title></circle>")]

theorem inert_anchor : ∀ atLeft pastMiddle : Bool, ∀ b ∈ (if atLeft then lit "start"
    else if pastMiddle then lit "end" else lit "middle"), inert b = true := by
  decide

def anchor (point : Coord) : Inert :=
  ⟨if point.drawing.atLeft then lit "start"
    else if point.drawing.pastMiddle then lit "end" else lit "middle",
    inert_anchor point.drawing.atLeft point.drawing.pastMiddle⟩

/-- `point.day.slice(5)`. -/
def axisLabel (point : Coord) : Template :=
  [.markup (lit "<text x=\""), .plain point.drawing.x,
    .markup (lit "\" y=\"220\" text-anchor=\""), .plain (anchor point),
    .markup (lit "\" class=\"chart-label\">"), .escaped (point.day.drop 5),
    .markup (lit "</text>")]

/-- The chart: its frame is 720 by 230, with margins of 42, 18, 18 and 34. -/
def lineChart (fig : Figures) (title : Str) (points : List (Str × ℤ)) : Template :=
  let cs := coords fig points
  [.markup (lit "<svg class=\"chart-svg\" viewBox=\"0 0 720 230\" role=\"img\" aria-label=\""),
    .escaped title,
    .markup (lit ("\"><line x1=\"42\" y1=\"196\" x2=\"702\" y2=\"196\" class=\"chart-axis\"/>" ++
      "<line x1=\"42\" y1=\"18\" x2=\"42\" y2=\"196\" class=\"chart-axis\"/>" ++
      "<line x1=\"42\" y1=\"18\" x2=\"702\" y2=\"18\" class=\"chart-grid\"/>" ++
      "<text x=\"34\" y=\"22\" text-anchor=\"end\" class=\"chart-label\">")),
    .plain (fig.number (largest points)),
    .markup (lit ("</text><text x=\"34\" y=\"200\" text-anchor=\"end\" class=\"chart-label\">0" ++
      "</text><polyline points=\"")),
    .plain ⟨polyline (cs.map Coord.drawing), inert_polyline (cs.map Coord.drawing)⟩,
    .markup (lit "\" class=\"chart-line\"/>"), .html (rows (circle fig) cs),
    .html (rows axisLabel (labels cs)), .markup (lit "</svg>")]

def lineChartCard (fig : Figures) (title subtitle : Str) (points : List (Str × ℤ)) : Str :=
  if points.length < 2 then
    (chartCard title subtitle
      (lit "<div class=\"empty\">Not enough days for a trend.</div>")).html
  else
    (chartCard title subtitle
      ((lineChart fig title points).html ++ (chartDataTable fig points).html)).html

def keyed (points : List PointItem) : List (Str × ℤ) := points.map fun p => (p.key, p.clicks)

def barRow (fig : Figures) (most : ℤ) (point : PointItem) : Template :=
  [.markup (lit "<div class=\"bar-row\"><span title=\""), .escaped point.key,
    .markup (lit "\">"), .escaped point.key,
    .markup (lit "</span><div><i style=\"width:"), .plain (fig.barWidth point.clicks most),
    .markup (lit "%\"></i></div><b>"), .plain (fig.number point.clicks),
    .markup (lit "</b></div>")]

def barChart (fig : Figures) (shown : List PointItem) : Template :=
  [.markup (lit "<div class=\"bar-chart\">"),
    .html (rows (barRow fig (largest (keyed shown))) shown), .markup (lit "</div>")]

def barChartCard (fig : Figures) (title subtitle : Str) (points : List PointItem) : Str :=
  let shown := points.take 8
  if shown.isEmpty then
    (chartCard title subtitle (lit "<div class=\"empty\">No data in this period.</div>")).html
  else
    (chartCard title subtitle
      ((barChart fig shown).html ++ (chartDataTable fig (keyed shown)).html)).html

/-- `values[key]`: the last point of the name. -/
def valueAt (points : List PointItem) (key : Str) : ℤ :=
  points.foldl (fun v point => if point.key = key then point.clicks else v) 0

def composition (fig : Figures) (human bot : ℤ) : Template :=
  [.markup (lit "<div class=\"composition-chart\" role=\"img\" aria-label=\""),
    .plain (fig.humanPercent human bot), .markup (lit " percent human and "),
    .plain (fig.botPercent human bot), .markup (lit " percent bot traffic\"><i style=\"width:"),
    .plain (fig.humanShare human bot), .markup (lit "%\"></i><em style=\"width:"),
    .plain (fig.botShare human bot),
    .markup (lit "%\"></em></div><div class=\"composition-legend\"><span><i></i>Human "),
    .plain (fig.number human), .markup (lit " ("), .plain (fig.humanPercent human bot),
    .markup (lit "%)</span><span><em></em>Bot "), .plain (fig.number bot), .markup (lit " ("),
    .plain (fig.botPercent human bot), .markup (lit "%)</span></div>")]

def compositionChartCard (fig : Figures) (title subtitle : Str) (points : List PointItem) : Str :=
  let human := valueAt points (lit "human")
  let bot := valueAt points (lit "bot")
  if human + bot = 0 then
    (chartCard title subtitle
      (lit "<div class=\"empty\">No successful redirects in this period.</div>")).html
  else
    (chartCard title subtitle
      ((composition fig human bot).html ++ (chartDataTable fig (keyed points)).html)).html

/-- Key, title and subtitle of a bar chart. -/
def chartMap : List (Str × Str × Str) :=
  [(lit "country", lit "Countries", lit "Cloudflare country signal for successful redirects."),
    (lit "device", lit "Devices", lit "Client device class for successful redirects."),
    (lit "browser", lit "Browsers", lit "Detected browser family."),
    (lit "os", lit "Operating systems", lit "Detected operating-system family."),
    (lit "referrer", lit "Referrer hosts",
      lit "Unknown includes direct and privacy-restricted traffic."),
    (lit "utm_source", lit "UTM sources", lit "Source parameter present on resolved destinations."),
    (lit "utm_medium", lit "UTM media", lit "Medium parameter present on resolved destinations."),
    (lit "campaign", lit "UTM campaigns",
      lit "Campaign parameter present on resolved destinations."),
    (lit "route", lit "Routing outcomes",
      lit "Default, device, country, and expired routing decisions."),
    (lit "status", lit "HTTP outcomes", lit "Tracked redirect and expired status codes.")]

def reportCharts (fig : Figures) (report : Report) : Str :=
  lineChartCard fig (lit "Clicks by day")
      (lit "Successful redirects in the selected local-time period.") report.daily ++
    (compositionChartCard fig (lit "Human and bot traffic")
        (lit "Successful redirects classified from user-agent strings.")
        (report.breakdowns (lit "traffic")) ++
      chartMap.flatMap fun item =>
        barChartCard fig item.2.1 item.2.2 (report.breakdowns item.1))

def topLinkRow (fig : Figures) (link : TopLink) : Template :=
  [.markup (lit "<div class=\"row one-action\"><div><b>"), .escaped (textOr link.title link.slug),
    .markup (lit "</b><div class=\"tiny\">/"), .escaped link.slug, .markup (lit " · "),
    .plain (fig.number link.periodClicks), .markup (lit " period · "),
    .plain (fig.number link.allTimeClicks), .markup (lit " all-time · "),
    .escaped (if link.deletedAt.isSome then lit "deleted" else link.visibility),
    .markup (lit "</div></div><button class=\"secondary\" onclick=\"openLinkReport("),
    .plain (number link.id), .markup (lit ")\">Open report</button></div>")]

theorem inert_bot : ∀ c : Bool, ∀ b ∈ (if c then lit "bot · " else []), inert b = true := by
  decide

def botLabel (event : EventItem) : Inert :=
  ⟨if event.isBot then lit "bot · " else [], inert_bot event.isBot⟩

def eventRow (fig : Figures) (event : EventItem) : Template :=
  [.markup (lit "<tr><td>"), .escaped (fig.date event.createdAt), .markup (lit "</td><td>/"),
    .escaped event.slug, .markup (lit "</td><td>"),
    .escaped (textOr event.countryCode (lit "unknown")), .markup (lit "</td><td>"),
    .escaped event.device, .markup (lit " · "), .escaped event.browser, .markup (lit " · "),
    .escaped event.os, .markup (lit "</td><td>"),
    .escaped (textOr event.referrerHost (lit "unknown")), .markup (lit "</td><td>"),
    .escaped (textOr event.utmCampaign (lit "unknown")), .markup (lit "</td><td>"),
    .plain (botLabel event), .escaped event.routeType, .markup (lit " → "),
    .plain (number event.statusCode), .markup (lit "</td></tr>")]

def reportEvents (fig : Figures) (events : List EventItem) : Str :=
  textOr (rows (eventRow fig) events)
    (lit "<tr><td colspan=\"7\">No events in this period.</td></tr>")

/-! ## The documents -/

def cardNodes (c : Card) : List Node :=
  [.element (lit "article") []
    [.element (lit "span") [] [shown c.label], bold [shown c.value],
      .element (lit "small") [] [shown c.note]]]

def chartNodes (title subtitle : Str) (body : List Node) : List Node :=
  [.element (lit "section") [(lit "class", lit "card chart-card")]
    [.element (lit "h3") [] [shown title],
      .element (lit "p") [(lit "class", lit "muted")] [shown subtitle], .fragment body]]

def cell (children : List Node) : Node := .element (lit "td") [] children

def dataNodes (fig : Figures) (point : Str × ℤ) : List Node :=
  [.element (lit "tr") [] [cell [shown point.1], cell [.text (fig.number point.2).val]]]

def tableNodes (fig : Figures) (points : List (Str × ℤ)) : List Node :=
  [.element (lit "details") [(lit "class", lit "chart-data")]
    [.element (lit "summary") [] [.text (lit "View data")],
      .element (lit "table") []
        [.element (lit "thead") []
          [.element (lit "tr") []
            [.element (lit "th") [] [.text (lit "Label")],
              .element (lit "th") [] [.text (lit "Clicks")]]],
          .element (lit "tbody") [] [.fragment (points.flatMap (dataNodes fig))]]]]

def svgLine (x1 y1 x2 y2 kind : Str) : Node :=
  .void (lit "line")
    [(lit "x1", x1), (lit "y1", y1), (lit "x2", x2), (lit "y2", y2), (lit "class", kind)]

def svgText (x y side : Str) (child : Node) : Node :=
  .element (lit "text")
    [(lit "x", x), (lit "y", y), (lit "text-anchor", side), (lit "class", lit "chart-label")]
    [child]

def circleNodes (fig : Figures) (point : Coord) : List Node :=
  [.element (lit "circle")
    [(lit "cx", point.drawing.x.val), (lit "cy", point.drawing.y.val), (lit "r", lit "3.5"),
      (lit "class", lit "chart-point")]
    [.element (lit "title") []
      [shown point.day, .text (lit ": "), .text (fig.number point.clicks).val,
        .text (lit " clicks")]]]

def labelNodes (point : Coord) : List Node :=
  [svgText point.drawing.x.val (lit "220") (anchor point).val (shown (point.day.drop 5))]

def lineNodes (fig : Figures) (title : Str) (points : List (Str × ℤ)) : List Node :=
  let cs := coords fig points
  [.element (lit "svg")
    [(lit "class", lit "chart-svg"), (lit "viewbox", lit "0 0 720 230"), (lit "role", lit "img"),
      (lit "aria-label", valueOf title)]
    [svgLine (lit "42") (lit "196") (lit "702") (lit "196") (lit "chart-axis"),
      svgLine (lit "42") (lit "18") (lit "42") (lit "196") (lit "chart-axis"),
      svgLine (lit "42") (lit "18") (lit "702") (lit "18") (lit "chart-grid"),
      svgText (lit "34") (lit "22") (lit "end") (.text (fig.number (largest points)).val),
      svgText (lit "34") (lit "200") (lit "end") (.text (lit "0")),
      .void (lit "polyline")
        [(lit "points", polyline (cs.map Coord.drawing)), (lit "class", lit "chart-line")],
      .fragment (cs.flatMap (circleNodes fig)), .fragment ((labels cs).flatMap labelNodes)]]

def lineChartNodes (fig : Figures) (title subtitle : Str) (points : List (Str × ℤ)) : List Node :=
  chartNodes title subtitle
    (if points.length < 2 then empty (lit "Not enough days for a trend.")
      else lineNodes fig title points ++ tableNodes fig points)

def styled (name width : Str) : Node :=
  .element name [(lit "style", lit "width:" ++ width ++ lit "%")] []

def barNodes (fig : Figures) (most : ℤ) (point : PointItem) : List Node :=
  [div (lit "bar-row")
    [.element (lit "span") [(lit "title", valueOf point.key)] [shown point.key],
      plainDiv [styled (lit "i") (fig.barWidth point.clicks most).val],
      bold [.text (fig.number point.clicks).val]]]

def barChartNodes (fig : Figures) (title subtitle : Str) (points : List PointItem) : List Node :=
  let shown := points.take 8
  chartNodes title subtitle
    (if shown.isEmpty then empty (lit "No data in this period.")
      else div (lit "bar-chart")
          [.fragment (shown.flatMap (barNodes fig (largest (keyed shown))))] ::
        tableNodes fig (keyed shown))

/-- What the bar says to who does not see it. -/
def compositionLabel (fig : Figures) (human bot : ℤ) : Str :=
  (fig.humanPercent human bot).val ++ lit " percent human and " ++
    (fig.botPercent human bot).val ++ lit " percent bot traffic"

def legend (mark name : Str) (count percent : Inert) : Node :=
  .element (lit "span") []
    [.element mark [] [], .text name, .text count.val, .text (lit " ("), .text percent.val,
      .text (lit "%)")]

def compositionNodes (fig : Figures) (human bot : ℤ) : List Node :=
  [.element (lit "div")
      [(lit "class", lit "composition-chart"), (lit "role", lit "img"),
        (lit "aria-label", compositionLabel fig human bot)]
      [styled (lit "i") (fig.humanShare human bot).val,
        styled (lit "em") (fig.botShare human bot).val],
    div (lit "composition-legend")
      [legend (lit "i") (lit "Human ") (fig.number human) (fig.humanPercent human bot),
        legend (lit "em") (lit "Bot ") (fig.number bot) (fig.botPercent human bot)]]

def compositionChartNodes (fig : Figures) (title subtitle : Str) (points : List PointItem) :
    List Node :=
  let human := valueAt points (lit "human")
  let bot := valueAt points (lit "bot")
  chartNodes title subtitle
    (if human + bot = 0 then empty (lit "No successful redirects in this period.")
      else compositionNodes fig human bot ++ tableNodes fig (keyed points))

def chartsNodes (fig : Figures) (report : Report) : List Node :=
  lineChartNodes fig (lit "Clicks by day")
      (lit "Successful redirects in the selected local-time period.") report.daily ++
    (compositionChartNodes fig (lit "Human and bot traffic")
        (lit "Successful redirects classified from user-agent strings.")
        (report.breakdowns (lit "traffic")) ++
      chartMap.flatMap fun item =>
        barChartNodes fig item.2.1 item.2.2 (report.breakdowns item.1))

def topLinkNodes (fig : Figures) (link : TopLink) : List Node :=
  [div (lit "row one-action")
    [plainDiv
      [bold [shown (textOr link.title link.slug)],
        div (lit "tiny")
          [.text (lit "/"), shown link.slug, .text (lit " · "),
            .text (fig.number link.periodClicks).val, .text (lit " period · "),
            .text (fig.number link.allTimeClicks).val, .text (lit " all-time · "),
            shown (if link.deletedAt.isSome then lit "deleted" else link.visibility)]],
      button (lit "secondary") (call (lit "openLinkReport") link.id) (lit "Open report")]]

def eventNodes (fig : Figures) (event : EventItem) : List Node :=
  [.element (lit "tr") []
    [cell [shown (fig.date event.createdAt)], cell [.text (lit "/"), shown event.slug],
      cell [shown (textOr event.countryCode (lit "unknown"))],
      cell [shown event.device, .text (lit " · "), shown event.browser, .text (lit " · "),
        shown event.os],
      cell [shown (textOr event.referrerHost (lit "unknown"))],
      cell [shown (textOr event.utmCampaign (lit "unknown"))],
      cell [.text (botLabel event).val, shown event.routeType, .text (lit " → "),
        .text (numberText event.statusCode)]]]

def noEvents : List Node :=
  [.element (lit "tr") []
    [.element (lit "td") [(lit "colspan", lit "7")] [.text (lit "No events in this period.")]]]

/-! ## The parts -/

set_option maxRecDepth 8000

theorem shows_reportCard (c : Card) : Shows (reportCard c).html (cardNodes c) := by
  refine Template.shows .nil ?_
  simp only [reportCard, cardNodes, bold, shown, lit_bytes]
  rfl

theorem shows_chartCard (title subtitle : Str) {body : Str} {nodes : List Node}
    (h : Shows body nodes) :
    Shows (chartCard title subtitle body).html (chartNodes title subtitle nodes) := by
  refine Template.shows (.cons h .nil) ?_
  simp only [chartCard, chartNodes, shown, lit_bytes]
  rfl

theorem shows_dataRow (fig : Figures) (point : Str × ℤ) :
    Shows (dataRow fig point).html (dataNodes fig point) := by
  refine Template.shows .nil ?_
  simp only [dataRow, dataNodes, cell, shown, lit_bytes]
  rfl

theorem shows_chartDataTable (fig : Figures) (points : List (Str × ℤ)) :
    Shows (chartDataTable fig points).html (tableNodes fig points) := by
  have hrows : Shows (rows (dataRow fig) points) (points.flatMap (dataNodes fig)) :=
    Shows.flatMap fun point _ => shows_dataRow fig point
  refine Template.shows (.cons hrows .nil) ?_
  simp only [chartDataTable, tableNodes, lit_bytes]
  rfl

theorem shows_circle (fig : Figures) (point : Coord) :
    Shows (circle fig point).html (circleNodes fig point) := by
  refine Template.shows .nil ?_
  simp only [circle, circleNodes, shown, lit_bytes]
  rfl

theorem shows_axisLabel (point : Coord) : Shows (axisLabel point).html (labelNodes point) := by
  refine Template.shows .nil ?_
  simp only [axisLabel, labelNodes, svgText, shown, lit_bytes]
  rfl

theorem shows_lineChart (fig : Figures) (title : Str) (points : List (Str × ℤ)) :
    Shows (lineChart fig title points).html (lineNodes fig title points) := by
  have hcircles : Shows (rows (circle fig) (coords fig points))
      ((coords fig points).flatMap (circleNodes fig)) :=
    Shows.flatMap fun point _ => shows_circle fig point
  have hlabels : Shows (rows axisLabel (labels (coords fig points)))
      ((labels (coords fig points)).flatMap labelNodes) :=
    Shows.flatMap fun point _ => shows_axisLabel point
  refine Template.shows (.cons hcircles (.cons hlabels .nil)) ?_
  simp only [lineChart, lineNodes, svgLine, svgText, lit_bytes]
  rfl

theorem shows_lineChartCard (fig : Figures) (title subtitle : Str) (points : List (Str × ℤ)) :
    Shows (lineChartCard fig title subtitle points) (lineChartNodes fig title subtitle points) := by
  unfold lineChartCard lineChartNodes
  split
  · refine shows_chartCard title subtitle ?_
    simp only [empty, div, lit_bytes]
    rfl
  · exact shows_chartCard title subtitle
      ((shows_lineChart fig title points).append (shows_chartDataTable fig points))

theorem shows_barRow (fig : Figures) (most : ℤ) (point : PointItem) :
    Shows (barRow fig most point).html (barNodes fig most point) := by
  refine Template.shows .nil ?_
  simp only [barRow, barNodes, styled, div, plainDiv, bold, shown, lit_bytes]
  rfl

theorem shows_barChart (fig : Figures) (items : List PointItem) :
    Shows (barChart fig items).html
      [div (lit "bar-chart")
        [.fragment (items.flatMap (barNodes fig (largest (keyed items))))]] := by
  have hrows : Shows (rows (barRow fig (largest (keyed items))) items)
      (items.flatMap (barNodes fig (largest (keyed items)))) :=
    Shows.flatMap fun point _ => shows_barRow fig _ point
  refine Template.shows (.cons hrows .nil) ?_
  simp only [barChart, div, lit_bytes]
  rfl

theorem shows_barChartCard (fig : Figures) (title subtitle : Str) (points : List PointItem) :
    Shows (barChartCard fig title subtitle points) (barChartNodes fig title subtitle points) := by
  unfold barChartCard barChartNodes
  dsimp only
  split
  · refine shows_chartCard title subtitle ?_
    simp only [empty, div, lit_bytes]
    rfl
  · exact shows_chartCard title subtitle
      ((shows_barChart fig (points.take 8)).append (shows_chartDataTable fig _))

theorem snoc_all (v s : Str) : v ++ s = s.foldl (fun v b => v ++ [b]) v := by
  induction s generalizing v with
  | nil => exact List.append_nil v
  | cons b s ih =>
    rw [List.foldl_cons, ← ih (v ++ [b]), List.append_assoc]
    rfl

theorem shows_composition (fig : Figures) (human bot : ℤ) :
    Shows (composition fig human bot).html (compositionNodes fig human bot) := by
  refine Template.shows .nil ?_
  unfold compositionNodes compositionLabel
  rw [snoc_all (fig.humanPercent human bot).val, snoc_all _ (lit " percent bot traffic")]
  simp only [composition, styled, legend, div, lit_bytes]
  rfl

theorem shows_compositionChartCard (fig : Figures) (title subtitle : Str)
    (points : List PointItem) :
    Shows (compositionChartCard fig title subtitle points)
      (compositionChartNodes fig title subtitle points) := by
  unfold compositionChartCard compositionChartNodes
  dsimp only
  split
  · refine shows_chartCard title subtitle ?_
    simp only [empty, div, lit_bytes]
    rfl
  · exact shows_chartCard title subtitle
      ((shows_composition fig _ _).append (shows_chartDataTable fig _))

theorem shows_reportCharts (fig : Figures) (report : Report) :
    Shows (reportCharts fig report) (chartsNodes fig report) :=
  (shows_lineChartCard fig _ _ _).append ((shows_compositionChartCard fig _ _ _).append
    (Shows.flatMap fun _ _ => shows_barChartCard fig _ _ _))

theorem shows_topLinkRow (fig : Figures) (link : TopLink) :
    Shows (topLinkRow fig link).html (topLinkNodes fig link) := by
  refine Template.shows .nil ?_
  simp only [topLinkRow, topLinkNodes, button, call, div, plainDiv, bold, shown, lit_bytes]
  rfl

theorem shows_eventRow (fig : Figures) (event : EventItem) :
    Shows (eventRow fig event).html (eventNodes fig event) := by
  refine Template.shows .nil ?_
  simp only [eventRow, eventNodes, cell, shown, lit_bytes]
  rfl

theorem shows_reportEvents (fig : Figures) (events : List EventItem) :
    Shows (reportEvents fig events) (listNodes (eventNodes fig) events noEvents) := by
  refine shows_list (fun e _ => shows_eventRow fig e) (fun e => html_ne_nil (by simp) _) ?_
  simp only [noEvents, lit_bytes]
  rfl

/-! ## The report -/

/-- The elements of the page that a report fills. -/
inductive Part where
  | summary
  | charts
  | topLinks
  | events

def Part.html (fig : Figures) (report : Report) : Part → Str
  | .summary => rows reportCard (cards fig report)
  | .charts => reportCharts fig report
  | .topLinks => rows (topLinkRow fig) report.topLinks
  | .events => reportEvents fig report.recentEvents

def Part.nodes (fig : Figures) (report : Report) : Part → List Node
  | .summary => (cards fig report).flatMap cardNodes
  | .charts => chartsNodes fig report
  | .topLinks => report.topLinks.flatMap (topLinkNodes fig)
  | .events => listNodes (eventNodes fig) report.recentEvents noEvents

theorem Part.shows (fig : Figures) (report : Report) (part : Part) :
    Shows (part.html fig report) (part.nodes fig report) := by
  cases part with
  | summary => exact Shows.flatMap fun c _ => shows_reportCard c
  | charts => exact shows_reportCharts fig report
  | topLinks => exact Shows.flatMap fun link _ => shows_topLinkRow fig link
  | events => exact shows_reportEvents fig report.recentEvents

/-- Nodes that neither run a script nor lead anywhere. -/
structure Quiet (nodes : List Node) : Prop where
  handlers : Node.valuesAll isHandler nodes = []
  addresses : Node.valuesAll isAddress nodes = []

section

variable {a b : List Node}

theorem Quiet.append (ha : Quiet a) (hb : Quiet b) : Quiet (a ++ b) := by
  constructor
  · rw [valuesAll_append, ha.handlers, hb.handlers, List.append_nil]
  · rw [valuesAll_append, ha.addresses, hb.addresses, List.append_nil]

theorem Quiet.flatMap {α : Type} {nodes : α → List Node} {xs : List α}
    (h : ∀ x ∈ xs, Quiet (nodes x)) : Quiet (xs.flatMap nodes) := by
  induction xs with
  | nil => exact ⟨rfl, rfl⟩
  | cons x xs ih =>
    exact (h x List.mem_cons_self).append (ih fun y hy => h y (List.mem_cons_of_mem x hy))

theorem quiet_chart (title subtitle : Str) (h : Quiet a) : Quiet (chartNodes title subtitle a) := by
  constructor
  · simp only [chartNodes, Node.valuesAll, Node.values, h.handlers]
    rfl
  · simp only [chartNodes, Node.valuesAll, Node.values, h.addresses]
    rfl

end

theorem quiet_table (fig : Figures) (points : List (Str × ℤ)) : Quiet (tableNodes fig points) := by
  have hrows : Quiet (points.flatMap (dataNodes fig)) := .flatMap fun _ _ => ⟨rfl, rfl⟩
  constructor
  · simp only [tableNodes, Node.valuesAll, Node.values, hrows.handlers]
    rfl
  · simp only [tableNodes, Node.valuesAll, Node.values, hrows.addresses]
    rfl

theorem quiet_line (fig : Figures) (title : Str) (points : List (Str × ℤ)) :
    Quiet (lineNodes fig title points) := by
  have hcircles : Quiet ((coords fig points).flatMap (circleNodes fig)) :=
    .flatMap fun _ _ => ⟨rfl, rfl⟩
  have hlabels : Quiet ((labels (coords fig points)).flatMap labelNodes) :=
    .flatMap fun _ _ => ⟨rfl, rfl⟩
  constructor
  · simp only [lineNodes, Node.valuesAll, Node.values, hcircles.handlers, hlabels.handlers]
    rfl
  · simp only [lineNodes, Node.valuesAll, Node.values, hcircles.addresses, hlabels.addresses]
    rfl

theorem quiet_lineChart (fig : Figures) (title subtitle : Str) (points : List (Str × ℤ)) :
    Quiet (lineChartNodes fig title subtitle points) := by
  apply quiet_chart
  split
  · exact ⟨rfl, rfl⟩
  · exact (quiet_line fig title points).append (quiet_table fig points)

theorem quiet_composition (fig : Figures) (title subtitle : Str) (points : List PointItem) :
    Quiet (compositionChartNodes fig title subtitle points) := by
  apply quiet_chart
  split
  · exact ⟨rfl, rfl⟩
  · exact Quiet.append ⟨rfl, rfl⟩ (quiet_table fig _)

theorem quiet_bars (fig : Figures) (title subtitle : Str) (points : List PointItem) :
    Quiet (barChartNodes fig title subtitle points) := by
  apply quiet_chart
  split
  · exact ⟨rfl, rfl⟩
  · have hrows : Quiet ((points.take 8).flatMap
        (barNodes fig (largest (keyed (points.take 8))))) :=
      .flatMap fun _ _ => ⟨rfl, rfl⟩
    have hbars : Quiet [div (lit "bar-chart") [.fragment ((points.take 8).flatMap
        (barNodes fig (largest (keyed (points.take 8)))))]] := by
      constructor
      · simp only [div, Node.valuesAll, Node.values, hrows.handlers]
        rfl
      · simp only [div, Node.valuesAll, Node.values, hrows.addresses]
        rfl
    exact hbars.append (quiet_table fig _)

theorem quiet_summary (fig : Figures) (report : Report) :
    Quiet ((cards fig report).flatMap cardNodes) :=
  .flatMap fun _ _ => ⟨rfl, rfl⟩

theorem quiet_charts (fig : Figures) (report : Report) : Quiet (chartsNodes fig report) :=
  (quiet_lineChart fig _ _ _).append ((quiet_composition fig _ _ _).append
    (.flatMap fun _ _ => quiet_bars fig _ _ _))

theorem quiet_events (fig : Figures) (events : List EventItem) :
    Quiet (listNodes (eventNodes fig) events noEvents) := by
  unfold listNodes
  split
  · exact ⟨rfl, rfl⟩
  · exact .flatMap fun _ _ => ⟨rfl, rfl⟩

theorem Part.addresses_nil (fig : Figures) (report : Report) (part : Part) :
    Node.valuesAll isAddress (part.nodes fig report) = [] := by
  cases part with
  | summary => exact (quiet_summary fig report).addresses
  | charts => exact (quiet_charts fig report).addresses
  | topLinks =>
    apply List.eq_nil_iff_forall_not_mem.mpr
    intro s hs
    obtain ⟨link, -, hmem⟩ := mem_valuesAll_flatMap hs
    have hnone : Node.valuesAll isAddress (topLinkNodes fig link) = [] := rfl
    rw [hnone] at hmem
    cases hmem
  | events => exact (quiet_events fig report.recentEvents).addresses

theorem Part.calls (fig : Figures) (report : Report) (part : Part) {s : Str}
    (hs : s ∈ Node.valuesAll isHandler (part.nodes fig report)) :
    ∃ link ∈ report.topLinks, s = call (lit "openLinkReport") link.id := by
  have hquiet : ∀ {nodes : List Node}, Quiet nodes → s ∉ Node.valuesAll isHandler nodes := by
    intro nodes h hmem
    rw [h.handlers] at hmem
    cases hmem
  cases part with
  | summary => exact absurd hs (hquiet (quiet_summary fig report))
  | charts => exact absurd hs (hquiet (quiet_charts fig report))
  | topLinks =>
    obtain ⟨link, hlink, hmem⟩ := mem_valuesAll_flatMap hs
    have hone : Node.valuesAll isHandler (topLinkNodes fig link) =
        [call (lit "openLinkReport") link.id] := rfl
    rw [hone] at hmem
    exact ⟨link, hlink, List.mem_singleton.mp hmem⟩
  | events => exact absurd hs (hquiet (quiet_events fig report.recentEvents))

/-- Whatever the visitors of the links sent, the markup of a report is read as its document: it
leads nowhere, holds no script, and runs none but the one that opens the report of a top link. -/
theorem report_reads_back (fig : Figures) (report : Report) (part : Part) :
    ∃ tokens, Reads (part.html fig report) tokens ∧
      tokens = Node.tokensAll (part.nodes fig report) [] ∧ Tame tokens ∧ addresses tokens = [] ∧
      ∀ s ∈ handlers tokens,
        ∃ link ∈ report.topLinks, s = call (lit "openLinkReport") link.id := by
  have hshows := part.shows fig report
  refine ⟨_, hshows, rfl, hshows.tame, ?_, ?_⟩
  · rw [addresses_tokensAll]
    exact part.addresses_nil fig report
  · rw [handlers_tokensAll]
    exact fun s hs => part.calls fig report hs

end ReportViews
