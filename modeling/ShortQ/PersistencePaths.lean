import ShortQ.WireFormat

/-! # Two ways to store a click

Through the queue and the worker, and by the call that `Record` falls back to. -/
namespace PersistencePaths

open ClickBatch
open ClickStore
open ClickWire
open GoText
open JsonValues
open LinkWrites (readBack)
open Models
open RedirectAccounts (message routes)
open RedirectEvents
open Schema
open WireFormat
open WrittenLinks (Intact)

/-- The database after the message was published, delivered and flushed. -/
def throughQueue (db : Database) (e : ClickEvent) : Option Database :=
  (publishing e).bind fun m => (decodeEvent (wrap m).body).map fun got =>
    (recordClicks {} db [got]).2

/-- The database after the synchronous call for a link without a limit. -/
def fallback (db : Database) (e : ClickEvent) : Database := (recordClick {} db e e.increment none).2

/-- The row of the event as it arrives. -/
theorem clickRow_received {e : ClickEvent} {row : ClickRow}
    (htexts : ∀ s ∈ texts e, validUtf8 s = true)
    (h : clickRow e e.occurredAt = some row) : clickRow (received e) e.occurredAt =
      some { row with
        referrer := scrubURL e.referrer
        resolvedUrl := scrubURL e.resolvedUrl } := by
  have hreferrer := text_scrubURL (htexts e.referrer (by simp [texts]))
  have hresolved := text_scrubURL (htexts e.resolvedUrl (by simp [texts]))
  have htaken := clickRow_iff.mp h
  rw [clickRow_iff]
  exact { htaken with referrer := hreferrer, resolvedUrl := hresolved }

/-- The other columns decide whether the event can be stored. -/
theorem storable_received {e : ClickEvent} (htexts : ∀ s ∈ texts e, validUtf8 s = true)
    (hzero : 0 ∉ e.referrer ∧ 0 ∉ e.resolvedUrl) : Storable (received e) ↔ Storable e := by
  constructor
  · intro h
    obtain ⟨row, hrow⟩ := Option.isSome_iff_exists.mp h
    have hreferrer := text_self_iff.mpr ⟨htexts e.referrer (by simp [texts]), hzero.1⟩
    have hresolved := text_self_iff.mpr ⟨htexts e.resolvedUrl (by simp [texts]), hzero.2⟩
    have htaken := clickRow_iff.mp hrow
    have hown : clickRow e e.occurredAt =
        some { row with referrer := e.referrer, resolvedUrl := e.resolvedUrl } := by
      rw [clickRow_iff]
      exact { htaken with referrer := hreferrer, resolvedUrl := hresolved }
    exact Option.isSome_iff_exists.mpr ⟨_, hown⟩
  · intro h
    obtain ⟨row, hrow⟩ := Option.isSome_iff_exists.mp h
    exact Option.isSome_iff_exists.mpr ⟨_, clickRow_received htexts hrow⟩

/-- A batch of one event that no row takes stores nothing. -/
theorem recordClicks_unstorable (db : Database) {e : ClickEvent}
    (ht : e.occurredAt.isZero = false) (h : clickRow e e.occurredAt = none) :
    (recordClicks {} db [e]).2 = db := by
  have htime : clickTime {} 0 e = e.occurredAt := by simp [clickTime, ht]
  simp [recordClicks, recordBatch, recordNext, insertClick, htime, h]

/-- A batch of one new event of a live link without a limit stores what the single call does. -/
theorem recordClicks_single {db : Database} {e : ClickEvent} (ht : e.occurredAt.isZero = false)
    (hstorable : Storable e) (hlink : LinkUnlimited db e.linkId) :
    (recordClicks {} db [e]).2 = (recordClick {} db e e.increment none).2 := by
  have hrefines := recordClicks_refines_recordClick db [e] (by simpa using ht)
  have hexists : LinkExists db e.linkId := by
    obtain ⟨r, hr, -⟩ := hlink
    rw [LinkExists, hr]
    rfl
  have hcommitted : (recordClicks {} db [e]).1.2 = none := by
    rw [hrefines.2.1 {} healthy_default]
    refine accepted_cons.mpr ⟨⟨hstorable, fun _ => ⟨hexists, fun _ => hlink⟩⟩, ?_⟩
    simp
  generalize hresult : recordClicks {} db [e] = result at hcommitted
  obtain ⟨⟨n, err⟩, db'⟩ := result
  obtain rfl : err = none := hcommitted
  exact (congrArg Prod.fst (hrefines.1 {} n db' hresult)).symm

/-- The row of a new event. -/
theorem clicks_fallback {db : Database} {e : ClickEvent} {row : ClickRow}
    (ht : e.occurredAt.isZero = false) (hrow : clickRow e e.occurredAt = some row)
    (hnew : NewIn db [] e) (hlink : LinkUnlimited db e.linkId) :
    ∃ clicks, db.clicks.insert row = some clicks ∧ fallback db e =
      recorded db clicks e.increment (underLimit e.linkId none) row.rollupKey := by
  obtain ⟨clicks, hi⟩ := Option.ne_none_iff_exists'.mp ((newIn_nil_iff hrow).mp hnew)
  have hl : (db.link e.linkId).isSome := by
    obtain ⟨r, hr, -⟩ := hlink
    rw [hr]
    rfl
  have hcall : recordClick {} db e e.increment none = ((true, none),
      recorded db clicks e.increment (underLimit e.linkId none) row.rollupKey) :=
    recordClick_new healthy_default ht hrow hi hl fun _ => affected_of_linkUnlimited hlink
  exact ⟨clicks, hi, congrArg Prod.snd hcall⟩

/-- On the same store both calls leave the same database exactly when they insert the same row. -/
theorem fallback_received_iff {db : Database} {e : ClickEvent}
    (htexts : ∀ s ∈ texts e, validUtf8 s = true) (ht : e.occurredAt.isZero = false)
    (hstorable : Storable e) (hnew : NewIn db [] e) (hlink : LinkUnlimited db e.linkId) :
    fallback db (received e) = fallback db e ↔
      scrubURL e.resolvedUrl = e.resolvedUrl ∧ scrubURL e.referrer = e.referrer := by
  obtain ⟨row, hrow⟩ := Option.isSome_iff_exists.mp hstorable
  have hrow' := clickRow_received htexts hrow
  obtain ⟨clicks, hi, hdb⟩ := clicks_fallback ht hrow hnew hlink
  obtain ⟨clicks', hi', hdb'⟩ := @clicks_fallback db (received e) _ ht hrow' hnew hlink
  have hreferrer := AcceptedLinks.text_some (clickRow_iff.mp hrow).referrer
  have hresolved := AcceptedLinks.text_some (clickRow_iff.mp hrow).resolvedUrl
  constructor
  · intro h
    have hrows : (fallback db (received e)).clicks.rows = (fallback db e).clicks.rows := by rw [h]
    rw [hdb, hdb', rows_recorded hi, rows_recorded hi', List.append_cancel_left_eq,
      List.singleton_inj] at hrows
    have hfirst := congrArg ClickRow.resolvedUrl hrows
    have hsecond := congrArg ClickRow.referrer hrows
    exact ⟨hfirst.trans hresolved, hsecond.trans hreferrer⟩
  · rintro ⟨hfirst, hsecond⟩
    have hsame : received e = { e with id := 0, createdAt := GoTime.zero } := by
      rw [received, hfirst, hsecond]
    rw [hsame]
    rfl

theorem analyticsResolvedURL_eq (raw : Str) : analyticsResolvedURL raw = scrubURL raw := by
  unfold analyticsResolvedURL scrubURL
  cases GoUrl.Parse raw <;> rfl

/-- A header value carries no NUL. -/
theorem zero_referer (r : HttpRequest.Request) : 0 ∉ r.referer := by
  intro hmem
  have hheader := List.all_eq_true.mp (r.headers r.referer (by simp)) 0 hmem
  revert hheader
  decide

/-- A click on a live link without a limit leaves the same database on both ways exactly when its
two URLs have nothing to be scrubbed, or a column refuses one of its values. -/
theorem paths_agree_iff {site : Site} {v : Visit} {db : Database} {r : LinkRow}
    (hdb : Intact db) (hr : db.link r.id = some r) (hlive : r.deletedAt = none)
    (hlimit : r.maxClicks = none) (hmax : r.id ≤ int64Max) {target route : Str} {status : ℤ}
    {increment : Bool} {e : ClickEvent}
    (he : e = message (redirectEvent site v (readBack db r) target route status) increment)
    (hroute : route ∈ lit "expired" :: routes) (hstatus : status = 410 ∨ status = r.redirectCode)
    (htexts : ∀ s ∈ texts e, validUtf8 s = true) (hzero : v.occurredAt.isZero = false)
    (hyear : 0 ≤ CsvCells.utcYear v.occurredAt ∧ CsvCells.utcYear v.occurredAt ≤ 9999)
    (hnew : NewIn db [] e) :
    throughQueue db e = some (fallback db e) ↔ (Storable e →
      scrubURL (scrubURL target) = scrubURL target ∧
        scrubURL v.request.referer = v.request.referer) := by
  have hmem : r ∈ db.links.rows := List.mem_of_find?_eq_some hr
  obtain ⟨written, hsendable⟩ := sendable_redirectEvent hdb hmem hmax he hstatus htexts hyear
  have haccepted : (payloadOf e).accepted = true := by
    rw [he]
    exact accepted_redirectEvent hdb hmem hroute hstatus hzero
  obtain ⟨body, hbody, hdecoded⟩ :=
    Option.bind_eq_some_iff.mp (decodeEvent_marshalEvent hsendable haccepted)
  have hqueue : throughQueue db e = some (recordClicks {} db [received e]).2 := by
    rw [throughQueue, publishing, hbody, Option.map_some, Option.bind_some]
    exact congrArg (Option.map _) hdecoded
  have ht : e.occurredAt.isZero = false := by
    rw [he]
    exact hzero
  have ht' : (received e).occurredAt.isZero = false := ht
  have hlink : LinkUnlimited db e.linkId := by
    rw [he]
    exact ⟨r, hr, hlive, hlimit⟩
  have hreferrer : e.referrer = v.request.referer := by
    rw [he]
    rfl
  have hresolved : e.resolvedUrl = scrubURL target := by
    rw [he, ← analyticsResolvedURL_eq]
    rfl
  have hclean : 0 ∉ e.referrer ∧ 0 ∉ e.resolvedUrl := by
    rw [hreferrer, hresolved]
    exact ⟨zero_referer v.request, zero_scrubURL target⟩
  rw [hqueue, Option.some.injEq]
  by_cases hstorable : Storable e
  · rw [recordClicks_single ht' ((storable_received htexts hclean).mpr hstorable) hlink]
    change fallback db (received e) = fallback db e ↔ _
    rw [fallback_received_iff htexts ht hstorable hnew hlink, hresolved, hreferrer]
    exact ⟨fun h _ => h, fun h => h hstorable⟩
  · have hrefused : clickRow e e.occurredAt = none := by
      simpa [Storable] using hstorable
    have hrefused' : clickRow (received e) (received e).occurredAt = none := by
      have hnot := mt (storable_received htexts hclean).mp hstorable
      simpa [Storable] using hnot
    have hsame : fallback db e = db := by
      rw [fallback, recordClick_unstorable healthy_default ht hrefused]
    rw [recordClicks_unstorable db ht' hrefused', hsame]
    exact ⟨fun _ h => absurd h hstorable, fun _ => rfl⟩

/-- A visit without a referrer. -/
theorem paths_agree_direct :
    throughQueue LinkEditor.expiring.db (click (visitFrom [] rfl)) =
      some (fallback LinkEditor.expiring.db (click (visitFrom [] rfl))) := by
  refine (@paths_agree_iff RedirectAccounts.site (visitFrom [] rfl) _ row LinkEditor.intact_expiring
    rfl rfl rfl (by decide) row.targetUrl (lit "default") 302 true _ rfl (by decide) (Or.inr rfl)
    (by decide +kernel) (by decide) (by decide) ?_).mpr fun _ => ⟨by decide +kernel, by decide⟩
  exact fun id _ => ⟨fun r hr => (by cases hr), fun e he => (by cases he)⟩

/-- The fallback keeps the user, the password and the query of a referrer. -/
theorem paths_differ_search :
    let e := click (visitFrom (lit "https://u:p@a.example/x?q=1") (by decide))
    Intact LinkEditor.expiring.db ∧ row ∈ LinkEditor.expiring.db.links.rows ∧
      (∀ s ∈ texts e, validUtf8 s = true) ∧
      (throughQueue LinkEditor.expiring.db e).map (fun db => db.clicks.rows.map (·.referrer)) =
        some [lit "https://a.example/x"] ∧
      (fallback LinkEditor.expiring.db e).clicks.rows.map (·.referrer) =
        [lit "https://u:p@a.example/x?q=1"] ∧
      throughQueue LinkEditor.expiring.db e ≠ some (fallback LinkEditor.expiring.db e) := by
  intro e
  have hqueue : (throughQueue LinkEditor.expiring.db e).map
      (fun db => db.clicks.rows.map (·.referrer)) = some [lit "https://a.example/x"] := by
    decide +kernel
  have hfallback : (fallback LinkEditor.expiring.db e).clicks.rows.map (·.referrer) =
      [lit "https://u:p@a.example/x?q=1"] := by decide +kernel
  refine ⟨LinkEditor.intact_expiring, List.mem_singleton.mpr rfl, by decide +kernel, hqueue,
    hfallback, fun heq => ?_⟩
  rw [heq, Option.map_some, hfallback] at hqueue
  exact absurd hqueue (by decide)

end PersistencePaths
