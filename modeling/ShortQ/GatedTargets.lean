import ShortQ.MaskedRuns
import ShortQ.PasswordGate
import ShortQ.RedirectAccounts

/-! # Protected links

The redirect handler together with the password gate and the cookies the gate hands out, over any
interleaving of visits. The answers and the calls of `recordClick` are what leaves the handler. -/
namespace GatedTargets

open GoText (Str lit)
open GoTime (Time)
open HttpRequest (visitorIP)
open LabelledRuns
open Models
open RedirectHandler (linkExpired)
open PasswordGate
open RedirectEvents
open SignedTokens
open Transaction (Err)

/-! ## The pages -/

/-- `html.EscapeString`. -/
def EscapeString (s : Str) : Str :=
  s.flatMap fun b =>
    if b = 38 then lit "&amp;" else if b = 39 then lit "&#39;" else if b = 60 then lit "&lt;"
    else if b = 62 then lit "&gt;" else if b = 34 then lit "&#34;" else [b]

/-- The form, with the message after a wrong password. -/
def gatePage (title : Str) (message : Str) : Str :=
  lit ("<!doctype html><title>Protected link</title><meta name=\"viewport\" " ++
    "content=\"width=device-width\"><style>body\x7bfont:16px system-ui;display:grid;" ++
    "place-items:center;min-height:80vh;color:#202124\x7dmain\x7bwidth:min(90%,24rem)\x7d" ++
    "input,button\x7bbox-sizing:border-box;width:100%;padding:.8rem;margin:.35rem 0\x7d" ++
    "button\x7bbackground:#111;color:white;border:0;border-radius:4px\x7d</style>" ++
    "<main><h1>Protected link</h1><p>Enter the password to continue to ") ++
    EscapeString title ++ lit ".</p>" ++ message ++
    lit ("<form method=\"post\"><input type=\"password\" name=\"password\" " ++
      "autocomplete=\"current-password\" required autofocus><button>Continue</button></form>" ++
      "</main>")

def incorrect : Str := lit "<p style=\"color:#b3261e\">Incorrect password.</p>"

/-- What a visitor is told. A right password is answered with the cookie and a redirect back to
the request's own address. -/
inductive Answer where
  | replied (reply : Reply)
  | page (text : Str)
  | tooMany (error : Str)
  | opened (name token : Str) (expires : Time)
  deriving DecidableEq, Repr

/-! ## The handler -/

/-- `tokens` are those signed so far, sessions included, and `granted` are the positions of the
requests whose right password has been answered. -/
structure Doors where
  gate : Gate
  tokens : List Issue
  granted : List ℕ
  answers : List Answer
  recorded : List (ClickEvent × Bool × Option ℤ)

/-- `link` is what the slug was resolved to, `form` the password of a POST, and `outcome` what
`recordClick` returns. -/
inductive Event where
  | session (claims : Claims)
  | visit (v : Visit) (link : Except Err Link) (form : Option Str) (outcome : Bool × Option Err)
      (pruneAt now : Time)
  | check (i : ℕ) (now : Time)
  | settle (i : ℕ) (now : Time)
  | grant (i : ℕ) (now : Time)

/-- The id of a stored link is a 64-bit number. -/
def bigint (id : ℤ) : Bool := (Int64.ofInt id).toInt = id

def Doors.answer (s : Doors) (a : Answer) : Doors := { s with answers := s.answers ++ [a] }

/-- A request that is not let through is answered at once. -/
def limited (s : Doors) (tooMany : Bool) (gate : Gate) : Doors :=
  match tooMany with
  | true =>
    { s with gate := gate }.answer
      (.tooMany (lit "too many password attempts; retry in 15 minutes"))
  | false => { s with gate := gate }

/-- `passwordGate` up to the test of the limit. -/
def knock (checkSecret : Str → Str → Bool) (s : Doors) (v : Visit) (l : Link)
    (form : Option Str) (pruneAt now : Time) : Option Doors :=
  if v.request.method = lit "POST" then
    let post : Post := ⟨l, visitorIP v.request, form⟩
    (PasswordGate.next checkSecret s.gate (.arrive post pruneAt now)).map
      (limited s (tooManyAttempts s.gate.limiter post.key pruneAt now).1)
  else some (s.answer (.page (gatePage l.title [])))

/-- What becomes of the call of `redirectSlug`. -/
def handled (checkSecret : Str → Str → Bool) (s : Doors) (v : Visit) (form : Option Str)
    (outcome : Bool × Option Err) (pruneAt now : Time) : Handled → Option Doors
  | .replied (.passwordGate l) => knock checkSecret s v l form pruneAt now
  | .replied reply => some (s.answer (.replied reply))
  | .recording event increment maxClicks reply =>
    some { s with
      answers := s.answers ++ [.replied (reply outcome.1 outcome.2)]
      recorded := s.recorded ++ [(event, increment, maxClicks)] }

/-- The wrong password is recorded before the page is written. -/
def settled (s : Doors) (i : ℕ) (gate : Gate) : Doors :=
  match s.gate.flights[i]? with
  | some ⟨post, .failed _⟩ =>
    { s with gate := gate }.answer (.page (gatePage post.link.title incorrect))
  | _ => { s with gate := gate }

def cookieName (link : ℤ) : Str := lit "sq_access_" ++ lit (toString link)

/-- The cookie is good for 12 hours. -/
def expiry (now : Time) : Time := ⟨now.nanos + 43200 * GoTime.second⟩

/-- `redirectSlug` with `passwordGate`, one step at a time. -/
def next (site : Site) (checkSecret : Str → Str → Bool) (s : Doors) : Event → Option Doors
  | .session claims => some { s with tokens := s.tokens ++ [.jwt claims] }
  | .visit v link form outcome pruneAt now =>
    if s.gate.clock.nanos ≤ v.accessAt.nanos && link.toOption.all fun l => bigint l.id then
      handled checkSecret { s with gate := { s.gate with clock := v.accessAt } } v form outcome
        pruneAt now (redirectSlug site v link)
    else none
  | .check i now =>
    (PasswordGate.next checkSecret s.gate (.check i now)).map fun gate => { s with gate := gate }
  | .settle i now => (PasswordGate.next checkSecret s.gate (.settle i now)).map (settled s i)
  | .grant i now =>
    if s.gate.clock.nanos ≤ now.nanos && !s.granted.contains i then
      match s.gate.flights[i]? with
      | some ⟨post, .cleared _⟩ =>
        let issue : Issue := .linkAccess (Int64.ofInt post.link.id) (expiry now)
        some { s with
          gate := { s.gate with clock := now }
          tokens := s.tokens ++ [issue]
          granted := s.granted ++ [i]
          answers := s.answers ++
            [.opened (cookieName post.link.id) (issue.token site.mac) (expiry now)] }
      | _ => none
    else none

def Doors.initial (clock : Time) : Doors := ⟨.initial clock, [], [], [], []⟩

/-! ## A right password comes first -/

/-- The password of the request is that of the link. -/
def RightPassword (checkSecret : Str → Str → Bool) (p : Post) : Prop :=
  ∃ password, p.form = some password ∧ checkSecret p.link.passwordHash password = true

/-- A token for a link was signed for a request that gave the right password, and not long after
its check. -/
def Earned (g : Gate) (id : Int64) (expires : Time) : Prop :=
  ∃ f ∈ g.flights, ∃ checkedAt issuedAt, f.phase = .cleared checkedAt ∧
    id = Int64.ofInt f.post.link.id ∧ expires = expiry issuedAt ∧
    checkedAt.nanos ≤ issuedAt.nanos ∧ issuedAt.nanos ≤ g.clock.nanos

structure Honest (checkSecret : Str → Str → Bool) (g : Gate) (tokens : List Issue) : Prop where
  matched : ∀ f ∈ g.flights, ∀ t, f.phase.rightAt = some t →
    RightPassword checkSecret f.post ∧ t.nanos ≤ g.clock.nanos
  ids : ∀ f ∈ g.flights, bigint f.post.link.id = true
  earned : ∀ id expires, .linkAccess id expires ∈ tokens → Earned g id expires

variable {site : Site} {checkSecret : Str → Str → Bool} {g g' : Gate} {tokens : List Issue}
  {s t : Doors}

theorem Honest.wait (h : Honest checkSecret g tokens) {now : Time}
    (hnow : g.clock.nanos ≤ now.nanos) : Honest checkSecret { g with clock := now } tokens := by
  constructor
  · intro f hf u hu
    obtain ⟨hright, hpast⟩ := h.matched f hf u hu
    exact ⟨hright, hpast.trans hnow⟩
  · exact h.ids
  · intro id expires hmem
    obtain ⟨f, hf, checkedAt, issuedAt, hphase, hid, hexpires, hle, hpast⟩ :=
      h.earned id expires hmem
    exact ⟨f, hf, checkedAt, issuedAt, hphase, hid, hexpires, hle, hpast.trans hnow⟩

theorem rightPassword_of_checkForm {post : Post} {now u : Time}
    (h : (checkForm checkSecret post now).rightAt = some u) : RightPassword checkSecret post := by
  unfold checkForm at h
  split at h
  · cases h
  · rename_i password hform
    split at h
    · rename_i hright
      exact ⟨password, hform, hright⟩
    · cases h

/-- A request that moves on leaves the others, and what was cleared stays. -/
theorem Honest.set (h : Honest checkSecret g tokens) {i : ℕ} {post : Post} {phase phase' : Phase}
    {now : Time} {l : Limiter} (hf : g.flights[i]? = some ⟨post, phase⟩)
    (hnow : g.clock.nanos ≤ now.nanos) (hopen : ∀ u, phase ≠ .cleared u)
    (hright : ∀ u, phase'.rightAt = some u → RightPassword checkSecret post ∧ u.nanos ≤ now.nanos) :
    Honest checkSecret ⟨l, now, g.flights.set i ⟨post, phase'⟩⟩ tokens := by
  have hmem := List.mem_of_getElem? hf
  constructor
  · intro f hfset u hu
    rcases List.mem_or_eq_of_mem_set hfset with hold | rfl
    · obtain ⟨hpassword, hpast⟩ := h.matched f hold u hu
      exact ⟨hpassword, hpast.trans hnow⟩
    · exact hright u hu
  · intro f hfset
    rcases List.mem_or_eq_of_mem_set hfset with hold | rfl
    · exact h.ids f hold
    · exact h.ids ⟨post, phase⟩ hmem
  · intro id expires hissue
    obtain ⟨f, hfold, checkedAt, issuedAt, hphase, hid, hexpires, hle, hpast⟩ :=
      h.earned id expires hissue
    refine ⟨f, ?_, checkedAt, issuedAt, hphase, hid, hexpires, hle, hpast.trans hnow⟩
    rcases mem_or_mem_set hf ⟨post, phase'⟩ hfold with rfl | hkept
    · exact absurd hphase (hopen checkedAt)
    · exact hkept

theorem Honest.arrive (h : Honest checkSecret g tokens) {post : Post} {pruneAt now : Time}
    (hid : bigint post.link.id = true)
    (hstep : PasswordGate.next checkSecret g (.arrive post pruneAt now) = some g') :
    Honest checkSecret g' tokens := by
  obtain ⟨hprune, hnow, rfl⟩ := next_arrive hstep
  have hle : g.clock.nanos ≤ now.nanos := hprune.trans hnow
  have hmem {f : Flight} (hf : f ∈ g.flights) : f ∈
      (if (tooManyAttempts g.limiter post.key pruneAt now).1 then g.flights
        else g.flights ++ [⟨post, .passed⟩]) := by
    split
    · exact hf
    · exact List.mem_append_left _ hf
  have hcases {f : Flight} (hf : f ∈
      (if (tooManyAttempts g.limiter post.key pruneAt now).1 then g.flights
        else g.flights ++ [⟨post, .passed⟩])) : f ∈ g.flights ∨ f = ⟨post, .passed⟩ := by
    split at hf
    · exact Or.inl hf
    · exact (List.mem_append.mp hf).imp id List.mem_singleton.mp
  constructor
  · intro f hf u hu
    rcases hcases hf with hold | rfl
    · obtain ⟨hright, hpast⟩ := h.matched f hold u hu
      exact ⟨hright, hpast.trans hle⟩
    · cases hu
  · intro f hf
    rcases hcases hf with hold | rfl
    · exact h.ids f hold
    · exact hid
  · intro id expires hissue
    obtain ⟨f, hf, checkedAt, issuedAt, hphase, hid, hexpires, hpast, hclock⟩ :=
      h.earned id expires hissue
    exact ⟨f, hmem hf, checkedAt, issuedAt, hphase, hid, hexpires, hpast, hclock.trans hle⟩

theorem Honest.check (h : Honest checkSecret g tokens) {i : ℕ} {now : Time}
    (hstep : PasswordGate.next checkSecret g (.check i now) = some g') :
    Honest checkSecret g' tokens := by
  obtain ⟨hnow, post, hf, rfl⟩ := next_check hstep
  refine h.set hf hnow (fun u hu => by cases hu) fun u hu => ?_
  rw [rightAt_checkForm hu]
  exact ⟨rightPassword_of_checkForm hu, le_refl _⟩

theorem Honest.settle (h : Honest checkSecret g tokens) {i : ℕ} {now : Time}
    (hstep : PasswordGate.next checkSecret g (.settle i now) = some g') :
    Honest checkSecret g' tokens := by
  obtain ⟨hnow, post, ⟨checkedAt, hf, rfl⟩ | ⟨checkedAt, hf, rfl⟩⟩ := next_settle hstep
  · exact h.set hf hnow (fun u hu => by cases hu) fun u hu => by cases hu
  · refine h.set hf hnow (fun u hu => by cases hu) fun u hu => ?_
    obtain ⟨hright, hpast⟩ := h.matched _ (List.mem_of_getElem? hf) u hu
    exact ⟨hright, hpast.trans hnow⟩

theorem Honest.session (h : Honest checkSecret g tokens) (claims : Claims) :
    Honest checkSecret g (tokens ++ [.jwt claims]) := by
  refine ⟨h.matched, h.ids, fun id expires hmem => ?_⟩
  rcases List.mem_append.mp hmem with hold | hnew
  · exact h.earned id expires hold
  · cases List.mem_singleton.mp hnew

theorem Honest.grant (h : Honest checkSecret g tokens) {f : Flight} (hf : f ∈ g.flights)
    {checkedAt now : Time} (hphase : f.phase = .cleared checkedAt)
    (hnow : g.clock.nanos ≤ now.nanos) :
    Honest checkSecret { g with clock := now }
      (tokens ++ [.linkAccess (Int64.ofInt f.post.link.id) (expiry now)]) := by
  have hwait := h.wait hnow
  refine ⟨hwait.matched, hwait.ids, fun id expires hmem => ?_⟩
  rcases List.mem_append.mp hmem with hold | hnew
  · exact hwait.earned id expires hold
  · obtain ⟨rfl, rfl⟩ := Issue.linkAccess.inj (List.mem_singleton.mp hnew)
    have hpast := (h.matched f hf checkedAt (by rw [hphase]; rfl)).2
    exact ⟨f, hf, checkedAt, now, hphase, rfl, rfl, hpast.trans hnow, le_refl _⟩

/-! What a visit does. -/

theorem gate_of_redirectSlug {v : Visit} {link : Except Err Link} {l : Link}
    (h : redirectSlug site v link = .replied (.passwordGate l)) :
    link = .ok l ∧ l.passwordProtected = true ∧ hasLinkAccess site v l.id = false := by
  unfold redirectSlug at h
  split at h
  · split at h
    · split at h
      · cases h
      · cases h
    · cases h
  · rename_i stored
    split at h
    · cases h
    · split at h
      · rename_i hgate
        cases h
        simpa using hgate
      · split at h
        · cases h
        · cases h

/-- A visitor with a protected link and no access to it meets the gate, or a domain the link is
not on. -/
theorem redirectSlug_shut {v : Visit} {l : Link} (hprotected : l.passwordProtected = true)
    (haccess : hasLinkAccess site v l.id = false) :
    redirectSlug site v (.ok l) = .replied
      (if v.domain.any fun d => l.tenantId ≠ some d.tenantId then .notFound
        else .passwordGate l) := by
  simp only [redirectSlug, hprotected, haccess]
  split <;> rfl

def gated : Link :=
  { id := 7, title := lit "Plans", targetUrl := lit "https://plans.example", redirectCode := 302,
    passwordProtected := true, passwordHash := lit "hash" }

theorem token_POST :
    lit "POST" ≠ [] ∧ (lit "POST").all HttpRequest.tokenByte = true := by
  decide

/-- A visitor with a form. -/
def posting : Visit :=
  { RedirectAccounts.visit 1 with
    request := { (RedirectAccounts.visit 1).request with
      method := lit "POST"
      token := token_POST } }

/-- What the gate needs of a protected link. -/
def veil (l : Link) : Link :=
  if l.passwordProtected then
    { id := l.id, tenantId := l.tenantId, title := l.title, passwordProtected := true,
      passwordHash := l.passwordHash }
  else l

def veilFlight (f : Flight) : Flight := { f with post := { f.post with link := veil f.post.link } }

def Doors.veiled (s : Doors) : Doors :=
  { s with gate := { s.gate with flights := s.gate.flights.map veilFlight } }

def Event.veiled : Event → Event
  | .visit v link form outcome pruneAt now =>
    .visit v (link.map veil) form outcome pruneAt now
  | e => e

/-- The visitor has no access to a protected link. -/
def Sealed (site : Site) : Event → Prop
  | .visit v (.ok l) _ _ _ _ => l.passwordProtected = true → hasLinkAccess site v l.id = false
  | _ => True

theorem veil_kept (l : Link) : (veil l).id = l.id ∧ (veil l).tenantId = l.tenantId ∧
    (veil l).title = l.title ∧ (veil l).passwordHash = l.passwordHash ∧
    (veil l).passwordProtected = l.passwordProtected := by
  unfold veil
  split
  · rename_i hprotected
    exact ⟨rfl, rfl, rfl, rfl, hprotected.symm⟩
  · exact ⟨rfl, rfl, rfl, rfl, rfl⟩

theorem veiled_arrive (g : Gate) (l : Link) (ip : Str) (form : Option Str) (pruneAt now : Time) :
    PasswordGate.next checkSecret { g with flights := g.flights.map veilFlight }
      (.arrive ⟨veil l, ip, form⟩ pruneAt now) =
    (PasswordGate.next checkSecret g (.arrive ⟨l, ip, form⟩ pruneAt now)).map fun g' =>
      { g' with flights := g'.flights.map veilFlight } := by
  have hkey : Post.key ⟨veil l, ip, form⟩ = Post.key ⟨l, ip, form⟩ :=
    congrArg (attemptKey · ip) (veil_kept l).1
  simp only [PasswordGate.next, hkey]
  split
  · rw [Option.map_some]
    split
    · rfl
    · rw [List.map_append]
      rfl
  · rfl

theorem checkForm_veil (post : Post) (now : Time) :
    checkForm checkSecret { post with link := veil post.link } now =
      checkForm checkSecret post now := by
  simp only [checkForm, (veil_kept post.link).2.2.2.1]

theorem veiled_set (flights : List Flight) (i : ℕ) (post : Post) (phase : Phase) :
    (flights.map veilFlight).set i ⟨{ post with link := veil post.link }, phase⟩ =
      (flights.set i ⟨post, phase⟩).map veilFlight := by
  rw [List.map_set]
  rfl

theorem veiled_check (g : Gate) (i : ℕ) (now : Time) :
    PasswordGate.next checkSecret { g with flights := g.flights.map veilFlight } (.check i now) =
    (PasswordGate.next checkSecret g (.check i now)).map fun g' =>
      { g' with flights := g'.flights.map veilFlight } := by
  simp only [PasswordGate.next, List.getElem?_map]
  split
  · cases hflight : g.flights[i]? with
    | none => rfl
    | some f =>
      obtain ⟨post, phase⟩ := f
      cases phase with
      | passed =>
        simp only [Option.map_some, veilFlight, checkForm_veil, veiled_set]
      | failed checkedAt => rfl
      | matched checkedAt => rfl
      | recorded checkedAt => rfl
      | cleared checkedAt => rfl
  · rfl

theorem key_veil (post : Post) : Post.key { post with link := veil post.link } = post.key :=
  congrArg (attemptKey · post.ip) (veil_kept post.link).1

theorem veiled_settle (g : Gate) (i : ℕ) (now : Time) :
    PasswordGate.next checkSecret { g with flights := g.flights.map veilFlight } (.settle i now) =
    (PasswordGate.next checkSecret g (.settle i now)).map fun g' =>
      { g' with flights := g'.flights.map veilFlight } := by
  simp only [PasswordGate.next, List.getElem?_map]
  split
  · cases hflight : g.flights[i]? with
    | none => rfl
    | some f =>
      obtain ⟨post, phase⟩ := f
      cases phase with
      | passed => rfl
      | failed checkedAt =>
        simp only [Option.map_some, veilFlight, key_veil, veiled_set]
      | matched checkedAt =>
        simp only [Option.map_some, veilFlight, key_veil, veiled_set]
      | recorded checkedAt => rfl
      | cleared checkedAt => rfl
  · rfl

theorem veiled_limited (s : Doors) (tooMany : Bool) (gate : Gate) :
    limited s.veiled tooMany { gate with flights := gate.flights.map veilFlight } =
      (limited s tooMany gate).veiled := by
  cases tooMany with
  | true => rfl
  | false => rfl

theorem veiled_knock (s : Doors) (v : Visit) (l : Link) (form : Option Str) (pruneAt now : Time) :
    knock checkSecret s.veiled v (veil l) form pruneAt now =
      (knock checkSecret s v l form pruneAt now).map Doors.veiled := by
  have hkey : Post.key ⟨veil l, visitorIP v.request, form⟩ =
    Post.key ⟨l, visitorIP v.request, form⟩ := congrArg (attemptKey · _) (veil_kept l).1
  have harrive := @veiled_arrive checkSecret s.gate l (visitorIP v.request) form pruneAt now
  unfold knock
  split
  · dsimp only
    rw [hkey,
      show s.veiled.gate = { s.gate with flights := s.gate.flights.map veilFlight } from rfl,
        harrive, Option.map_map, Option.map_map]
    exact congrArg (Option.map · _) (funext fun gate => veiled_limited s _ gate)
  · rw [(veil_kept l).2.2.1]
    rfl

theorem veiled_handled (s : Doors) (v : Visit) (form : Option Str) (outcome : Bool × Option Err)
    (pruneAt now : Time) {h : Handled} (hopen : ∀ l, h ≠ .replied (.passwordGate l)) :
    handled checkSecret s.veiled v form outcome pruneAt now h =
      (handled checkSecret s v form outcome pruneAt now h).map Doors.veiled := by
  cases h with
  | replied reply =>
    cases reply with
    | passwordGate l => exact absurd rfl (hopen l)
    | notFound => rfl
    | expiredPage => rfl
    | trackingFailed => rfl
    | redirect location code => rfl
  | recording event increment maxClicks reply => rfl

theorem veiled_visit {v : Visit} {link : Except Err Link} {form : Option Str}
    {outcome : Bool × Option Err} {pruneAt now : Time}
    (hsealed : Sealed site (.visit v link form outcome pruneAt now)) (s : Doors) :
    next site checkSecret s.veiled (.visit v (link.map veil) form outcome pruneAt now) =
      (next site checkSecret s (.visit v link form outcome pruneAt now)).map Doors.veiled := by
  have hguard : (link.map veil).toOption.all (fun l => bigint l.id) =
      link.toOption.all fun l => bigint l.id := by
    cases link with
    | error e => rfl
    | ok l => exact congrArg bigint (veil_kept l).1
  have hopen (l : Link) (h : redirectSlug site v link = .replied (.passwordGate l)) :
      l.passwordProtected = true := (gate_of_redirectSlug h).2.1
  have hclock : s.veiled.gate.clock = s.gate.clock := rfl
  simp only [next, hguard, hclock]
  by_cases hstep : (decide (s.gate.clock.nanos ≤ v.accessAt.nanos) &&
      link.toOption.all fun l => bigint l.id) = true
  · rw [if_pos hstep, if_pos hstep]
    by_cases hprotected : ∃ l, link = .ok l ∧ l.passwordProtected = true
    · obtain ⟨l, rfl, hprotected⟩ := hprotected
      obtain ⟨hid, htenant, -, -, hkept⟩ := veil_kept l
      have haccess := hsealed hprotected
      have hveiled : redirectSlug site v (.ok (veil l)) = _ :=
        redirectSlug_shut (hkept.trans hprotected) (hid ▸ haccess)
      simp only [Except.map, redirectSlug_shut hprotected haccess, hveiled, htenant]
      split
      · rfl
      · exact veiled_knock { s with gate := { s.gate with clock := v.accessAt } } v l form pruneAt
          now
    · -- nothing of the link is veiled, and nothing asks for its password
      have hsame : link.map veil = link := by
        cases link with
        | error e => rfl
        | ok l => exact congrArg Except.ok (if_neg fun h => hprotected ⟨l, rfl, h⟩)
      rw [hsame]
      refine veiled_handled { s with gate := { s.gate with clock := v.accessAt } } v form outcome
        pruneAt now fun l h => hprotected ⟨l, ?_⟩
      obtain ⟨hlink, hprotected, -⟩ := gate_of_redirectSlug h
      exact ⟨hlink, hprotected⟩
  · rw [if_neg hstep, if_neg hstep]
    rfl

theorem veiled_settled (s : Doors) (i : ℕ) (gate : Gate) :
    settled s.veiled i { gate with flights := gate.flights.map veilFlight } =
      (settled s i gate).veiled := by
  simp only [settled, Doors.veiled, List.getElem?_map]
  cases s.gate.flights[i]? with
  | none => rfl
  | some f =>
    obtain ⟨post, phase⟩ := f
    cases phase with
    | failed checkedAt =>
      simp only [Option.map_some, veilFlight, (veil_kept post.link).2.2.1]
      rfl
    | passed => rfl
    | matched checkedAt => rfl
    | recorded checkedAt => rfl
    | cleared checkedAt => rfl

theorem veiled_grant (s : Doors) (i : ℕ) (now : Time) :
    next site checkSecret s.veiled (.grant i now) =
      (next site checkSecret s (.grant i now)).map Doors.veiled := by
  have hclock : s.veiled.gate.clock = s.gate.clock := rfl
  have hgranted : s.veiled.granted = s.granted := rfl
  have hflights : s.veiled.gate.flights = s.gate.flights.map veilFlight := rfl
  simp only [next, hclock, hgranted, hflights, List.getElem?_map]
  by_cases hstep : (decide (s.gate.clock.nanos ≤ now.nanos) && !s.granted.contains i) = true
  · rw [if_pos hstep, if_pos hstep]
    cases s.gate.flights[i]? with
    | none => rfl
    | some f =>
      obtain ⟨post, phase⟩ := f
      cases phase with
      | cleared checkedAt =>
        simp only [Option.map_some, veilFlight, (veil_kept post.link).1]
        rfl
      | passed => rfl
      | failed checkedAt => rfl
      | matched checkedAt => rfl
      | recorded checkedAt => rfl
  · rw [if_neg hstep, if_neg hstep]
    rfl

theorem masks_veiled :
    MaskedRuns.Masks (next site checkSecret) (Sealed site) Doors.veiled Event.veiled := by
  intro s e hsealed
  cases e with
  | session claims => rfl
  | visit v link form outcome pruneAt now => exact veiled_visit hsealed s
  | check i now =>
    have hcheck := @veiled_check checkSecret s.gate i now
    change (PasswordGate.next checkSecret _ _).map _ = _
    rw [show s.veiled.gate = { s.gate with flights := s.gate.flights.map veilFlight } from rfl,
      hcheck]
    simp only [next, Option.map_map]
    rfl
  | settle i now =>
    have hsettle := @veiled_settle checkSecret s.gate i now
    change (PasswordGate.next checkSecret _ _).map _ = _
    rw [show s.veiled.gate = { s.gate with flights := s.gate.flights.map veilFlight } from rfl,
      hsettle]
    simp only [next, Option.map_map]
    exact congrArg (Option.map · _) (funext fun gate => veiled_settled s i gate)
  | grant i now => exact veiled_grant s i now

/-- What leaves the handler. -/
def Doors.seen (s : Doors) : List Answer × List (ClickEvent × Bool × Option ℤ) :=
  (s.answers, s.recorded)

/-- Two runs whose visitors have no access to protected links, and whose protected links have the
same id, tenant, title and password, give the same answers and record the same clicks: whatever
else the links say, their targets, rules, expiry and clicks included. -/
theorem protected_links_veiled (site : Site) (checkSecret : Str → Str → Bool) (clock : Time)
    {es es' : List Event} (hes : ∀ e ∈ es, Sealed site e) (hes' : ∀ e ∈ es', Sealed site e)
    (hsame : es.map Event.veiled = es'.map Event.veiled) :
    (replay (next site checkSecret) (.initial clock) es).map Doors.seen =
      (replay (next site checkSecret) (.initial clock) es').map Doors.seen := by
  have hmasks := @masks_veiled site checkSecret
  have hview := @MaskedRuns.Masks.same_view _ _ _ _ _ _ hmasks es es' hes hes' hsame
    (.initial clock) (.initial clock) rfl
  have hseen := congrArg (Option.map Doors.seen) hview
  rw [Option.map_map, Option.map_map] at hseen
  exact hseen

def elsewhere : Link :=
  { gated with
    targetUrl := lit "https://elsewhere.example"
    maxClicks := some 1
    clicks := 1 }

def asking (l : Link) : List Event :=
  [.visit (RedirectAccounts.visit 1) (.ok l) none (true, none) noon noon,
    .visit posting (.ok l) (some (lit "1234")) (true, none) noon noon, .check 0 noon,
    .settle 0 noon]

theorem sealed_asking (l : Link) : ∀ e ∈ asking l, Sealed RedirectAccounts.site e := by
  simp only [asking, List.forall_mem_cons]
  exact ⟨fun _ => rfl, fun _ => rfl, trivial, trivial, fun _ h => absurd h List.not_mem_nil⟩

theorem protected_links_veiled_elsewhere :
    (replay (next RedirectAccounts.site opens) (.initial noon) (asking gated)).map Doors.seen =
      (replay (next RedirectAccounts.site opens) (.initial noon) (asking elsewhere)).map
        Doors.seen :=
  protected_links_veiled RedirectAccounts.site opens noon (sealed_asking gated)
    (sealed_asking elsewhere) rfl

end GatedTargets
