import ShortQ.KeyAuthority

/-! # Where sessions come from

A session token is handed out by a completed Microsoft login, or by a switch of mode while an
earlier session of the same user lives. -/
namespace SessionRoots

open AccountRows
open Authentication
open GoText
open LabelledRuns
open LinkScopes
open Models
open RowTable
open SignedTokens
open Transaction

/-! ## What a token says -/

/-- The claims that are read back: what is no UTF-8 has been replaced. -/
theorem claimsOf_render (c : Claims) : claimsOf (JsonText.render c.json) =
    some { c with email := toValid c.email, mode := toValid c.mode } := by
  have huid : JsonValues.fieldNamed [.uid, .email, .mode, .exp] ClaimsField.name
      (toValid (lit "uid")) = some .uid := by decide
  have hemail : JsonValues.fieldNamed [.uid, .email, .mode, .exp] ClaimsField.name
      (toValid (lit "email")) = some .email := by decide
  have hmode : JsonValues.fieldNamed [.uid, .email, .mode, .exp] ClaimsField.name
      (toValid (lit "mode")) = some .mode := by decide
  have hexp : JsonValues.fieldNamed [.uid, .email, .mode, .exp] ClaimsField.name
      (toValid (lit "exp")) = some .exp := by decide
  have hnumber (v : Int64) : JsonText.marshalled (int64Json v) = int64Json v := rfl
  have htext (t : Str) : JsonText.marshalled (.string t false) =
    .string (toValid t) (JsonValues.escapes t) := rfl
  have hdepth : JsonText.depth c.json ≤ JsonText.maxNestingDepth := by
    unfold Claims.json
    split <;> simp [int64Json, JsonText.depth, JsonText.depthMembers, JsonText.maxNestingDepth]
  refine (storeObject_render hdepth).trans ?_
  by_cases hnone : c.mode.isEmpty = true
  · have hempty : c.mode = [] := List.isEmpty_iff.mp hnone
    have hvalid : toValid c.mode = [] := by rw [hempty]; rfl
    rw [if_pos hnone]
    simp only [List.append_nil, List.cons_append, List.nil_append, JsonText.marshalledMembers,
      List.foldlM_cons, List.foldlM_nil, huid, hemail, hexp, hnumber, htext, Claims.assign,
      int64Value_json, JsonValues.stringValue, Option.map_some, Option.bind_eq_bind,
      Option.bind_some, Option.pure_def, hvalid]
  · rw [if_neg hnone]
    simp only [List.cons_append, List.nil_append, JsonText.marshalledMembers,
      List.foldlM_cons, List.foldlM_nil, huid, hemail, hmode, hexp, hnumber, htext, Claims.assign,
      int64Value_json, JsonValues.stringValue, Option.map_some, Option.bind_eq_bind,
      Option.bind_some, Option.pure_def]

/-- A token that is accepted and no forgery was issued for the same user and still lives. -/
theorem issued_of_parse {mac : Str → Str} {issued : Set Issue} {token : Str} {now : Int64}
    {c : Claims} (h : Unforged mac issued token) (hparse : ParseJWT mac now token = some c) :
    ∃ c', .jwt c' ∈ issued ∧ c'.userId = c.userId ∧ now ≤ c'.exp := by
  obtain ⟨c', hissued, rfl⟩ := issued_of_ParseJWT h hparse
  refine ⟨c', hissued, ?_⟩
  obtain ⟨head, body, htext, hbody, hsplit⟩ := splitOn_SignJWT mac c'
  rw [ParseJWT, hsplit] at hparse
  dsimp only at hparse
  rw [← htext, if_pos rfl, hbody, Base64.decode_encode, Option.bind_some, claimsOf_render,
    Option.bind_some] at hparse
  split at hparse
  · cases hparse
  · rename_i hexp
    obtain rfl := Option.some.inj hparse
    exact ⟨rfl, Int64.not_lt.mp hexp⟩

/-! ## What a request is given -/

/-- The address `microsoftCallback` looks at. -/
def loginEmail (d : Deployment) (claims : MicrosoftClaims) : Str :=
  let email := d.toLower (trimSpace claims.email)
  if email = [] then d.toLower (trimSpace claims.preferredUsername) else email

/-- The request completes a Microsoft login of the account: `ensureSSOUser` returns its stored row
for an address that may log in, and the callback hands out its session. -/
structure Login (d : Deployment) (s : System) (q : Incoming) (u : UserRow) : Prop where
  verified : ∃ claims tenant, q.route = .microsoftCallback (some claims) tenant ∧
    d.allowedMicrosoftUser (loginEmail d claims) = true ∧
    (ensureSSOUser d s q tenant (loginEmail d claims) claims.name).1 = .ok u ∧
    u.email = d.toLower (loginEmail d claims)
  granted : ∃ reply s', serve d s q = some (reply, s') ∧ u ∈ s'.world.accounts.users.rows ∧
    s'.granted = s.granted ++ [.jwt (sessionClaims q u (defaultDashboardMode (userOf u)))]

/-- Where the claims of a session may come from in a run: a login, or a switch of mode within the
life of an earlier session of the same user. -/
inductive Rooted (d : Deployment) (start : System) : List Event → Claims → Prop
  | login {es s q u} (run : Execution (next d) start es s) (login : Login d s q u) :
    Rooted d start (es ++ [.request q]) (sessionClaims q u (defaultDashboardMode (userOf u)))
  | switch {es q mode u c} (before : Rooted d start es c) (alive : q.now ≤ c.exp)
      (same : Int64.ofInt u.id = c.userId) (route : q.route = .sessionMode (some mode)) :
    Rooted d start (es ++ [.request q]) (sessionClaims q u mode)
  | later {es e c} (before : Rooted d start es c) : Rooted d start (es ++ [e]) c

/-- The user logged in at some request of the run. -/
def LoggedIn (d : Deployment) (start : System) (es : List Event) (id : Int64) : Prop :=
  ∃ xs q ys s u, es = xs ++ .request q :: ys ∧ Execution (next d) start xs s ∧ Login d s q u ∧
    Int64.ofInt u.id = id

theorem LoggedIn.later {d : Deployment} {start : System} {es : List Event} {id : Int64}
    (h : LoggedIn d start es id) (e : Event) : LoggedIn d start (es ++ [e]) id := by
  obtain ⟨xs, q, ys, s, u, rfl, hrun, hlogin, hid⟩ := h
  refine ⟨xs, q, ys ++ [e], s, u, ?_, hrun, hlogin, hid⟩
  rw [List.append_assoc, List.cons_append]

/-- The login at the root. -/
theorem Rooted.root {d : Deployment} {start : System} {es : List Event} {c : Claims}
    (h : Rooted d start es c) : LoggedIn d start es c.userId := by
  induction h with
  | @login es s q u run login => exact ⟨es, q, [], s, u, rfl, run, login, rfl⟩
  | @switch es q mode u c _ _ same _ ih =>
    have hlater := ih.later (.request q)
    rw [← same] at hlater
    exact hlater
  | @later es e c _ ih => exact ih.later e

/-- A token that the request adds to those handed out. -/
inductive Grants (d : Deployment) (s : System) (q : Incoming) : Claims → Prop
  | login {u} (login : Login d s q u) :
    Grants d s q (sessionClaims q u (defaultDashboardMode (userOf u)))
  | switch {u p mode} (sender : userFromSession d s q = some (u, p))
      (route : q.route = .sessionMode (some mode)) : Grants d s q (sessionClaims q u mode)

/-- Every token is an old one, or is granted here. -/
def Given (d : Deployment) (s : System) (q : Incoming) (s' : System) : Prop :=
  ∀ c, .jwt c ∈ s'.granted → .jwt c ∈ s.granted ∨ Grants d s q c

theorem mem_grant {s : System} {q : Incoming} {u : UserRow} {mode : Str} {c : Claims}
    (h : .jwt c ∈ (s.grant q u mode).granted) :
    .jwt c ∈ s.granted ∨ c = sessionClaims q u mode := by
  rcases List.mem_append.mp h with hold | hnew
  · exact Or.inl hold
  · exact Or.inr (Issue.jwt.inj (List.mem_singleton.mp hnew))

theorem email_of_userByEmail {io : Script} {unicode : Hosts.Unicode} {s : Accounts} {email : Str}
    {u : UserRow} (h : userByEmail io unicode s email = .ok u) :
    u.email = unicode.toLower email := by
  have hread := call_ok h
  split at hread
  · rename_i r hfind
    cases hread
    simpa using List.find?_some hfind
  · cases hread

theorem stored_of_userByEmail {io : Script} {unicode : Hosts.Unicode} {s : Accounts} {email : Str}
    {u : UserRow} (h : userByEmail io unicode s email = .ok u) : u ∈ s.users.rows := by
  have hread := call_ok h
  split at hread
  · rename_i r hfind
    cases hread
    exact List.mem_of_find?_eq_some hfind
  · cases hread

/-- The account is the stored one with the address. -/
theorem row_of_ensureSSOUser {d : Deployment} {s : System} {q : Incoming}
    {tenant : Except Err ℤ} {email name : Str} {u : UserRow} {accounts : Accounts}
    (h : ensureSSOUser d s q tenant email name = (.ok u, accounts)) :
    u ∈ accounts.users.rows ∧ u.email = d.toLower email := by
  unfold ensureSSOUser at h
  split at h
  · rename_i u' hfound
    obtain ⟨hu, rfl⟩ := Prod.mk.inj h
    cases hu
    exact ⟨stored_of_userByEmail hfound, email_of_userByEmail hfound⟩
  · split at h
    · cases h
    · split at h
      · cases h
      · dsimp only at h
        split at h
        · cases h
        · rename_i after hcreate
          obtain ⟨hu, rfl⟩ := Prod.mk.inj h
          exact ⟨stored_of_userByEmail hu, email_of_userByEmail hu⟩

/-- The callback leaves the tokens as they are, or adds one for the account it found. -/
theorem completeLogin_cases (d : Deployment) (s : System) (q : Incoming) (tenant : Except Err ℤ)
    (email name : Str) :
    (completeLogin d s q tenant email name).2.granted = s.granted ∨
    ∃ u, (ensureSSOUser d s q tenant email name).1 = .ok u ∧ u.email = d.toLower email ∧
      u ∈ (completeLogin d s q tenant email name).2.world.accounts.users.rows ∧
      (completeLogin d s q tenant email name).2.granted =
        s.granted ++ [.jwt (sessionClaims q u (defaultDashboardMode (userOf u)))] := by
  have hrow {u : UserRow} {accounts : Accounts} :=
    @row_of_ensureSSOUser d s q tenant email name u accounts
  unfold completeLogin
  generalize ensureSSOUser d s q tenant email name = outcome at hrow
  obtain ⟨result, accounts⟩ := outcome
  dsimp only
  cases result with
  | error e => exact Or.inl rfl
  | ok u =>
    obtain ⟨hstored, hemail⟩ := hrow rfl
    dsimp only
    split
    · split
      · exact Or.inl rfl
      · exact Or.inr ⟨u, rfl, hemail, hstored, rfl⟩
    · exact Or.inr ⟨u, rfl, hemail, hstored, rfl⟩

theorem given_completeLogin {d : Deployment} {s : System} {q : Incoming} {claims : MicrosoftClaims}
    {tenant : Except Err ℤ} (hroute : q.route = .microsoftCallback (some claims) tenant)
    (hallowed : d.allowedMicrosoftUser (loginEmail d claims) = true) :
    Given d s q (completeLogin d s q tenant (loginEmail d claims) claims.name).2 := by
  have hserve : serve d s q =
      some (completeLogin d s q tenant (loginEmail d claims) claims.name) := by
    unfold serve
    rw [hroute]
    exact congrArg some (if_pos hallowed)
  intro c hc
  rcases completeLogin_cases d s q tenant (loginEmail d claims) claims.name with
    hsame | ⟨u, hu, hemail, hstored, hgranted⟩
  · exact Or.inl (hsame ▸ hc)
  · have hlogin : Login d s q u :=
      ⟨⟨claims, tenant, hroute, hallowed, hu, hemail⟩, ⟨_, _, hserve, hstored, hgranted⟩⟩
    rw [hgranted] at hc
    rcases List.mem_append.mp hc with hold | hnew
    · exact Or.inl hold
    · obtain rfl := Issue.jwt.inj (List.mem_singleton.mp hnew)
      exact Or.inr (.login hlogin)

theorem given_callback {d : Deployment} {s : System} {q : Incoming}
    {verified : Option MicrosoftClaims} {tenant : Except Err ℤ}
    (hroute : q.route = .microsoftCallback verified tenant) :
    Given d s q (microsoftCallback d s q verified tenant).2 := by
  cases verified with
  | none => exact fun c hc => Or.inl hc
  | some claims =>
    change Given d s q (if d.allowedMicrosoftUser (loginEmail d claims) = true then
      completeLogin d s q tenant (loginEmail d claims) claims.name
      else ({ answer := .written (AuditedHandlers.errOut 403 "user not allowed") }, s)).2
    split
    · rename_i hallowed
      exact given_completeLogin hroute hallowed
    · exact fun c hc => Or.inl hc

theorem given_sessionMode {d : Deployment} {s : System} {q : Incoming} {mode : Option Str}
    (hroute : q.route = .sessionMode mode) : Given d s q (sessionMode d s q mode).2 := by
  unfold sessionMode
  cases hsender : userFromSession d s q with
  | none => exact fun c hc => Or.inl hc
  | some sender =>
    obtain ⟨u, p⟩ := sender
    dsimp only
    split
    · exact fun c hc => Or.inl hc
    · cases mode with
      | none => exact fun c hc => Or.inl hc
      | some mode =>
        dsimp only
        split
        · exact fun c hc => Or.inl hc
        · intro c hc
          rcases mem_grant hc with hold | rfl
          · exact Or.inl hold
          · exact Or.inr (.switch hsender hroute)

theorem given_guarded {d : Deployment} {s s' : System} {q : Incoming} {reply : Reply}
    {g : Guarded} (h : guarded d s q g = some (reply, s')) : Given d s q s' := by
  have hgranted : s'.granted = s.granted := by
    unfold guarded at h
    split at h
    · cases h
      rfl
    · obtain ⟨c, -, heq⟩ := Option.map_eq_some_iff.mp h
      cases g with
      | read page =>
        cases heq
        rfl
      | listKeys =>
        cases heq
        rfl
      | admin a =>
        cases heq
        rfl
  exact fun c hc => Or.inl (hgranted ▸ hc)

/-- A request is given a token by a login or by a switch of mode. -/
theorem given_serve {d : Deployment} (hdev : d.devAuthBypass = false) {s s' : System}
    {q : Incoming} {reply : Reply} (h : serve d s q = some (reply, s')) : Given d s q s' := by
  unfold serve at h
  cases hroute : q.route with
  | health | register | login | forgot | qr | logout | methodNotAllowed =>
    rw [hroute] at h
    cases h
    exact fun c hc => Or.inl hc
  | redirect db unlocked =>
    rw [hroute] at h
    cases h
    intro c hc
    rcases List.mem_append.mp hc with hold | hlink
    · exact Or.inl hold
    · obtain ⟨_, _, heq⟩ := List.mem_map.mp hlink
      cases heq
  | docs | index =>
    rw [hroute] at h
    dsimp only at h
    split at h
    · cases h
      exact fun c hc => Or.inl hc
    · cases h
      exact fun c hc => Or.inl hc
  | microsoftLogin =>
    rw [hroute] at h
    simp only [microsoftLogin, hdev] at h
    cases h
    exact fun c hc => Or.inl hc
  | microsoftCallback verified tenant =>
    rw [hroute] at h
    have hgiven := @given_callback d s q verified tenant hroute
    rw [Option.some.inj h] at hgiven
    exact hgiven
  | sessionMode mode =>
    rw [hroute] at h
    have hgiven := @given_sessionMode d s q mode hroute
    rw [Option.some.inj h] at hgiven
    exact hgiven
  | read page =>
    rw [hroute] at h
    exact given_guarded h
  | listKeys =>
    rw [hroute] at h
    exact given_guarded h
  | admin a =>
    rw [hroute] at h
    exact given_guarded h

/-! ## Who is let in -/

/-- The tokens the request carries are no forgeries. -/
structure Genuine (d : Deployment) (s : System) (q : Incoming) : Prop where
  session : ∀ token, q.session = some token → Unforged d.mac {i | i ∈ s.granted} token
  bearer : Unforged d.mac {i | i ∈ s.granted} (bearerOf q)

/-- The account is in use and may log in, and the principal has no more than its role. -/
structure Admitted (d : Deployment) (s : System) (u : UserRow) (p : Principal) : Prop where
  stored : u ∈ s.world.accounts.users.rows
  active : u.active = true
  allowed : d.allowedMicrosoftUser u.email = true
  actual : p.actual = userOf u
  rank : KeyAuthority.rank p.effective.role ≤ KeyAuthority.rank u.role

/-- A token that was handed out lives and names the account. -/
def Holds (s : System) (q : Incoming) (u : UserRow) : Prop :=
  ∃ c, .jwt c ∈ s.granted ∧ Int64.ofInt u.id = c.userId ∧ q.now ≤ c.exp

theorem row_of_userByID {io : Script} {s : Accounts} {id : ℤ} {u : UserRow}
    (h : userByID io s id = .ok u) : u ∈ s.users.rows ∧ u.id = id := by
  have hread := call_ok h
  split at hread
  · rename_i r hfind
    cases hread
    exact ⟨List.mem_of_find?_eq_some hfind, by simpa using List.find?_some hfind⟩
  · cases hread

theorem holds_of_parse {d : Deployment} {s : System} {q : Incoming} {token : Str} {c : Claims}
    {u : UserRow} (h : Unforged d.mac {i | i ∈ s.granted} token)
    (hparse : ParseJWT d.mac q.now token = some c) (hid : u.id = c.userId.toInt) :
    Holds s q u := by
  obtain ⟨c', hissued, huser, hexp⟩ := issued_of_parse h hparse
  refine ⟨c', hissued, ?_, hexp⟩
  rw [hid, Int64.ofInt_toInt, huser]

theorem admitted_of_session {d : Deployment} (hdev : d.devAuthBypass = false) {s : System}
    {q : Incoming} (hgenuine : Genuine d s q) {u : UserRow} {p : Principal}
    (h : userFromSession d s q = some (u, p)) : Admitted d s u p ∧ Holds s q u := by
  unfold userFromSession at h
  split at h
  · cases h
  · rename_i claims hclaims
    obtain ⟨token, htoken, hparse⟩ := Option.bind_eq_some_iff.mp hclaims
    split at h
    · cases h
    · rename_i u' hfound
      obtain ⟨hstored, hid⟩ := row_of_userByID hfound
      split at h
      · cases h
      · rename_i hactive
        split at h
        · cases h
        · rename_i hallowed
          obtain ⟨rfl, rfl⟩ := Prod.mk.inj (Option.some.inj h)
          have hdevAllows : d.devAuthAllows u'.email = false := by
            rw [Deployment.devAuthAllows, hdev]
            rfl
          rw [hdevAllows] at hallowed
          refine ⟨⟨hstored, by simpa using hactive, by simpa using hallowed, rfl, ?_⟩,
            holds_of_parse (hgenuine.session token htoken) hparse hid⟩
          exact KeyAuthority.rank_effective (userOf u') claims.mode (lit "session")

theorem admitted_of_withAuth {d : Deployment} (hdev : d.devAuthBypass = false) {s : System}
    {q : Incoming} (hgenuine : Genuine d s q) (hkey : apiKeyFromRequest q = []) {u : UserRow}
    {p : Principal} (h : withAuth d s q = .ok (u, p)) : Admitted d s u p ∧ Holds s q u := by
  unfold withAuth at h
  rw [if_neg (not_not.mpr hkey)] at h
  split at h
  · rename_i sender hsender
    cases h
    exact admitted_of_session hdev hgenuine hsender
  · split at h
    · cases h
    · rename_i claims hparse
      split at h
      · cases h
      · rename_i u' hfound
        obtain ⟨hstored, hid⟩ := row_of_userByID hfound
        split at h
        · rename_i hallowed
          rw [Bool.and_eq_true] at hallowed
          cases h
          exact ⟨⟨hstored, hallowed.1, hallowed.2, rfl,
              KeyAuthority.rank_effective (userOf u) claims.mode (lit "bearer")⟩,
            holds_of_parse hgenuine.bearer hparse hid⟩
        · cases h

/-! ## Runs -/

/-- Every session that was handed out goes back to a login. -/
def AllRooted (d : Deployment) (start : System) (es : List Event) (s : System) : Prop :=
  ∀ c, .jwt c ∈ s.granted → Rooted d start es c

theorem allRooted_next {d : Deployment} (hdev : d.devAuthBypass = false) {start s s' : System}
    {es : List Event} {e : Event} (run : Execution (next d) start es s)
    (h : AllRooted d start es s) (hgenuine : ∀ q, e = .request q → Genuine d s q)
    (hnext : next d s e = some s') : AllRooted d start (es ++ [e]) s' := by
  cases e with
  | request q =>
    obtain ⟨⟨reply, v⟩, hserve, rfl⟩ := Option.map_eq_some_iff.mp hnext
    intro c hc
    rcases given_serve hdev hserve c hc with hold | hgrants
    · exact .later (h c hold)
    · cases hgrants with
      | login login => exact .login run login
      | switch sender route =>
        obtain ⟨-, c', hissued, hid, halive⟩ :=
          admitted_of_session hdev (hgenuine q rfl) sender
        exact .switch (h c' hissued) halive hid route
  | other q =>
    obtain ⟨⟨reply, v⟩, hserve, rfl⟩ := Option.map_eq_some_iff.mp hnext
    exact fun c hc => .later (h c hc)
  | alterUsers users =>
    obtain rfl := Option.some.inj hnext
    exact fun c hc => .later (h c hc)

theorem allRooted_run {d : Deployment} (hdev : d.devAuthBypass = false) {s u : System}
    {es : List Event} (run : Execution (next d) s es u) (start : KeyAuthority.NoSession s)
    (hgenuine : ∀ xs q ys w, es = xs ++ .request q :: ys → Execution (next d) s xs w →
      Genuine d w q) : AllRooted d s es u := by
  induction run with
  | refl => exact fun c hc => absurd hc (start c)
  | @tail es w e v hrun hstep ih =>
    have hrooted := ih fun xs q ys w' hes hw =>
      hgenuine xs q (ys ++ [e]) w' (by rw [hes, List.append_assoc, List.cons_append]) hw
    exact allRooted_next hdev hrun hrooted (fun q he => hgenuine es q [] w (by rw [he]) hrun) hstep

/-- Whoever is let in without an API key, in any run whose tokens are no forgeries, has an account
that is in use and may log in, acts with no more than its role, and holds a session that goes back
to a completed login of that account, through switches of mode each within the life of the session
before it. -/
theorem sessions_rooted (d : Deployment) (hdev : d.devAuthBypass = false) {s v : System}
    {es : List Event} (run : Execution (next d) s es v) (start : KeyAuthority.NoSession s)
    (hgenuine : ∀ xs q ys w, es = xs ++ .request q :: ys → Execution (next d) s xs w →
      Genuine d w q)
    (q : Incoming) (last : Genuine d v q) (hkey : apiKeyFromRequest q = []) {u : UserRow}
    {p : Principal} (h : withAuth d v q = .ok (u, p)) :
    Admitted d v u p ∧
      (∃ c, Rooted d s es c ∧ Int64.ofInt u.id = c.userId ∧ q.now ≤ c.exp) ∧
      LoggedIn d s es (Int64.ofInt u.id) := by
  obtain ⟨hadmitted, c, hissued, hid, halive⟩ := admitted_of_withAuth hdev last hkey h
  have hrooted := allRooted_run hdev run start hgenuine c hissued
  refine ⟨hadmitted, ⟨c, hrooted, hid, halive⟩, ?_⟩
  rw [hid]
  exact hrooted.root

/-! An administrator logs in and comes back. -/

def loggingIn : Incoming :=
  { KeyAuthority.asking (.microsoftCallback
      (some ⟨lit "A@example.com", lit "a@example.com", lit "A"⟩) (.ok 1)) with
    xAPIKey := [] }

def row : UserRow := ⟨1, none, lit "a@example.com", lit "A", .superadmin, true, true, []⟩

def sampleSession : Claims := sessionClaims loggingIn row (lit "admin")

/-- A request with the cookie, a day later. -/
def comingBack : Incoming :=
  { KeyAuthority.asking (.read .me) with
    xAPIKey := []
    session := some (SignJWT sampleMac sampleSession)
    now := 1767398400 }

def isSample : Issue → Bool
  | .jwt c => c = sampleSession
  | .linkAccess _ _ => false

theorem bare {s : System} {q : Incoming} (h : q.authorization = []) :
    Unforged KeyAuthority.sampleDeployment.mac {i | i ∈ s.granted} (bearerOf q) := by
  intro data tag htoken _
  have hlength := congrArg List.length htoken
  rw [List.length_append, List.length_append] at hlength
  simp [bearerOf, h, Hosts.trimPrefix] at hlength
  omega

theorem sessions_rooted_login : ∃ v, Execution (next KeyAuthority.sampleDeployment)
      KeyAuthority.sampleSystem [.request loggingIn] v ∧
    ∃ u p, withAuth KeyAuthority.sampleDeployment v comingBack = .ok (u, p) ∧
      Admitted KeyAuthority.sampleDeployment v u p ∧
      LoggedIn KeyAuthority.sampleDeployment KeyAuthority.sampleSystem [.request loggingIn]
        (Int64.ofInt u.id) := by
  obtain ⟨v, hv, hfacts⟩ := Option.map_eq_some_iff.mp (show
    (next KeyAuthority.sampleDeployment KeyAuthority.sampleSystem (.request loggingIn)).map
      (fun v => (v.granted.any isSample, (userByID {} v.world.accounts 1).toOption)) =
        some (true, some row) by decide)
  obtain ⟨htoken, hrow⟩ := Prod.mk.inj hfacts
  obtain ⟨issue, hissue, hsample⟩ := List.any_eq_true.mp htoken
  have hissued : .jwt sampleSession ∈ v.granted := by
    cases issue with
    | jwt c =>
      obtain rfl : c = sampleSession := by simpa [isSample] using hsample
      exact hissue
    | linkAccess linkId expires => cases hsample
  have hfound : userByID {} v.world.accounts 1 = .ok row := by
    cases hread : userByID {} v.world.accounts 1 with
    | error e =>
      rw [hread] at hrow
      cases hrow
    | ok u =>
      rw [hread] at hrow
      exact congrArg Except.ok (Option.some.inj hrow)
  have hparse : ParseJWT sampleMac comingBack.now (SignJWT sampleMac sampleSession) =
      some sampleSession := by
    rw [ParseJWT_SignJWT sampleMac ⟨by decide, by decide⟩, if_neg (by decide)]
  have hauth : ∃ p, withAuth KeyAuthority.sampleDeployment v comingBack = .ok (row, p) := by
    have hclaims : comingBack.session.bind
        (ParseJWT KeyAuthority.sampleDeployment.mac comingBack.now) = some sampleSession := hparse
    have hid : userByID comingBack.sender v.world.accounts sampleSession.userId.toInt = .ok row :=
      hfound
    have hsession : ∃ p, userFromSession KeyAuthority.sampleDeployment v comingBack =
        some (row, p) := by
      unfold userFromSession
      rw [hclaims]
      dsimp only
      rw [hid]
      dsimp only
      rw [if_neg (by decide), if_neg (by decide)]
      exact ⟨_, rfl⟩
    obtain ⟨p, hsession⟩ := hsession
    refine ⟨p, ?_⟩
    rw [withAuth, if_neg (by decide), hsession]
  obtain ⟨p, hauth⟩ := hauth
  have hrun := Execution.single hv
  have hgenuine : Genuine KeyAuthority.sampleDeployment v comingBack := by
    constructor
    · intro token h
      obtain rfl := Option.some.inj h
      exact unforged_of_issued (i := .jwt sampleSession) hissued
    · exact bare rfl
  obtain ⟨hadmitted, -, hlogin⟩ := sessions_rooted KeyAuthority.sampleDeployment rfl hrun
    (fun c hc => absurd hc List.not_mem_nil) (fun xs q ys w hes _ => by
      cases xs with
      | nil =>
        cases hes
        exact ⟨(fun token h => by cases h), bare rfl⟩
      | cons x xs =>
        have hlength := congrArg List.length hes
        simp at hlength)
    comingBack hgenuine (by decide) hauth
  exact ⟨v, hrun, row, p, hauth, hadmitted, hlogin⟩

end SessionRoots
