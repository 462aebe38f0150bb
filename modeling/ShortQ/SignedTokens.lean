import ShortQ.Base64
import ShortQ.GoTime
import ShortQ.JsonText

/-! # Signed tokens

The session tokens and the tokens for password protected links. Both are signed with one key. -/
namespace SignedTokens

open GoText (Str lit validUtf8)
open GoTime (Time)
open JsonValues

/-- `Time.Unix`. -/
def Unix (t : Time) : Int64 := Int64.ofInt (t.nanos / GoTime.second)

structure LinkAccessClaims where
  linkId : Int64 := 0
  exp : Int64 := 0
  deriving DecidableEq

structure Claims where
  userId : Int64 := 0
  email : Str := []
  mode : Str := []
  exp : Int64 := 0
  deriving DecidableEq

def int64Json (v : Int64) : Json := .number (some v.toInt)

def int64Value (current : Int64) (v : Json) : Option Int64 :=
  (intValue current.toInt v).map Int64.ofInt

def LinkAccessClaims.json (c : LinkAccessClaims) : Json :=
  .object [(lit "lid", int64Json c.linkId), (lit "exp", int64Json c.exp)]

/-- An empty mode is left out. -/
def Claims.json (c : Claims) : Json :=
  .object ([(lit "uid", int64Json c.userId), (lit "email", .string c.email false)] ++
    (if c.mode.isEmpty then [] else [(lit "mode", .string c.mode false)]) ++
    [(lit "exp", int64Json c.exp)])

inductive LinkAccessField where
  | lid | exp
  deriving DecidableEq

inductive ClaimsField where
  | uid | email | mode | exp
  deriving DecidableEq

def LinkAccessField.name : LinkAccessField → Str
  | .lid => lit "lid"
  | .exp => lit "exp"

def ClaimsField.name : ClaimsField → Str
  | .uid => lit "uid"
  | .email => lit "email"
  | .mode => lit "mode"
  | .exp => lit "exp"

def LinkAccessClaims.assign (c : LinkAccessClaims) (f : LinkAccessField) (v : Json) :
    Option LinkAccessClaims :=
  match f with
  | .lid => (int64Value c.linkId v).map fun x => { c with linkId := x }
  | .exp => (int64Value c.exp v).map fun x => { c with exp := x }

def Claims.assign (c : Claims) (f : ClaimsField) (v : Json) : Option Claims :=
  match f with
  | .uid => (int64Value c.userId v).map fun x => { c with userId := x }
  | .email => (stringValue c.email v).map fun x => { c with email := x }
  | .mode => (stringValue c.mode v).map fun x => { c with mode := x }
  | .exp => (int64Value c.exp v).map fun x => { c with exp := x }

def linkAccessOf (body : Str) : Option LinkAccessClaims :=
  (JsonText.scan body).bind
    (storeObject (fieldNamed [.lid, .exp] LinkAccessField.name) LinkAccessClaims.assign {})

def claimsOf (body : Str) : Option Claims :=
  (JsonText.scan body).bind
    (storeObject (fieldNamed [.uid, .email, .mode, .exp] ClaimsField.name) Claims.assign {})

/-! ## Signing and checking

`mac` is HMAC-SHA256 under the secret. -/

section

variable (mac : Str → Str)

def sign (data : Str) : Str := Base64.encode (mac data)

/-- What `SignLinkAccess` passes to `sign`. -/
def linkAccessBody (linkId : Int64) (expires : Time) : Str :=
  Base64.encode (JsonText.render (LinkAccessClaims.json ⟨linkId, Unix expires⟩))

def SignLinkAccess (linkId : Int64) (expires : Time) : Str :=
  linkAccessBody linkId expires ++ [46] ++ sign mac (linkAccessBody linkId expires)

def CheckLinkAccess (now : Int64) (token : Str) (linkId : Int64) : Bool :=
  match token.splitOn 46 with
  | [body, tag] =>
    sign mac body = tag &&
      (match (Base64.decode body).bind linkAccessOf with
      | some c => c.linkId = linkId && decide (now ≤ c.exp)
      | none => false)
  | _ => false

/-- What `SignJWT` passes to `sign`. -/
def jwtText (c : Claims) : Str :=
  Base64.encode (lit "\x7b\"alg\":\"HS256\",\"typ\":\"JWT\"\x7d") ++ [46] ++
    Base64.encode (JsonText.render c.json)

def SignJWT (c : Claims) : Str := jwtText c ++ [46] ++ sign mac (jwtText c)

def ParseJWT (now : Int64) (token : Str) : Option Claims :=
  match token.splitOn 46 with
  | [head, body, tag] =>
    if sign mac (head ++ [46] ++ body) = tag then
      ((Base64.decode body).bind claimsOf).bind fun c => if now > c.exp then none else some c
    else none
  | _ => none

end

/-! ## Claims survive their text -/

theorem int64Value_json (current v : Int64) : int64Value current (int64Json v) = some v := by
  have hlow := v.le_toInt
  have hhigh := v.toInt_lt
  rw [int64Value, int64Json, intValue, if_pos (by unfold int64Max; omega), Option.map_some,
    Int64.ofInt_toInt]

/-- What is stored of a written object. -/
theorem storeObject_render {α β : Type} {fieldOf : Str → Option β}
    {assign : α → β → Json → Option α} {current : α} {members : List (Str × Json)}
    (h : JsonText.depth (.object members) ≤ JsonText.maxNestingDepth) :
    (JsonText.scan (JsonText.render (.object members))).bind (storeObject fieldOf assign current) =
      (JsonText.marshalledMembers members).foldlM (fun c m =>
        match fieldOf m.1 with
        | none => some c
        | some f => assign c f m.2) current := by
  rw [JsonText.scan_render _ h]
  rfl

theorem linkAccessOf_json (c : LinkAccessClaims) :
    linkAccessOf (JsonText.render c.json) = some c := by
  have hlid : fieldNamed [.lid, .exp] LinkAccessField.name (GoText.toValid (lit "lid")) =
      some .lid := by decide
  have hexp : fieldNamed [.lid, .exp] LinkAccessField.name (GoText.toValid (lit "exp")) =
      some .exp := by decide
  have hnumber (v : Int64) : JsonText.marshalled (int64Json v) = int64Json v := rfl
  have hdepth : JsonText.depth c.json ≤ JsonText.maxNestingDepth := by
    simp [LinkAccessClaims.json, int64Json, JsonText.depth, JsonText.depthMembers,
      JsonText.maxNestingDepth]
  refine (storeObject_render hdepth).trans ?_
  simp only [JsonText.marshalledMembers, List.foldlM_cons, List.foldlM_nil, hlid, hexp, hnumber,
    LinkAccessClaims.assign, int64Value_json, Option.map_some, Option.bind_eq_bind,
    Option.bind_some, Option.pure_def]

structure Claims.Valid (c : Claims) : Prop where
  email : validUtf8 c.email = true
  mode : validUtf8 c.mode = true

theorem claimsOf_json {c : Claims} (h : c.Valid) : claimsOf (JsonText.render c.json) = some c := by
  have huid : fieldNamed [.uid, .email, .mode, .exp] ClaimsField.name (GoText.toValid (lit "uid")) =
      some .uid := by decide
  have hemail : fieldNamed [.uid, .email, .mode, .exp] ClaimsField.name
      (GoText.toValid (lit "email")) = some .email := by decide
  have hmode : fieldNamed [.uid, .email, .mode, .exp] ClaimsField.name
      (GoText.toValid (lit "mode")) = some .mode := by decide
  have hexp : fieldNamed [.uid, .email, .mode, .exp] ClaimsField.name (GoText.toValid (lit "exp")) =
      some .exp := by decide
  have hnumber (v : Int64) : JsonText.marshalled (int64Json v) = int64Json v := rfl
  have htext {t : Str} (ht : validUtf8 t = true) :
      JsonText.marshalled (.string t false) = .string t (escapes t) := by
    rw [JsonText.marshalled, jsonString, Runes.toValid_of_valid ht]
  have hdepth : JsonText.depth c.json ≤ JsonText.maxNestingDepth := by
    unfold Claims.json
    split <;> simp [int64Json, JsonText.depth, JsonText.depthMembers, JsonText.maxNestingDepth]
  refine (storeObject_render hdepth).trans ?_
  by_cases hnone : c.mode.isEmpty = true
  · have hempty : c.mode = [] := List.isEmpty_iff.mp hnone
    rw [if_pos hnone]
    simp only [List.append_nil, List.cons_append, List.nil_append, JsonText.marshalledMembers,
      List.foldlM_cons, List.foldlM_nil, huid, hemail, hexp, hnumber, htext h.email, Claims.assign,
      int64Value_json, stringValue, Option.map_some, Option.bind_eq_bind, Option.bind_some,
      Option.pure_def, ← hempty]
  · rw [if_neg hnone]
    simp only [List.cons_append, List.nil_append, JsonText.marshalledMembers,
      List.foldlM_cons, List.foldlM_nil, huid, hemail, hmode, hexp, hnumber, htext h.email,
      htext h.mode, Claims.assign, int64Value_json, stringValue, Option.map_some,
      Option.bind_eq_bind, Option.bind_some, Option.pure_def]

/-! ## What is accepted was issued -/

theorem dot_notMem_sign (mac : Str → Str) (data : Str) : 46 ∉ sign mac data :=
  Base64.dot_notMem_encode _

theorem dot_notMem_linkAccessBody (linkId : Int64) (expires : Time) :
    46 ∉ linkAccessBody linkId expires := Base64.dot_notMem_encode _

/-- The parts of a link token. -/
theorem splitOn_SignLinkAccess (mac : Str → Str) (linkId : Int64) (expires : Time) :
    (SignLinkAccess mac linkId expires).splitOn 46 =
      [linkAccessBody linkId expires, sign mac (linkAccessBody linkId expires)] := by
  rw [SignLinkAccess, List.append_assoc, List.singleton_append,
    List.splitOn_append_cons_self_of_not_mem (dot_notMem_linkAccessBody linkId expires),
    List.splitOn_eq_singleton (dot_notMem_sign mac _)]

/-- The parts of a session token. -/
theorem splitOn_SignJWT (mac : Str → Str) (c : Claims) :
    ∃ head body, jwtText c = head ++ [46] ++ body ∧ body = Base64.encode (JsonText.render c.json) ∧
      (SignJWT mac c).splitOn 46 = [head, body, sign mac (jwtText c)] := by
  refine ⟨_, _, rfl, rfl, ?_⟩
  rw [SignJWT, jwtText, List.append_assoc, List.append_assoc, List.append_assoc,
    List.singleton_append, List.singleton_append,
    List.splitOn_append_cons_self_of_not_mem (Base64.dot_notMem_encode _),
    List.splitOn_append_cons_self_of_not_mem (Base64.dot_notMem_encode _),
    List.splitOn_eq_singleton (dot_notMem_sign mac _)]

theorem ParseJWT_SignJWT (mac : Str → Str) {c : Claims} (h : c.Valid) (now : Int64) :
    ParseJWT mac now (SignJWT mac c) = if now > c.exp then none else some c := by
  obtain ⟨head, body, htext, hbody, hsplit⟩ := splitOn_SignJWT mac c
  rw [ParseJWT, hsplit]
  dsimp only
  rw [← htext, if_pos rfl, hbody, Base64.decode_encode, Option.bind_some, claimsOf_json h,
    Option.bind_some]

theorem CheckLinkAccess_SignLinkAccess (mac : Str → Str) (linkId id : Int64) (expires : Time)
    (now : Int64) : CheckLinkAccess mac now (SignLinkAccess mac linkId expires) id =
      (decide (linkId = id) && decide (now ≤ Unix expires)) := by
  rw [CheckLinkAccess, splitOn_SignLinkAccess]
  dsimp only
  rw [linkAccessBody, Base64.decode_encode, Option.bind_some, linkAccessOf_json]
  simp

/-- A session token and a link token have different numbers of parts. -/
theorem parts_of_ParseJWT {mac : Str → Str} {now : Int64} {token : Str} {c : Claims}
    (h : ParseJWT mac now token = some c) :
    ∃ head body tag, token.splitOn 46 = [head, body, tag] ∧
      sign mac (head ++ [46] ++ body) = tag := by
  unfold ParseJWT at h
  split at h
  · rename_i head body tag hsplit
    split at h
    · rename_i htag
      exact ⟨head, body, tag, hsplit, htag⟩
    · cases h
  · cases h

theorem parts_of_CheckLinkAccess {mac : Str → Str} {now : Int64} {token : Str} {id : Int64}
    (h : CheckLinkAccess mac now token id = true) :
    ∃ body tag, token.splitOn 46 = [body, tag] ∧ sign mac body = tag := by
  unfold CheckLinkAccess at h
  split at h
  · rename_i body tag hsplit
    rw [Bool.and_eq_true, decide_eq_true_eq] at h
    exact ⟨body, tag, hsplit, h.1⟩
  · cases h

/-- A token the program issued. -/
inductive Issue where
  | jwt (claims : Claims)
  | linkAccess (linkId : Int64) (expires : Time)

def Issue.token (mac : Str → Str) : Issue → Str
  | .jwt c => SignJWT mac c
  | .linkAccess linkId expires => SignLinkAccess mac linkId expires

/-- The string passed to `sign`. -/
def Issue.signed : Issue → Str
  | .jwt c => jwtText c
  | .linkAccess linkId expires => linkAccessBody linkId expires

/-- The MAC is ideal: the token ends in a valid tag of a text only where that text was signed. -/
def Unforged (mac : Str → Str) (issued : Set Issue) (token : Str) : Prop :=
  ∀ data tag, token = data ++ [46] ++ tag → tag = sign mac data → ∃ i ∈ issued, i.signed = data

theorem token_eq (mac : Str → Str) (i : Issue) :
    i.token mac = i.signed ++ [46] ++ sign mac i.signed := by
  cases i <;> rfl

/-- A token whose tag is valid is the one issued for the text before the tag. -/
theorem issued_of_tag {mac : Str → Str} {issued : Set Issue} {token data tag : Str}
    (h : Unforged mac issued token) (htoken : token = data ++ [46] ++ tag)
    (htag : sign mac data = tag) : ∃ i ∈ issued, i.signed = data ∧ token = i.token mac := by
  obtain ⟨i, hi, hsigned⟩ := h data tag htoken htag.symm
  refine ⟨i, hi, hsigned, ?_⟩
  rw [token_eq, hsigned, htag, htoken]

theorem issued_of_ParseJWT {mac : Str → Str} {issued : Set Issue} {token : Str} {now : Int64}
    {c : Claims} (h : Unforged mac issued token) (hparse : ParseJWT mac now token = some c) :
    ∃ c', .jwt c' ∈ issued ∧ token = SignJWT mac c' := by
  obtain ⟨head, body, tag, hsplit, htag⟩ := parts_of_ParseJWT hparse
  have htoken : token = head ++ [46] ++ body ++ [46] ++ tag := by
    have hjoin : [46].intercalate (token.splitOn 46) = token := List.intercalate_splitOn 46
    rw [← hjoin, hsplit]
    simp [List.intercalate]
  obtain ⟨i, hi, hsigned, heq⟩ := issued_of_tag h htoken htag
  cases i with
  | jwt c' => exact ⟨c', hi, heq⟩
  | linkAccess linkId expires =>
    -- A link token signs a text without dots.
    have hdot : 46 ∈ linkAccessBody linkId expires := by
      change linkAccessBody linkId expires = _ at hsigned
      rw [hsigned]
      simp
    exact absurd hdot (dot_notMem_linkAccessBody linkId expires)

theorem issued_of_CheckLinkAccess {mac : Str → Str} {issued : Set Issue} {token : Str}
    {now id : Int64} (h : Unforged mac issued token)
    (hcheck : CheckLinkAccess mac now token id = true) :
    ∃ linkId expires, .linkAccess linkId expires ∈ issued ∧
      token = SignLinkAccess mac linkId expires := by
  obtain ⟨body, tag, hsplit, htag⟩ := parts_of_CheckLinkAccess hcheck
  have htoken : token = body ++ [46] ++ tag := by
    have hjoin : [46].intercalate (token.splitOn 46) = token := List.intercalate_splitOn 46
    rw [← hjoin, hsplit]
    simp [List.intercalate]
  obtain ⟨i, hi, hsigned, heq⟩ := issued_of_tag h htoken htag
  cases i with
  | jwt c =>
    -- A session token has three parts.
    obtain ⟨head, text, -, -, hparts⟩ := splitOn_SignJWT mac c
    change token = SignJWT mac c at heq
    rw [heq, hparts] at hsplit
    cases hsplit
  | linkAccess linkId expires => exact ⟨linkId, expires, hi, heq⟩

theorem ParseJWT_SignLinkAccess (mac : Str → Str) (now linkId : Int64) (expires : Time) :
    ParseJWT mac now (SignLinkAccess mac linkId expires) = none := by
  rw [ParseJWT, splitOn_SignLinkAccess]

theorem CheckLinkAccess_SignJWT (mac : Str → Str) (now id : Int64) (c : Claims) :
    CheckLinkAccess mac now (SignJWT mac c) id = false := by
  obtain ⟨head, body, -, -, hsplit⟩ := splitOn_SignJWT mac c
  rw [CheckLinkAccess, hsplit]

/-- Whatever is accepted was issued for this very use and has not expired, no token serves both
uses, and every token that was issued is accepted until it expires. -/
theorem signed_tokens_sound (mac : Str → Str) (issued : Set Issue)
    (valid : ∀ c, .jwt c ∈ issued → c.Valid) (token : Str) (unforged : Unforged mac issued token)
    (now : Int64) :
    (∀ c, ParseJWT mac now token = some c →
      .jwt c ∈ issued ∧ token = SignJWT mac c ∧ now ≤ c.exp) ∧
    (∀ id, CheckLinkAccess mac now token id = true → ∃ expires, .linkAccess id expires ∈ issued ∧
      token = SignLinkAccess mac id expires ∧ now ≤ Unix expires) ∧
    (∀ id expires, ParseJWT mac now (SignLinkAccess mac id expires) = none) ∧
    (∀ c id, CheckLinkAccess mac now (SignJWT mac c) id = false) ∧
    (∀ c, .jwt c ∈ issued → now ≤ c.exp → ParseJWT mac now (SignJWT mac c) = some c) ∧
    (∀ id expires, .linkAccess id expires ∈ issued → now ≤ Unix expires →
      CheckLinkAccess mac now (SignLinkAccess mac id expires) id = true) := by
  refine ⟨?_, ?_, fun id expires => ParseJWT_SignLinkAccess mac now id expires,
    fun c id => CheckLinkAccess_SignJWT mac now id c, ?_, ?_⟩
  · intro c hparse
    obtain ⟨c', hissued, rfl⟩ := issued_of_ParseJWT unforged hparse
    rw [ParseJWT_SignJWT mac (valid c' hissued)] at hparse
    split at hparse
    · cases hparse
    · rename_i hexp
      cases hparse
      exact ⟨hissued, rfl, Int64.not_lt.mp hexp⟩
  · intro id hcheck
    obtain ⟨linkId, expires, hissued, rfl⟩ := issued_of_CheckLinkAccess unforged hcheck
    rw [CheckLinkAccess_SignLinkAccess, Bool.and_eq_true, decide_eq_true_eq, decide_eq_true_eq]
      at hcheck
    obtain ⟨rfl, hexp⟩ := hcheck
    exact ⟨expires, hissued, rfl, hexp⟩
  · intro c hissued hexp
    rw [ParseJWT_SignJWT mac (valid c hissued), if_neg (Int64.not_lt.mpr hexp)]
  · intro id expires _ hexp
    rw [CheckLinkAccess_SignLinkAccess]
    simp [hexp]

/-- A token that was issued is no forgery. -/
theorem unforged_of_issued {mac : Str → Str} {issued : Set Issue} {i : Issue} (hi : i ∈ issued) :
    Unforged mac issued (i.token mac) := by
  intro data tag htoken htag
  have hleft := Runes.cutLast_append (dot_notMem_sign mac i.signed) i.signed
  have hright := Runes.cutLast_append (dot_notMem_sign mac data) data
  rw [← List.singleton_append, ← List.append_assoc, ← token_eq, htoken, htag, List.append_assoc,
    List.singleton_append, hright] at hleft
  obtain ⟨hdata, -⟩ := Prod.mk.inj (Option.some.inj hleft)
  exact ⟨i, hi, hdata.symm⟩

def sampleClaims : Claims :=
  { userId := 7, email := lit "ana@example.com", mode := lit "user", exp := 1767312000 }

def sampleExpires : Time := ⟨1767312000 * GoTime.second⟩

/-- HMAC-SHA256 under `dev-secret`, where the two sample tokens ask for it. -/
def sampleMac (data : Str) : Str :=
  if data = jwtText sampleClaims then
    [42, 34, 212, 231, 194, 179, 242, 215, 100, 51, 76, 40, 239, 88, 216, 9, 103, 217,
      199, 127, 0, 106, 218, 73, 213, 137, 116, 168, 17, 187, 37, 186]
  else if data = linkAccessBody 7 sampleExpires then
    [40, 246, 84, 229, 46, 171, 202, 206, 199, 246, 192, 192, 16, 154, 129, 144, 214, 70,
      44, 1, 1, 225, 21, 195, 181, 10, 93, 248, 205, 131, 94, 240]
  else []

theorem signed_tokens_sound_sample :
    ParseJWT sampleMac 1767312000 (SignJWT sampleMac sampleClaims) = some sampleClaims ∧
      CheckLinkAccess sampleMac 1767312000 (SignLinkAccess sampleMac 7 sampleExpires) 7 = true ∧
      CheckLinkAccess sampleMac 1767312000 (SignJWT sampleMac sampleClaims) 7 = false := by
  have hjwt : Issue.jwt sampleClaims ∈
      ({.jwt sampleClaims, .linkAccess 7 sampleExpires} : Set Issue) :=
    Or.inl rfl
  obtain ⟨-, -, -, hcross, hparse, hcheck⟩ := signed_tokens_sound sampleMac
    {.jwt sampleClaims, .linkAccess 7 sampleExpires}
    (by
      intro c hc
      rcases hc with hc | hc
      · cases hc
        exact ⟨by decide, by decide⟩
      · cases hc)
    (SignJWT sampleMac sampleClaims) (unforged_of_issued hjwt) 1767312000
  exact ⟨hparse sampleClaims hjwt (by decide), hcheck 7 sampleExpires (Or.inr rfl) (by decide),
    hcross sampleClaims 7⟩

end SignedTokens
