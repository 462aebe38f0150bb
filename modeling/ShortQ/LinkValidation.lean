import ShortQ.GoUrl
import ShortQ.Models

/-! # What the store accepts as a link

The checks of package store that need no database. A failed check returns its text. -/
namespace LinkValidation

open GoText
open Models

def slugByte (c : UInt8) : Bool := isLetter c || isDigit c || c = 95 || c = 45

/-- `slugRe`. -/
def slugRe (slug : Str) : Bool := 3 ≤ slug.length && slug.length ≤ 80 && slug.all slugByte

def isoCountryCodes : List Str := fields (lit
  ("AD AE AF AG AI AL AM AO AQ AR AS AT AU AW AX AZ BA BB BD BE BF BG BH BI BJ BL BM BN BO BQ " ++
   "BR BS BT BV BW BY BZ CA CC CD CF CG CH CI CK CL CM CN CO CR CU CV CW CX CY CZ DE DJ DK DM " ++
   "DO DZ EC EE EG EH ER ES ET FI FJ FK FM FO FR GA GB GD GE GF GG GH GI GL GM GN GP GQ GR GS " ++
   "GT GU GW GY HK HM HN HR HT HU ID IE IL IM IN IO IQ IR IS IT JE JM JO JP KE KG KH KI KM KN " ++
   "KP KR KW KY KZ LA LB LC LI LK LR LS LT LU LV LY MA MC MD ME MF MG MH MK ML MM MN MO MP MQ " ++
   "MR MS MT MU MV MW MX MY MZ NA NC NE NF NG NI NL NO NP NR NU NZ OM PA PE PF PG PH PK PL PM " ++
   "PN PR PS PT PW PY QA RE RO RS RU RW SA SB SC SD SE SG SH SI SJ SK SL SM SN SO SR SS ST SV " ++
   "SX SY SZ TC TD TF TG TH TJ TK TL TM TN TO TR TT TV TW TZ UA UG UM US UY UZ VA VC VE VG VI " ++
   "VN VU WF WS YE YT ZA ZM ZW"))

def validHTTPURL (raw : Str) : Option Str :=
  match GoUrl.ParseRequestURI (trimSpace raw) with
  | some u =>
    if u.host = [] || (u.scheme ≠ lit "http" && u.scheme ≠ lit "https") then
      some (lit "must be an absolute http or https URL")
    else none
  | none => some (lit "must be an absolute http or https URL")

/-- The tags that are kept, without repetition, in byte order. -/
def normalizeTags (tags : List Str) : List Str :=
  let kept := tags.foldl (fun out tag =>
    let tag := trimSpace tag
    if tag = [] || tag.length > 40 || out.contains tag then out else out ++ [tag]) []
  kept.mergeSort fun a b => decide (a ≤ b)

def permanent (code : ℤ) : Bool := code = 301 || code = 308

def dynamic (link : Link) : Bool :=
  link.expiresAt.isSome || link.maxClicks.isSome || link.iosUrl ≠ [] || link.androidUrl ≠ [] ||
    link.passwordProtected || !link.geoTargets.isEmpty || link.forwardQuery

/-- The three optional URLs. Go visits this map in any order, so of several bad values any
one may be reported. -/
def optionalUrls (link : Link) : List (Str × Str) :=
  [(lit "expired_url", link.expiredUrl), (lit "ios_url", link.iosUrl),
    (lit "android_url", link.androidUrl)]

def checkOptional : List (Str × Str) → Option Str
  | [] => none
  | (name, value) :: rest =>
    if value = [] then checkOptional rest
    else
      match validHTTPURL value with
      | some text => some (name ++ lit ": " ++ text)
      | none => checkOptional rest

def country (target : GeoTarget) : Str := toUpper (trimSpace target.countryCode)

def checkGeo (seen : List Str) : List GeoTarget → Option Str
  | [] => none
  | target :: rest =>
    if !isoCountryCodes.contains (country target) || seen.contains (country target) then
      some (lit "geo target countries must be unique ISO-3166 alpha-2 codes")
    else
      match validHTTPURL target.targetUrl with
      | some text => some (lit "geo target " ++ country target ++ lit ": " ++ text)
      | none => checkGeo (country target :: seen) rest

def validateLink (link : Link) : Option Str :=
  if link.visibility ≠ [] && link.visibility ≠ lit "private" &&
      link.visibility ≠ lit "department" then
    some (lit "visibility must be private or department")
  else
    match validHTTPURL link.targetUrl with
    | some text => some (lit "target_url: " ++ text)
    | none =>
      match checkOptional (optionalUrls link) with
      | some text => some text
      | none =>
        if link.redirectCode ≠ 301 && link.redirectCode ≠ 302 && link.redirectCode ≠ 307 &&
            link.redirectCode ≠ 308 then
          some (lit "redirect_code must be 301, 302, 307 or 308")
        else if dynamic link && permanent link.redirectCode then
          some (lit "permanent redirect codes are not allowed with dynamic routing")
        else if link.maxClicks.any (· < 1) then some (lit "max_clicks must be positive")
        else
          match checkGeo [] link.geoTargets with
          | some text => some text
          | none =>
            if (normalizeTags link.tags).length > 20 then
              some (lit "a link may have at most 20 tags")
            else none

/-- The checks of a row of an import. -/
def ValidateLink (link : Link) : Option Str :=
  if link.slug ≠ [] && !slugRe link.slug then
    some (lit "slug must be 3-80 letters, numbers, _ or -")
  else
    validateLink
      { link with redirectCode := if link.redirectCode = 0 then 302 else link.redirectCode }

end LinkValidation
