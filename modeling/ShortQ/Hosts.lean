import Mathlib.Data.List.DropRight
import ShortQ.GoUrl

/-! # Host names

How the redirect handler, the cache and the domain table spell the host of a request. -/
namespace Hosts

open GoText

/-- The tables of package unicode beyond ASCII: the lower case of a rune, in UTF-8. -/
structure Unicode where
  lower : ℕ → Str

/-- `strings.ToLower`. -/
def Unicode.toLower (unicode : Unicode) (s : Str) : Str :=
  (runes s).flatMap fun r =>
    match r.value with
    | none => [0xEF, 0xBF, 0xBD]
    | some v => if v < 0x80 then r.bytes.map lowerByte else unicode.lower v

/-- `strings.Trim` of one byte. -/
def trim (c : UInt8) (s : Str) : Str := (s.dropWhile (· = c)).rdropWhile (· = c)

/-- `net.SplitHostPort`. -/
def splitHostPort (hostport : Str) : Option (Str × Str) :=
  match hostport with
  | 91 :: rest =>
    match cut 93 rest with
    | (host, some (58 :: port)) =>
      if port.contains 58 || host.contains 91 || port.contains 91 || port.contains 93 then none
      else some (host, port)
    | _ => none
  | _ =>
    match cut 58 hostport with
    | (host, some port) =>
      if port.contains 58 || hostport.contains 91 || hostport.contains 93 then none
      else some (host, port)
    | _ => none

/-- `strconv.Atoi` yields no error. -/
def atoiOk (s : Str) : Bool :=
  match s with
  | 45 :: digits => (decimal digits).any (· ≤ 2 ^ 63)
  | 43 :: digits => (decimal digits).any (· < 2 ^ 63)
  | digits => (decimal digits).any (· < 2 ^ 63)

def NormalizeHostname (unicode : Unicode) (hostname : Str) : Str :=
  let hostname := trimSpace (unicode.toLower hostname)
  let hostname :=
    match splitHostPort hostname with
    | some (host, _) => host
    | none =>
      if hostname.count 58 = 1 then
        match cut 58 hostname with
        | (host, some port) => if atoiOk port then host else hostname
        | _ => hostname
      else hostname
  trim 46 hostname

def Key (unicode : Unicode) (hostname slug : Str) : Str :=
  lit "shortq:redirect:v1:" ++ NormalizeHostname unicode hostname ++ [58] ++ slug

def trimPrefix (start s : Str) : Str := if start.isPrefixOf s then s.drop start.length else s

def cleanDomain (unicode : Unicode) (domain : Str) : Str :=
  let domain := unicode.toLower (trimSpace domain)
  let domain := trimPrefix (lit "https://") (trimPrefix (lit "http://") domain)
  trim 46 (cut 47 domain).1

/-- `domainRe`. -/
def domainRe (domain : Str) : Bool :=
  match cutLast 46 domain with
  | some (before, after) =>
    before ≠ [] && before.all (fun c => isLetter c || isDigit c || c = 46 || c = 45) &&
      2 ≤ after.length && after.all isLetter
  | none => false

/-- `URL.Hostname`. -/
def hostnameOf (u : GoUrl.URL) : Str :=
  let host :=
    match cutLast 58 u.host with
    | some (before, port) => if GoUrl.validOptionalPort (58 :: port) then before else u.host
    | none => u.host
  match host with
  | 91 :: rest => if rest.getLast? = some 93 then rest.dropLast else host
  | _ => host

def baseHost (unicode : Unicode) (baseUrl : Str) : Str :=
  match GoUrl.Parse baseUrl with
  | none => []
  | some u =>
    let host := hostnameOf u
    let host := if host = [] then trimPrefix (lit "http://") (trimPrefix (lit "https://") baseUrl)
      else host
    trim 46 (unicode.toLower host)

def isReservedRootPath (path : Str) : Bool :=
  let clean := trim 47 path
  clean = [] || clean.contains 47 ||
    [lit "app.js", lit "style.css", lit "docs.html", lit "favicon.ico", lit "robots.txt"].contains
      clean || clean.contains 46

/-- The slugs `redirectSlug` looks at. -/
def acceptedSlug (slug : Str) : Bool :=
  slug ≠ [] && !slug.contains 47 && !isReservedRootPath (47 :: slug)

/-- The host of a request as `redirectSlug` reads it. -/
def requestHost (unicode : Unicode) (rHost : Str) : Str :=
  let host := trim 46 (unicode.toLower rHost)
  match splitHostPort host with
  | some (parsed, _) => parsed
  | none => host

/-- What the handlers know of the host the program runs under. -/
structure Server where
  unicode : Unicode
  baseUrl : Str

def Server.base (server : Server) : Str := baseHost server.unicode server.baseUrl

def ascii : Unicode := ⟨fun _ => []⟩

example : requestHost ascii (lit "Go.Example.com.:8080") = lit "go.example.com." := by decide

example : NormalizeHostname ascii (lit "go.example.com.") = lit "go.example.com" := by decide

example : requestHost ascii (lit ":80") = [] := by decide

end Hosts
