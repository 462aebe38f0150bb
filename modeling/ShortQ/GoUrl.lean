import ShortQ.GoText

/-! # Go URLs

`net/url` of the toolchain that builds the image: `Parse`, `ParseRequestURI` and
`URL.String`. No caller reads the text of a parse error, so a failed parse is none. -/
namespace GoUrl

open GoText

/-- The `encoding` argument of the escaping functions. -/
inductive Mode where
  | path | host | zone | userPassword | queryComponent | fragment
  deriving DecidableEq, Repr

structure URL where
  scheme : Str := []
  opaquePart : Str := []
  user : Option (Str × Option Str) := none
  host : Str := []
  path : Str := []
  rawPath : Str := []
  omitHost : Bool := false
  forceQuery : Bool := false
  rawQuery : Str := []
  fragment : Str := []
  rawFragment : Str := []
  deriving DecidableEq, Repr

def isAlnum (c : UInt8) : Bool := isLetter c || isDigit c

def shouldEscape (c : UInt8) (mode : Mode) : Bool :=
  if isAlnum c then false
  else if (mode = .host || mode = .zone) && (lit "!$&'()*+,;=:[]<>\"").contains c then false
  else if (lit "-_.~").contains c then false
  else if (lit "$&+,/:;=?@").contains c then
    match mode with
    | .path => c = 63
    | .userPassword => (lit "@/?:").contains c
    | .queryComponent => true
    | .fragment => false
    | .host | .zone => true
  else if mode = .fragment && (lit "!()*").contains c then false
  else true

def hexPair (a b : UInt8) : UInt8 := unhex a * 16 + unhex b

/-- `unescape`: none where an escape is malformed or the mode forbids a byte. -/
def unescape (mode : Mode) : Str → Option Str
  | 37 :: a :: b :: rest =>
    if !(isHex a && isHex b) then none
    else if mode = .host && unhex a < 8 && (a, b) ≠ (50, 53) then none
    else if mode = .zone && (a, b) ≠ (50, 53) && hexPair a b ≠ 32 &&
        shouldEscape (hexPair a b) .host then none
    else (unescape mode rest).map (hexPair a b :: ·)
  | c :: rest =>
    if c = 37 then none
    else if (mode = .host || mode = .zone) && c < 128 && shouldEscape c mode then none
    else
      (unescape mode rest).map ((if c = 43 && mode = .queryComponent then 32 else c) :: ·)
  | [] => some []

def upperHex (n : UInt8) : UInt8 := if n < 10 then n + 48 else n + 55

def escapeByte (mode : Mode) (c : UInt8) : Str :=
  if c = 32 && mode = .queryComponent then [43]
  else if shouldEscape c mode then [37, upperHex (c / 16), upperHex (c % 16)]
  else [c]

def escape (mode : Mode) (s : Str) : Str := s.flatMap (escapeByte mode)

def validEncoded (mode : Mode) (s : Str) : Bool :=
  s.all fun c => (lit "!$&'()*+,;=:@[]%").contains c || !shouldEscape c mode

/-- The scheme, if there is one, and the rest; none when the colon comes first. -/
def getScheme (raw : Str) : Option (Str × Str) :=
  let name := raw.takeWhile fun c => isAlnum c || (lit "+-.").contains c
  match raw.drop name.length with
  | 58 :: rest =>
    match name with
    | [] => none
    | c :: _ => if isLetter c then some (name, rest) else some ([], raw)
  | _ => some ([], raw)

def validUserinfo (s : Str) : Bool :=
  s.all fun c => isAlnum c || (lit "-._:~!$&'()*+,;=%@").contains c

def validOptionalPort : Str → Bool
  | [] => true
  | c :: digits => c = 58 && digits.all isDigit

/-- `parseIPv4Fields`: four decimal octets without leading zeros. -/
def validIPv4 (s : Str) : Bool :=
  let fields := (s.splitOn 46)
  fields.length = 4 && fields.all fun f =>
    (decimal f).any (· ≤ 255) && (f.length = 1 || f.head? ≠ some 48)

/-- The loop of `parseIPv6`: `i` bytes are filled and `ellipsis` says where `::` stood. -/
def ipv6Groups : ℕ → ℕ → Option ℕ → Str → Bool
  | 0, _, _, _ => false
  | fuel + 1, i, ellipsis, s =>
    let digits := s.takeWhile isHex
    if digits.isEmpty || digits.length > 4 then false
    else
      match s.drop digits.length with
      | 46 :: _ =>
        (ellipsis.isSome || i = 12) && i ≤ 12 && validIPv4 s && closed (i + 4) ellipsis
      | [] => closed (i + 2) ellipsis
      | 58 :: 58 :: rest =>
        if ellipsis.isSome then false
        else if rest.isEmpty then closed (i + 2) (some (i + 2))
        else if i + 2 < 16 then ipv6Groups fuel (i + 2) (some (i + 2)) rest
        else false
      | 58 :: c :: rest => i + 2 < 16 && ipv6Groups fuel (i + 2) ellipsis (c :: rest)
      | _ => false
where
  /-- All sixteen bytes are given, or an ellipsis stands for at least one group. -/
  closed (i : ℕ) (ellipsis : Option ℕ) : Bool :=
    if i < 16 then ellipsis.isSome else ellipsis.isNone

/-- `netip.ParseAddr` accepts the text as an IPv6 address, perhaps with a zone. -/
def validIPv6 (s : Str) : Bool :=
  let (addr, zone) := cut 37 s
  addr.contains 58 && zone ≠ some [] &&
    match addr with
    | [58, 58] => true
    | 58 :: 58 :: rest => ipv6Groups 8 0 (some 0) rest
    | _ => ipv6Groups 8 0 none addr

/-- The part of a bracketed host from `%25` on is its zone. -/
def splitZone : Str → Str × Str
  | 37 :: 50 :: 53 :: rest => ([], 37 :: 50 :: 53 :: rest)
  | c :: rest => (c :: (splitZone rest).1, (splitZone rest).2)
  | [] => ([], [])

def parseHost (host : Str) : Option Str :=
  match cutLast 91 host with
  | some ([], inner) => do
    let (literal, port) ← cutLast 93 inner
    if !validOptionalPort port then none
    else
      let (name, zone) := splitZone literal
      let name ← unescape .host name
      let zone ← unescape .zone zone
      if validIPv6 (name ++ zone) then some ([91] ++ name ++ zone ++ [93] ++ port) else none
  | some (_ :: _, _) => none
  | none =>
    match cutLast 58 host with
    | some (_, port) => if validOptionalPort (58 :: port) then unescape .host host else none
    | none => unescape .host host

def parseAuthority (authority : Str) : Option (Option (Str × Option Str) × Str) :=
  match cutLast 64 authority with
  | none => (parseHost authority).map (none, ·)
  | some (userinfo, host) => do
    let host ← parseHost host
    if !validUserinfo userinfo then none
    else
      match cut 58 userinfo with
      | (name, none) => do
        let name ← unescape .userPassword name
        some (some (name, none), host)
      | (name, some password) => do
        let name ← unescape .userPassword name
        let password ← unescape .userPassword password
        some (some (name, some password), host)

def setPath (u : URL) (p : Str) : Option URL :=
  (unescape .path p).map fun path =>
    { u with path := path, rawPath := if p = escape .path path then [] else p }

def splitQuery (rest : Str) : Str × Bool × Str :=
  if rest.getLast? = some 63 && rest.count 63 = 1 then (rest.dropLast, true, [])
  else
    match cut 63 rest with
    | (before, query) => (before, false, query.getD [])

def isControl (c : UInt8) : Bool := c < 32 || c = 127

/-- `parse`; `viaRequest` is set by `ParseRequestURI`. -/
def parse (raw : Str) (viaRequest : Bool) : Option URL := do
  if raw.any isControl || (raw.isEmpty && viaRequest) then none
  else if raw = [42] then some { path := [42] }
  else
    let (scheme, rest) ← getScheme raw
    let scheme := toLowerAscii scheme
    let (rest, forceQuery, rawQuery) := splitQuery rest
    let u : URL := { scheme := scheme, forceQuery := forceQuery, rawQuery := rawQuery }
    if rest.head? ≠ some 47 && !scheme.isEmpty then some { u with opaquePart := rest }
    else if rest.head? ≠ some 47 && (viaRequest || (cut 47 rest).1.contains 58) then none
    else if (!scheme.isEmpty || (!viaRequest && rest.take 3 ≠ [47, 47, 47])) &&
        rest.take 2 = [47, 47] then
      let authority := (rest.drop 2).takeWhile (· != 47)
      let (user, host) ← parseAuthority authority
      setPath { u with user := user, host := host } ((rest.drop 2).drop authority.length)
    else setPath { u with omitHost := !scheme.isEmpty } rest

def ParseRequestURI (raw : Str) : Option URL := parse raw true

def Parse (raw : Str) : Option URL := do
  let (before, frag) := cut 35 raw
  let u ← parse before false
  match frag with
  | none | some [] => some u
  | some frag =>
    (unescape .fragment frag).map fun f =>
      { u with fragment := f, rawFragment := if frag = escape .fragment f then [] else frag }

def URL.EscapedPath (u : URL) : Str :=
  if u.rawPath ≠ [] && validEncoded .path u.rawPath &&
      unescape .path u.rawPath = some u.path then u.rawPath
  else if u.path = [42] then [42]
  else escape .path u.path

def URL.EscapedFragment (u : URL) : Str :=
  if u.rawFragment ≠ [] && validEncoded .fragment u.rawFragment &&
      unescape .fragment u.rawFragment = some u.fragment then u.rawFragment
  else escape .fragment u.fragment

def userString : Str × Option Str → Str
  | ([], none) | ([], some []) => []
  | (name, none) => escape .userPassword name
  | (name, some password) => escape .userPassword name ++ [58] ++ escape .userPassword password

def URL.authority (u : URL) : Str :=
  if u.scheme.isEmpty && u.host.isEmpty && u.user.isNone then []
  else if u.omitHost && u.host.isEmpty && u.user.isNone then []
  else
    (if !u.host.isEmpty || !u.path.isEmpty || u.user.isSome then lit "//" else []) ++
      (u.user.elim [] fun user => userString user ++ [64]) ++ escape .host u.host

def URL.String (u : URL) : Str :=
  let scheme := if u.scheme.isEmpty then [] else u.scheme ++ [58]
  let body :=
    if !u.opaquePart.isEmpty then u.opaquePart
    else
      let path := u.EscapedPath
      u.authority ++
        (if !path.isEmpty && path.head? ≠ some 47 && !u.host.isEmpty then [47]
          else if (scheme ++ u.authority).isEmpty && (cut 47 path).1.contains 58 then lit "./"
          else []) ++ path
  scheme ++ body ++ (if u.forceQuery || !u.rawQuery.isEmpty then 63 :: u.rawQuery else []) ++
    (if u.fragment.isEmpty then [] else 35 :: u.EscapedFragment)

example : (Parse (lit "https://u:p%40@[fe80::1%25en0]:443/a%2fb?q#f")).map URL.String =
    some (lit "https://u:p%40@[fe80::1%25en0]:443/a%2fb?q#f") := by decide

end GoUrl
