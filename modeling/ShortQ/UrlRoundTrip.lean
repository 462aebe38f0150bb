import ShortQ.UrlHosts

/-! # What is left of a URL that is written and read again

`URL.String` followed by `Parse` yields the URL again, up to the way its path and its fragment are
escaped, unless its host is not read again. -/
namespace UrlRoundTrip

open GoText
open GoUrl
open Runes
open UrlEscapes
open UrlHosts

/-! ## Authorities -/

/-- A byte that ends neither the authority nor the URL before its fragment. -/
def inAuthority (b : UInt8) : Bool := b ≠ 47 && b ≠ 63 && b ≠ 35 && !isControl b

theorem inAuthority_alnum {b : UInt8} (h : isAlnum b = true) :
    inAuthority b = true ∧ b ≠ 64 ∧ b ≠ 58 := by
  obtain ⟨-, hcontrol, hmarks⟩ := isAlnum_plain h
  simp only [List.mem_cons, List.not_mem_nil, or_false, not_or] at hmarks
  simp only [inAuthority, hcontrol, Bool.and_eq_true, decide_eq_true_eq, Bool.not_false]
  tauto

theorem inAuthority_user : ∀ c, ∀ b ∈ escapeByte .userPassword c,
    inAuthority b = true ∧ b ≠ 64 ∧ b ≠ 58 ∧ validUserinfo [b] = true := by
  refine forall_escapeByte (fun h => by cases h) (by decide) (fun b hb => ?_) (by decide)
  obtain ⟨hauthority, hat, hcolon⟩ := inAuthority_alnum hb
  refine ⟨hauthority, hat, hcolon, ?_⟩
  rw [validUserinfo, List.all_cons, hb]
  rfl

theorem inAuthority_host : ∀ c, ∀ b ∈ escapeByte .host c, inAuthority b = true ∧ b ≠ 64 :=
  forall_escapeByte (fun h => by cases h) (by decide)
    (fun _ hb => ⟨(inAuthority_alnum hb).1, (inAuthority_alnum hb).2.1⟩) (by decide)

theorem validUserinfo_append (s t : Str) :
    validUserinfo (s ++ t) = (validUserinfo s && validUserinfo t) := List.all_append

theorem validUserinfo_escape (s : Str) : validUserinfo (escape .userPassword s) = true := by
  refine List.all_eq_true.mpr fun b hb => ?_
  simpa [validUserinfo] using (forall_escape inAuthority_user s b hb).2.2.2

theorem unescape_user (s : Str) :
    unescape .userPassword (escape .userPassword s) = some s := by
  have hall : s.all (readable .userPassword) = true := List.all_eq_true.mpr fun _ _ => rfl
  rw [unescape_escape, if_pos hall]

theorem colon_notMem_user (s : Str) : 58 ∉ escape .userPassword s := fun h =>
  (forall_escape inAuthority_user s 58 h).2.2.1 rfl

/-- An empty name with an empty password is written as the empty name alone. -/
def rereadUser (user : Str × Option Str) : Str × Option Str :=
  if user = ([], some []) then ([], none) else user

theorem parseAuthority_user (user : Str × Option Str) {host : Str} (hhost : 64 ∉ host) :
    parseAuthority (userString user ++ 64 :: host) =
      (parseHost host).map (some (rereadUser user), ·) := by
  unfold parseAuthority
  rw [cutLast_append hhost]
  cases hparsed : parseHost host with
  | none => simp [hparsed]
  | some parsed =>
    obtain ⟨name, password⟩ := user
    cases password with
    | none =>
      have htext : userString (name, none) = escape .userPassword name := by
        cases name <;> rfl
      have hreread : rereadUser (name, none) = (name, none) := by simp [rereadUser]
      simp only [htext, hreread, hparsed, validUserinfo_escape, cut_none (colon_notMem_user name),
        Option.bind_eq_bind, Option.bind_some, Bool.not_true, Bool.false_eq_true, if_false,
        unescape_user, Option.map_some]
    | some password =>
      by_cases hempty : (name, some password) = ([], some [])
      · cases hempty
        simp [hparsed, userString, rereadUser, validUserinfo, cut, unescape]
      · have htext : userString (name, some password) =
            escape .userPassword name ++ 58 :: escape .userPassword password := by
          unfold userString
          split
          · rename_i h
            cases h
          · rename_i h
            exact absurd h hempty
          · rename_i h
            cases h
          · rename_i h
            cases h
            simp
        have hvalid : validUserinfo (escape .userPassword name ++
            58 :: escape .userPassword password) = true := by
          rw [validUserinfo_append, validUserinfo_escape, Bool.true_and]
          exact validUserinfo_escape password
        simp only [htext, rereadUser, hempty, hparsed, hvalid, cut_append (colon_notMem_user name),
          Option.bind_eq_bind, Option.bind_some, Bool.not_true, Bool.false_eq_true, if_false,
          unescape_user, Option.map_some]

/-- The authority of a URL with a host, as it is written. -/
def authorityText (u : URL) : Str :=
  (u.user.elim [] fun user => userString user ++ [64]) ++ escape .host u.host

/-! ## Paths and fragments -/

/-- Empty, or beginning with a slash. -/
def Rooted (p : Str) : Prop := p = [] ∨ ∃ rest, p = 47 :: rest

/-- A byte that ends neither the path nor the URL before its fragment. -/
def inPath (b : UInt8) : Bool := b ≠ 63 && b ≠ 35 && !isControl b

theorem inPath_alnum {b : UInt8} (h : isAlnum b = true) : inPath b = true := by
  obtain ⟨-, hcontrol, hmarks⟩ := isAlnum_plain h
  simp only [List.mem_cons, List.not_mem_nil, or_false, not_or] at hmarks
  simp only [inPath, hcontrol, Bool.and_eq_true, decide_eq_true_eq, Bool.not_false]
  tauto

theorem inPath_escape : ∀ c, ∀ b ∈ escapeByte .path c, inPath b = true :=
  forall_escapeByte (fun h => by cases h) (by decide) (fun _ hb => inPath_alnum hb) (by decide)

theorem inPath_validEncoded (b : UInt8) (h : validEncoded .path [b] = true) :
    inPath b = true := by
  simp only [validEncoded, List.all_cons, List.all_nil, Bool.and_true, Bool.or_eq_true,
    List.contains_iff_mem, Bool.not_eq_true'] at h
  rcases h with hmem | hplain
  · exact (by decide : ∀ d ∈ lit "!$&'()*+,;=:@[]%", inPath d = true) b hmem
  · rcases isAlnum_or_marks hplain with halnum | hmarks
    · exact inPath_alnum halnum
    · exact (by decide : ∀ d ∈ marks .path, inPath d = true) b hmarks

theorem unescape_EscapedPath (u : URL) : unescape .path u.EscapedPath = some u.path := by
  have hall : u.path.all (readable .path) = true := List.all_eq_true.mpr fun _ _ => rfl
  unfold URL.EscapedPath
  split
  · rename_i hraw
    simp only [Bool.and_eq_true, decide_eq_true_eq] at hraw
    exact hraw.2
  split
  · rename_i hstar
    rw [hstar]
    rfl
  · rw [unescape_escape, if_pos hall]

theorem inPath_EscapedPath (u : URL) : ∀ b ∈ u.EscapedPath, inPath b = true := by
  unfold URL.EscapedPath
  split
  · rename_i hraw
    simp only [Bool.and_eq_true, decide_eq_true_eq] at hraw
    intro b hb
    refine inPath_validEncoded b ?_
    simpa [validEncoded] using List.all_eq_true.mp hraw.1.2 b hb
  split
  · decide
  · exact forall_escape inPath_escape u.path

theorem escape_rooted {p : Str} (h : Rooted p) : Rooted (escape .path p) := by
  rcases h with rfl | ⟨rest, rfl⟩
  · exact Or.inl rfl
  · exact Or.inr ⟨escape .path rest, rfl⟩

theorem Rooted.ne_star {p : Str} (h : Rooted p) : p ≠ [42] := by
  rintro rfl
  rcases h with h | ⟨rest, h⟩ <;> cases h

theorem EscapedPath_rooted {u : URL} (hpath : Rooted u.path) (hraw : Rooted u.rawPath) :
    Rooted u.EscapedPath := by
  unfold URL.EscapedPath
  split
  · exact hraw
  · rw [if_neg hpath.ne_star]
    exact escape_rooted hpath

/-- A path keeps its escaped form when that is stored as `setPath` stores it. -/
theorem EscapedPath_stored {u v : URL} (hroot : Rooted u.path) (hpath : v.path = u.path)
    (hraw : v.rawPath = if u.EscapedPath = escape .path u.path then [] else u.EscapedPath) :
    v.EscapedPath = u.EscapedPath := by
  by_cases hescape : u.EscapedPath = escape .path u.path
  · rw [if_pos hescape] at hraw
    rw [hescape, URL.EscapedPath, hraw, hpath, if_neg (by simp), if_neg hroot.ne_star]
  · rw [if_neg hescape] at hraw
    have hform : u.EscapedPath = u.rawPath ∧ (u.rawPath ≠ [] && validEncoded .path u.rawPath &&
        unescape .path u.rawPath = some u.path) = true := by
      unfold URL.EscapedPath at hescape ⊢
      split
      · rename_i h
        exact ⟨rfl, h⟩
      · rename_i h
        rw [if_neg h, if_neg hroot.ne_star] at hescape
        exact absurd rfl hescape
    rw [hform.1] at hraw
    rw [hform.1, URL.EscapedPath, hraw, hpath, if_pos hform.2]

theorem unescape_EscapedFragment (u : URL) :
    unescape .fragment u.EscapedFragment = some u.fragment := by
  have hall : u.fragment.all (readable .fragment) = true := List.all_eq_true.mpr fun _ _ => rfl
  unfold URL.EscapedFragment
  split
  · rename_i hraw
    simp only [Bool.and_eq_true, decide_eq_true_eq] at hraw
    exact hraw.2
  · rw [unescape_escape, if_pos hall]

theorem EscapedFragment_stored {u v : URL} (hfragment : v.fragment = u.fragment)
    (hraw : v.rawFragment =
      if u.EscapedFragment = escape .fragment u.fragment then [] else u.EscapedFragment) :
    v.EscapedFragment = u.EscapedFragment := by
  by_cases hescape : u.EscapedFragment = escape .fragment u.fragment
  · rw [if_pos hescape] at hraw
    rw [hescape, URL.EscapedFragment, hraw, hfragment, if_neg (by simp)]
  · rw [if_neg hescape] at hraw
    have hform : u.EscapedFragment = u.rawFragment ∧ (u.rawFragment ≠ [] &&
        validEncoded .fragment u.rawFragment &&
        unescape .fragment u.rawFragment = some u.fragment) = true := by
      unfold URL.EscapedFragment at hescape ⊢
      split
      · rename_i h
        exact ⟨rfl, h⟩
      · rename_i h
        rw [if_neg h] at hescape
        exact absurd rfl hescape
    rw [hform.1] at hraw
    rw [hform.1, URL.EscapedFragment, hraw, hfragment, if_pos hform.2]

/-! ## Whole URLs -/

def schemeByte (c : UInt8) : Bool := isAlnum c || (lit "+-.").contains c

/-- A scheme as `getScheme` finds it. -/
def schemeName : Str → Bool
  | [] => false
  | c :: rest => isLetter c && (c :: rest).all schemeByte

theorem schemeByte_plain : ∀ b : UInt8, schemeByte b = true →
    b ≠ 35 ∧ isControl b = false ∧ schemeByte (lowerByte b) = true ∧
      lowerByte (lowerByte b) = lowerByte b ∧ (isLetter b = true → isLetter (lowerByte b) = true) :=
  forall_byte (by decide +kernel)

theorem schemeName_iff {name : Str} : schemeName name = true ↔
    (∀ b ∈ name, schemeByte b = true) ∧ ∃ c rest, name = c :: rest ∧ isLetter c = true := by
  cases name with
  | nil => simp [schemeName]
  | cons c rest =>
    simp only [schemeName, Bool.and_eq_true, List.all_eq_true, List.cons.injEq]
    constructor
    · rintro ⟨hletter, hall⟩
      exact ⟨hall, c, rest, ⟨rfl, rfl⟩, hletter⟩
    · rintro ⟨hall, _, _, ⟨rfl, rfl⟩, hletter⟩
      exact ⟨hletter, hall⟩

theorem getScheme_colon {name : Str} (h : schemeName name = true) (rest : Str) :
    getScheme (name ++ 58 :: rest) = some (name, rest) := by
  obtain ⟨hall, c, rest', hname, hletter⟩ := schemeName_iff.mp h
  have htake : (name ++ 58 :: rest).takeWhile (fun c => isAlnum c || (lit "+-.").contains c) =
      name := by
    have hcolon : schemeByte 58 = false := by decide
    have hrest : (58 :: rest).takeWhile schemeByte = [] := by
      rw [List.takeWhile_cons, hcolon]
      rfl
    change (name ++ 58 :: rest).takeWhile schemeByte = name
    rw [List.takeWhile_append_of_pos hall, hrest, List.append_nil]
  unfold getScheme
  dsimp only
  rw [htake, List.drop_left, hname]
  simp only [hletter, if_true]

theorem getScheme_eq_some {raw name rest : Str} (h : getScheme raw = some (name, rest))
    (hname : name ≠ []) : raw = name ++ 58 :: rest ∧ schemeName name = true := by
  have hjoin := List.takeWhile_append_dropWhile
    (p := fun c => isAlnum c || (lit "+-.").contains c) (l := raw)
  have hall : ∀ b ∈ raw.takeWhile fun c => isAlnum c || (lit "+-.").contains c,
      schemeByte b = true := fun b hb => List.mem_takeWhile_imp hb
  unfold getScheme at h
  dsimp only at h
  generalize raw.takeWhile (fun c => isAlnum c || (lit "+-.").contains c) = front at h hjoin hall
  split at h
  · rename_i after hdrop
    split at h
    · cases h
    · rename_i c cs
      split at h
      · rename_i hletter
        cases h
        refine ⟨?_, schemeName_iff.mpr ⟨hall, c, cs, rfl, hletter⟩⟩
        rw [← hjoin, List.drop_left] at hdrop
        rw [← hjoin, hdrop]
      · cases h
        exact absurd rfl hname
  · cases h
    exact absurd rfl hname

/-- Where the query begins, whether it is empty, and the query. -/
def tailText (u : URL) : Str := if u.forceQuery || !u.rawQuery.isEmpty then 63 :: u.rawQuery else []

theorem splitQuery_append {before tail : Str} (hbefore : 63 ∉ before)
    (htail : tail = [] ∨ ∃ query, tail = 63 :: query) :
    splitQuery (before ++ tail) = (before, decide (tail = [63]), tail.drop 1) := by
  have hcount : before.count 63 = 0 := List.count_eq_zero.mpr hbefore
  unfold splitQuery
  rcases htail with rfl | ⟨query, rfl⟩
  · rw [List.append_nil, if_neg (by simp [hcount]), cut_none hbefore]
    rfl
  · cases query with
    | nil =>
      rw [if_pos (by simp [hcount])]
      simp
    | cons c rest =>
      have hmany : ¬ ((before ++ 63 :: c :: rest).getLast? = some 63 &&
          (before ++ 63 :: c :: rest).count 63 = 1) = true := by
        simp only [Bool.and_eq_true, decide_eq_true_eq, not_and]
        intro hlast hone
        have hin : (63 : UInt8) ∈ c :: rest := by
          rw [List.getLast?_append, List.getLast?_cons_cons] at hlast
          exact List.mem_of_getLast? (by simpa using hlast)
        have hpositive := List.count_pos_iff.mpr hin
        rw [List.count_append, List.count_cons_self, hcount] at hone
        omega
      rw [if_neg hmany, cut_append hbefore]
      simp

theorem splitQuery_join (rest : Str) : ∃ tail, rest = (splitQuery rest).1 ++ tail ∧
    63 ∉ (splitQuery rest).1 ∧ (tail = [] ∨ ∃ query, tail = 63 :: query) := by
  unfold splitQuery
  split
  · rename_i hforce
    simp only [Bool.and_eq_true, decide_eq_true_eq] at hforce
    obtain ⟨before, rfl⟩ := List.getLast?_eq_some_iff.mp hforce.1
    have hcount := hforce.2
    rw [List.count_append, List.count_singleton_self] at hcount
    refine ⟨[63], by simp, ?_, Or.inr ⟨[], rfl⟩⟩
    simpa using List.count_eq_zero.mp (by omega)
  · have hjoin := cut_join 63 rest
    cases hcut : cut 63 rest with
    | mk before query =>
      rw [hcut] at hjoin
      cases query with
      | none => exact ⟨[], hjoin, by simpa [hjoin] using notMem_of_cut hcut, Or.inl rfl⟩
      | some query => exact ⟨63 :: query, hjoin, (cut_eq_some hcut).2, Or.inr ⟨query, rfl⟩⟩

/-- The text of a URL with a scheme and an authority, and its parts. -/
structure Parts (raw name authority path tail : Str) : Prop where
  join : raw = name ++ 58 :: 47 :: 47 :: (authority ++ path ++ tail)
  scheme : schemeName name = true
  delimited : 47 ∉ authority ∧ 63 ∉ authority ∧ 63 ∉ path
  rooted : Rooted path
  query : tail = [] ∨ ∃ query, tail = 63 :: query
  control : ∀ b ∈ raw, isControl b = false

/-- What `parse` makes of the parts. -/
def assemble (name authority path tail : Str) : Option URL :=
  (parseAuthority authority).bind fun (user, host) =>
    setPath
      { scheme := toLowerAscii name
        forceQuery := tail = [63]
        rawQuery := tail.drop 1
        user := user
        host := host } path

theorem Parts.parse {raw name authority path tail : Str} (h : Parts raw name authority path tail)
    (viaRequest : Bool) : GoUrl.parse raw viaRequest = assemble name authority path tail := by
  have hcontrol : raw.any isControl = false := by
    rw [List.any_eq_false]
    intro b hb
    simp [h.control b hb]
  have hraw : raw ≠ [] ∧ raw ≠ [42] := by
    constructor <;> intro heq <;> have hlength := congrArg List.length (heq ▸ h.join) <;>
      simp only [List.length_append, List.length_cons, List.length_nil] at hlength <;> omega
  have hname : toLowerAscii name ≠ [] := by
    obtain ⟨-, c, rest, rfl, -⟩ := schemeName_iff.mp h.scheme
    exact List.cons_ne_nil _ _
  have hbefore : 63 ∉ 47 :: 47 :: (authority ++ path) := by
    simp [h.delimited]
  have hsplit : splitQuery (47 :: 47 :: (authority ++ (path ++ tail))) =
      (47 :: 47 :: (authority ++ path), decide (tail = [63]), tail.drop 1) := by
    have hsplit := splitQuery_append hbefore h.query
    rwa [List.cons_append, List.cons_append, List.append_assoc] at hsplit
  have hslash : ∀ b ∈ authority, (b != 47) = true := by
    intro b hb
    rw [bne_iff_ne]
    exact fun heq => h.delimited.1 (heq ▸ hb)
  have htake : (authority ++ path).takeWhile (· != 47) = authority := by
    rw [List.takeWhile_append_of_pos hslash]
    rcases h.rooted with rfl | ⟨rest, rfl⟩ <;> simp
  have hscheme : getScheme raw = some (name, 47 :: 47 :: (authority ++ (path ++ tail))) := by
    rw [h.join, getScheme_colon h.scheme, List.append_assoc]
  have hdrop : (47 :: 47 :: (authority ++ path)).drop (2 + authority.length) = path := by
    rw [Nat.add_comm, List.drop_succ_cons, List.drop_succ_cons, List.drop_left]
  unfold GoUrl.parse assemble
  simp [hcontrol, hraw, hscheme, hsplit, hname, htake, hdrop]

theorem parts_of_parse {raw : Str} {viaRequest : Bool} {u : URL}
    (h : parse raw viaRequest = some u) (hscheme : u.scheme ≠ []) (hhost : u.host ≠ []) :
    ∃ name authority path tail, Parts raw name authority path tail := by
  unfold parse at h
  split at h
  · cases h
  rename_i hclean
  split at h
  · cases h
    exact absurd rfl hscheme
  rw [Option.bind_eq_bind, Option.bind_eq_some_iff] at h
  obtain ⟨⟨name, rest⟩, hget, h⟩ := h
  dsimp only at h
  obtain ⟨tail, hjoin, hquestion, hquery⟩ := splitQuery_join rest
  generalize hsplit : splitQuery rest = parts at h hjoin hquestion
  obtain ⟨before, forceQuery, rawQuery⟩ := parts
  dsimp only at h hjoin hquestion
  split at h
  · cases h
    exact absurd rfl hhost
  split at h
  · cases h
  split at h
  · rename_i hslashes
    simp only [Bool.and_eq_true, decide_eq_true_eq] at hslashes
    rw [Option.bind_eq_bind, Option.bind_eq_some_iff] at h
    obtain ⟨⟨user, host⟩, hauthority, hset⟩ := h
    obtain ⟨p, hp, rfl⟩ := Option.map_eq_some_iff.mp hset
    have hname : name ≠ [] := by
      rintro rfl
      exact hscheme rfl
    obtain ⟨hraw, hvalid⟩ := getScheme_eq_some hget hname
    have hdrop : before = 47 :: 47 :: before.drop 2 := by
      have htake := List.take_append_drop 2 before
      rw [hslashes.2] at htake
      exact htake.symm
    have htake := List.takeWhile_append_dropWhile (p := (· != 47)) (l := before.drop 2)
    have hnot : 47 ∉ (before.drop 2).takeWhile (· != 47) := fun hmem => by
      simpa using List.mem_takeWhile_imp hmem
    refine ⟨name, (before.drop 2).takeWhile (· != 47), (before.drop 2).dropWhile (· != 47), tail,
      ?_, hvalid, ⟨hnot, ?_, ?_⟩, ?_, hquery, ?_⟩
    · rw [htake, hraw, hjoin]
      conv_lhs => rw [hdrop]
      rfl
    · exact fun hmem => hquestion (List.mem_of_mem_drop (List.takeWhile_prefix _ |>.subset hmem))
    · exact fun hmem => hquestion (List.mem_of_mem_drop (List.dropWhile_suffix _ |>.subset hmem))
    · cases hrest : (before.drop 2).dropWhile (· != 47) with
      | nil => exact Or.inl rfl
      | cons c rest' =>
        have hhead := List.head_dropWhile_not (· != 47) (l := before.drop 2) (by simp [hrest])
        simp only [hrest, List.head_cons, bne_eq_false_iff_eq] at hhead
        exact Or.inr ⟨rest', by rw [hhead]⟩
    · intro b hb
      simp only [Bool.or_eq_true, not_or, Bool.not_eq_true, List.any_eq_false] at hclean
      simpa using hclean.1 b hb
  · obtain ⟨p, hp, rfl⟩ := Option.map_eq_some_iff.mp h
    exact absurd rfl hhost

/-- A URL with a scheme and a host, in the form in which `parse` leaves it. -/
structure Absolute (u : URL) : Prop where
  scheme : schemeName u.scheme = true
  lower : toLowerAscii u.scheme = u.scheme
  hierarchical : u.opaquePart = []
  host : u.host ≠ []
  hostText : HostText u.host
  path : Rooted u.path
  rawPath : Rooted u.rawPath
  query : ∀ b ∈ u.rawQuery, b ≠ 35 ∧ isControl b = false

theorem toLowerAscii_toLowerAscii (s : Str) : toLowerAscii (toLowerAscii s) = toLowerAscii s := by
  have hlower : ∀ b : UInt8, lowerByte (lowerByte b) = lowerByte b :=
    forall_byte (by decide +kernel)
  simp [toLowerAscii, hlower]

theorem schemeName_lower {name : Str} (h : schemeName name = true) :
    schemeName (toLowerAscii name) = true := by
  obtain ⟨hall, c, rest, rfl, hletter⟩ := schemeName_iff.mp h
  refine schemeName_iff.mpr ⟨?_, lowerByte c, toLowerAscii rest, rfl, ?_⟩
  · intro b hb
    obtain ⟨a, ha, rfl⟩ := List.mem_map.mp hb
    exact (schemeByte_plain a (hall a ha)).2.2.1
  · exact (schemeByte_plain c (hall c List.mem_cons_self)).2.2.2.2 hletter

theorem hostText_of_parseAuthority {s host : Str} {user : Option (Str × Option Str)}
    (h : parseAuthority s = some (user, host)) : HostText host := by
  unfold parseAuthority at h
  split at h
  · obtain ⟨parsed, hparsed, heq⟩ := Option.map_eq_some_iff.mp h
    cases heq
    exact hostText_of_parseHost hparsed
  · rw [Option.bind_eq_bind, Option.bind_eq_some_iff] at h
    obtain ⟨parsed, hparsed, h⟩ := h
    have hhost : parsed = host := by
      split at h
      · cases h
      split at h
      · rw [Option.bind_eq_some_iff] at h
        obtain ⟨name, -, heq⟩ := h
        cases heq
        rfl
      · simp only [Option.bind_eq_some_iff] at h
        obtain ⟨name, -, password, -, heq⟩ := h
        cases heq
        rfl
    exact hhost ▸ hostText_of_parseHost hparsed

theorem unescape_rooted {p t : Str} (h : unescape .path p = some t) (hp : Rooted p) : Rooted t := by
  rcases hp with rfl | ⟨rest, rfl⟩
  · cases h
    exact Or.inl rfl
  · rw [unescape_byte (by decide) (by simp)] at h
    obtain ⟨u, -, rfl⟩ := Option.map_eq_some_iff.mp h
    exact Or.inr ⟨u, rfl⟩

theorem absolute_of_parse {raw : Str} {u : URL} (hclean : 35 ∉ raw)
    (h : parse raw false = some u) (hscheme : u.scheme ≠ []) (hhost : u.host ≠ []) :
    Absolute u := by
  obtain ⟨name, authority, path, tail, hparts⟩ := parts_of_parse h hscheme hhost
  rw [hparts.parse, assemble, Option.bind_eq_some_iff] at h
  obtain ⟨⟨user, host⟩, hauthority, hset⟩ := h
  obtain ⟨p, hp, rfl⟩ := Option.map_eq_some_iff.mp hset
  have htail : ∀ b ∈ tail.drop 1, b ∈ raw := by
    intro b hb
    rw [hparts.join]
    simp [List.mem_of_mem_drop hb]
  exact
    { scheme := schemeName_lower hparts.scheme
      lower := toLowerAscii_toLowerAscii name
      hierarchical := rfl
      host := hhost
      hostText := hostText_of_parseAuthority hauthority
      path := unescape_rooted hp hparts.rooted
      rawPath := by
        dsimp only
        split
        · exact Or.inl rfl
        · exact hparts.rooted
      query := fun b hb => ⟨fun heq => hclean (heq ▸ htail b hb),
        hparts.control b (htail b hb)⟩ }

theorem absolute_of_Parse {raw : Str} {u : URL} (h : Parse raw = some u)
    (hscheme : u.scheme ≠ []) (hhost : u.host ≠ []) : Absolute u := by
  unfold Parse at h
  cases hcut : cut 35 raw with
  | mk before fragment =>
    have hclean : 35 ∉ before := by
      cases fragment with
      | none =>
        have hjoin := cut_join 35 raw
        rw [hcut] at hjoin
        simp only [Option.elim_none, List.append_nil] at hjoin
        exact hjoin ▸ notMem_of_cut hcut
      | some after => exact (cut_eq_some hcut).2
    rw [hcut] at h
    simp only [Option.bind_eq_bind, Option.bind_eq_some_iff] at h
    obtain ⟨v, hv, h⟩ := h
    split at h
    · cases h
      exact absolute_of_parse hclean hv hscheme hhost
    · cases h
      exact absolute_of_parse hclean hv hscheme hhost
    · obtain ⟨f, -, rfl⟩ := Option.map_eq_some_iff.mp h
      have hbase := absolute_of_parse hclean hv hscheme hhost
      exact { hbase with }

def fragmentText (u : URL) : Str := if u.fragment.isEmpty then [] else 35 :: u.EscapedFragment

/-- What is written before the fragment. -/
def frontText (u : URL) : Str :=
  u.scheme ++ 58 :: 47 :: 47 :: (authorityText u ++ u.EscapedPath ++ tailText u)

theorem Absolute.String {u : URL} (h : Absolute u) : u.String = frontText u ++ fragmentText u := by
  have hscheme : u.scheme ≠ [] := by
    obtain ⟨-, c, rest, hname, -⟩ := schemeName_iff.mp h.scheme
    exact hname ▸ List.cons_ne_nil c rest
  have hslashes : lit "//" = [47, 47] := by decide
  have hauthority : u.authority = 47 :: 47 :: authorityText u := by
    unfold URL.authority authorityText
    simp [hslashes, hscheme, h.host]
  have hpath : u.EscapedPath ≠ [] → u.EscapedPath.head? ≠ some 47 → u.host = [] := by
    intro hne hhead
    rcases EscapedPath_rooted h.path h.rawPath with hempty | ⟨rest, hrest⟩
    · exact absurd hempty hne
    · exact absurd (hrest ▸ rfl) hhead
  unfold URL.String frontText tailText fragmentText
  simp [hauthority, hscheme, h.hierarchical]
  exact hpath

theorem inAuthority_userString (user : Str × Option Str) :
    ∀ b ∈ userString user, inAuthority b = true := by
  have hescape (s : Str) : ∀ b ∈ escape .userPassword s, inAuthority b = true := fun b hb =>
    (forall_escape inAuthority_user s b hb).1
  unfold userString
  split
  · simp
  · simp
  · exact hescape _
  · intro b hb
    simp only [List.mem_append, List.mem_singleton] at hb
    rcases hb with (hb | rfl) | hb
    · exact hescape _ b hb
    · rfl
    · exact hescape _ b hb

theorem inAuthority_authorityText (u : URL) : ∀ b ∈ authorityText u, inAuthority b = true := by
  intro b hb
  rcases List.mem_append.mp hb with hb | hb
  · cases huser : u.user with
    | none => simp [huser] at hb
    | some user =>
      simp only [huser, Option.elim_some, List.mem_append, List.mem_singleton] at hb
      rcases hb with hb | rfl
      · exact inAuthority_userString user b hb
      · rfl
  · exact (forall_escape inAuthority_host u.host b hb).1

theorem at_notMem_host (host : Str) : 64 ∉ escape .host host := fun h =>
  (forall_escape inAuthority_host host 64 h).2 rfl

theorem inAuthority_iff {b : UInt8} : inAuthority b = true ↔
    (b ≠ 47 ∧ b ≠ 63) ∧ b ≠ 35 ∧ isControl b = false := by
  simp [inAuthority, and_assoc]

theorem inPath_iff {b : UInt8} : inPath b = true ↔ b ≠ 63 ∧ b ≠ 35 ∧ isControl b = false := by
  simp [inPath, and_assoc]

/-- What stands before the fragment holds neither its mark nor a control byte. -/
theorem Absolute.clean {u : URL} (h : Absolute u) :
    ∀ b ∈ frontText u, b ≠ 35 ∧ isControl b = false := by
  have htail : ∀ b ∈ tailText u, b ≠ 35 ∧ isControl b = false := by
    unfold tailText
    split
    · exact List.forall_mem_cons.mpr ⟨by decide, h.query⟩
    · simp
  intro b hb
  simp only [frontText, List.mem_append, List.mem_cons] at hb
  rcases hb with hb | rfl | rfl | rfl | (hb | hb) | hb
  · have hscheme := schemeByte_plain b ((schemeName_iff.mp h.scheme).1 b hb)
    exact ⟨hscheme.1, hscheme.2.1⟩
  · decide
  · decide
  · decide
  · exact (inAuthority_iff.mp (inAuthority_authorityText u b hb)).2
  · exact (inPath_iff.mp (inPath_EscapedPath u b hb)).2
  · exact htail b hb

theorem Absolute.parts {u : URL} (h : Absolute u) :
    Parts (frontText u) u.scheme (authorityText u) u.EscapedPath (tailText u) where
  join := rfl
  scheme := h.scheme
  delimited :=
    ⟨fun hb => (inAuthority_iff.mp (inAuthority_authorityText u 47 hb)).1.1 rfl,
      fun hb => (inAuthority_iff.mp (inAuthority_authorityText u 63 hb)).1.2 rfl,
      fun hb => (inPath_iff.mp (inPath_EscapedPath u 63 hb)).1 rfl⟩
  rooted := EscapedPath_rooted h.path h.rawPath
  query := by
    unfold tailText
    split
    · exact Or.inr ⟨u.rawQuery, rfl⟩
    · exact Or.inl rfl
  control := fun b hb => (h.clean b hb).2

theorem parseAuthority_text {u : URL} (h : HostText u.host) : parseAuthority (authorityText u) =
    if rereads u.host then some (u.user.map rereadUser, u.host) else none := by
  have hhost := parseHost_escape h
  unfold authorityText
  cases huser : u.user with
  | none =>
    unfold parseAuthority
    rw [Option.elim_none, List.nil_append, cutLast_none (at_notMem_host u.host)]
    dsimp only
    rw [hhost]
    split <;> rfl
  | some user =>
    rw [Option.elim_some, List.append_assoc, List.singleton_append,
      parseAuthority_user user (at_notMem_host u.host), hhost]
    split <;> rfl

/-- The URL that is read from the text of another one, with the escaped forms `parse` keeps. -/
def reread (u : URL) : URL :=
  { scheme := u.scheme
    user := u.user.map rereadUser
    host := u.host
    path := u.path
    rawPath := if u.EscapedPath = escape .path u.path then [] else u.EscapedPath
    forceQuery := u.forceQuery && u.rawQuery.isEmpty
    rawQuery := u.rawQuery
    fragment := u.fragment
    rawFragment := if u.fragment.isEmpty || u.EscapedFragment = escape .fragment u.fragment then []
      else u.EscapedFragment }

/-- A URL with a scheme and a host is read again from its text exactly when its host is. -/
theorem Parse_String {u : URL} (h : Absolute u) :
    Parse u.String = if rereads u.host then some (reread u) else none := by
  have hfront : parse (frontText u) false =
      if rereads u.host then some { reread u with fragment := [], rawFragment := [] }
        else none := by
    have hforce : decide (tailText u = [63]) = (u.forceQuery && u.rawQuery.isEmpty) := by
      unfold tailText
      cases u.forceQuery <;> cases u.rawQuery <;> simp
    have hquery : (tailText u).drop 1 = u.rawQuery := by
      unfold tailText
      cases u.forceQuery <;> cases u.rawQuery <;> simp
    rw [h.parts.parse, assemble, parseAuthority_text h.hostText]
    split
    · rw [Option.bind_some]
      dsimp only
      rw [setPath, unescape_EscapedPath, h.lower, hforce, hquery]
      rfl
    · rfl
  have hhash : 35 ∉ frontText u := fun hmem => (h.clean 35 hmem).1 rfl
  rw [h.String, Parse, fragmentText]
  by_cases hempty : u.fragment = []
  · rw [if_pos (by simp [hempty]), List.append_nil, cut_none hhash]
    dsimp only
    rw [hfront]
    split
    · simp [reread, hempty]
    · rfl
  · have hescaped : u.EscapedFragment ≠ [] := fun heq => by
      have hread := unescape_EscapedFragment u
      rw [heq] at hread
      exact hempty (Option.some.inj hread).symm
    rw [if_neg (by simpa using hempty), cut_append hhash]
    dsimp only
    rw [hfront]
    split
    · have hread := unescape_EscapedFragment u
      cases htext : u.EscapedFragment with
      | nil => exact absurd htext hescaped
      | cons c rest =>
        rw [htext] at hread
        simp [hread, reread, htext, hempty]
    · rfl

theorem Absolute.reread {u : URL} (h : Absolute u) : Absolute (reread u) where
  scheme := h.scheme
  lower := h.lower
  hierarchical := rfl
  host := h.host
  hostText := h.hostText
  path := h.path
  rawPath := by
    change Rooted (if _ then _ else _)
    split
    · exact Or.inl rfl
    · exact EscapedPath_rooted h.path h.rawPath
  query := h.query

theorem userString_rereadUser (user : Str × Option Str) :
    userString (rereadUser user) = userString user := by
  unfold rereadUser
  split
  · rename_i h
    rw [h]
    rfl
  · rfl

/-- Reading a text again changes nothing in it. -/
theorem String_reread {u : URL} (h : Absolute u) : (reread u).String = u.String := by
  have hauthority : authorityText (reread u) = authorityText u := by
    unfold authorityText
    cases huser : u.user with
    | none => simp [reread, huser]
    | some user => simp [reread, huser, userString_rereadUser]
  have hpath : (reread u).EscapedPath = u.EscapedPath := EscapedPath_stored h.path rfl rfl
  have htail : tailText (reread u) = tailText u := by
    have hforce : ((UrlRoundTrip.reread u).forceQuery || !u.rawQuery.isEmpty) =
        (u.forceQuery || !u.rawQuery.isEmpty) := by
      change ((u.forceQuery && u.rawQuery.isEmpty) || !u.rawQuery.isEmpty) = _
      cases u.forceQuery <;> cases u.rawQuery.isEmpty <;> rfl
    unfold tailText
    rw [show (UrlRoundTrip.reread u).rawQuery = u.rawQuery from rfl, hforce]
  have hfragment : fragmentText (reread u) = fragmentText u := by
    unfold fragmentText
    by_cases hempty : u.fragment.isEmpty = true
    · rw [if_pos hempty, if_pos (show (UrlRoundTrip.reread u).fragment.isEmpty = true from hempty)]
    · have hraw : (UrlRoundTrip.reread u).rawFragment =
          if u.EscapedFragment = escape .fragment u.fragment then [] else u.EscapedFragment := by
        simp only [UrlRoundTrip.reread, hempty, Bool.false_or, decide_eq_true_eq]
      have hescaped : (UrlRoundTrip.reread u).EscapedFragment = u.EscapedFragment :=
        EscapedFragment_stored rfl hraw
      rw [if_neg hempty,
        if_neg (show ¬ (UrlRoundTrip.reread u).fragment.isEmpty = true from hempty),
        hescaped]
  rw [h.reread.String, h.String, frontText, frontText, hauthority, hpath, htail, hfragment]
  rfl

/-! ## Where the fragment begins -/

theorem hash_notMem_unescape {mode : Mode} (hmode : mode = .host ∨ mode = .zone) {s t : Str}
    (h : unescape mode s = some t) : 35 ∉ s := by
  refine unescape_induction (P := fun s _ => 35 ∉ s) (by simp) ?_ h
  intro s b rest u hreads _ ih hmem
  cases hreads with
  | escaped hexadecimal _ =>
    simp only [List.mem_cons] at hmem
    rcases hmem with heq | rfl | rfl | hrest
    · cases heq
    · exact absurd hexadecimal.1 (by decide)
    · exact absurd hexadecimal.2 (by decide)
    · exact ih hrest
  | plain _ allowed =>
    rcases List.mem_cons.mp hmem with rfl | hrest
    · have hescape := allowed hmode (by decide)
      rcases hmode with rfl | rfl <;> exact absurd hescape (by decide)
    · exact ih hrest

theorem splitZone_join (literal : Str) :
    (splitZone literal).1 ++ (splitZone literal).2 = literal := by
  fun_induction splitZone literal with
  | case1 rest => rfl
  | case2 c rest _ ih => rw [List.cons_append, ih]
  | case3 => rfl

theorem hash_notMem_host {s host : Str} (h : parseHost s = some host) : 35 ∉ s := by
  unfold parseHost at h
  split at h
  · rename_i inner hopen
    obtain ⟨rfl, -⟩ := cutLast_eq_some hopen
    simp only [Option.bind_eq_bind, Option.bind_eq_some_iff] at h
    obtain ⟨⟨literal, port⟩, hclose, h⟩ := h
    obtain ⟨rfl, -⟩ := cutLast_eq_some hclose
    split at h
    · cases h
    rename_i hport
    simp only [Option.bind_eq_some_iff] at h
    obtain ⟨name, hname, zone, hzone, -⟩ := h
    have hliteral : 35 ∉ literal := by
      rw [← splitZone_join literal, List.mem_append, not_or]
      exact ⟨hash_notMem_unescape (.inl rfl) hname, hash_notMem_unescape (.inr rfl) hzone⟩
    have hdigits : 35 ∉ port := notMem_port (by simpa using hport) (by decide) (by decide)
    simp [hliteral, hdigits]
  · cases h
  · split at h
    · split at h
      · exact hash_notMem_unescape (.inl rfl) h
      · cases h
    · exact hash_notMem_unescape (.inl rfl) h

theorem hash_notMem_authority {s host : Str} {user : Option (Str × Option Str)}
    (h : parseAuthority s = some (user, host)) : 35 ∉ s := by
  unfold parseAuthority at h
  split at h
  · obtain ⟨parsed, hparsed, -⟩ := Option.map_eq_some_iff.mp h
    exact hash_notMem_host hparsed
  · rename_i userinfo rest hcut
    obtain ⟨rfl, -⟩ := cutLast_eq_some hcut
    rw [Option.bind_eq_bind, Option.bind_eq_some_iff] at h
    obtain ⟨parsed, hparsed, h⟩ := h
    have huser : 35 ∉ userinfo := by
      split at h
      · cases h
      · rename_i hvalid
        rw [Bool.not_eq_true', Bool.not_eq_false, validUserinfo, List.all_eq_true] at hvalid
        exact fun hmem => absurd (hvalid 35 hmem) (by decide)
    simp [huser, hash_notMem_host hparsed]

theorem Parts.shorten {raw name authority path tail : Str}
    (h : Parts raw name authority path tail) (path' tail' : Str) (hrooted : Rooted path')
    (hmark : 63 ∉ path')
    (hquery : tail' = [] ∨ ∃ query, tail' = 63 :: query)
    (hsub : ∀ b ∈ path' ++ tail', b ∈ path ++ tail) :
    Parts (name ++ 58 :: 47 :: 47 :: (authority ++ path' ++ tail')) name authority path' tail' where
  join := rfl
  scheme := h.scheme
  delimited := ⟨h.delimited.1, h.delimited.2.1, hmark⟩
  rooted := hrooted
  query := hquery
  control := by
    intro b hb
    apply h.control b
    rw [h.join]
    have hrest : b ∈ path' ∨ b ∈ tail' → b ∈ path ∨ b ∈ tail := by
      simpa only [List.mem_append] using hsub b
    simp only [List.mem_append, List.mem_cons] at hb ⊢
    tauto

/-- The fragment is cut off behind the authority. -/
theorem Parts.before_fragment {raw name authority path tail : Str}
    (h : Parts raw name authority path tail) (hclean : 35 ∉ authority) :
    ∃ path' tail', Parts (cut 35 raw).1 name authority path' tail' := by
  have hname : 35 ∉ name := fun hmem =>
    (schemeByte_plain 35 ((schemeName_iff.mp h.scheme).1 35 hmem)).1 rfl
  have hfront : 35 ∉ name ++ 58 :: 47 :: 47 :: authority := by
    simp [hname, hclean]
  by_cases hpath : 35 ∈ path
  · obtain ⟨front, back, hsplit, hfree⟩ := List.eq_append_cons_of_mem hpath
    have hraw : raw = (name ++ 58 :: 47 :: 47 :: (authority ++ front)) ++ 35 :: (back ++ tail) := by
      rw [h.join, hsplit]
      simp
    have hfree' : 35 ∉ name ++ 58 :: 47 :: 47 :: (authority ++ front) := by
      simp [hname, hclean, hfree]
    have hparts := h.shorten front [] ?_ ?_ (Or.inl rfl) ?_
    · refine ⟨front, [], ?_⟩
      rw [hraw, cut_append hfree']
      simpa using hparts
    · rcases h.rooted with hempty | ⟨rest, hrest⟩
      · rw [hempty] at hpath
        cases hpath
      · cases front with
        | nil => exact Or.inl rfl
        | cons c front =>
          rw [hrest, List.cons_append, List.cons.injEq] at hsplit
          exact Or.inr ⟨front, by rw [hsplit.1]⟩
    · exact fun hmem => h.delimited.2.2 (hsplit ▸ List.mem_append_left _ hmem)
    · intro b hb
      rw [List.append_nil] at hb
      exact List.mem_append_left _ (hsplit ▸ List.mem_append_left _ hb)
  · by_cases htail : 35 ∈ tail
    · obtain ⟨front, back, hsplit, hfree⟩ := List.eq_append_cons_of_mem htail
      have hraw : raw = (name ++ 58 :: 47 :: 47 :: (authority ++ path ++ front)) ++ 35 :: back := by
        rw [h.join, hsplit]
        simp
      have hfree' : 35 ∉ name ++ 58 :: 47 :: 47 :: (authority ++ path ++ front) := by
        simp [hname, hclean, hpath, hfree]
      have hparts := h.shorten path front h.rooted h.delimited.2.2 ?_ ?_
      · refine ⟨path, front, ?_⟩
        rw [hraw, cut_append hfree']
        exact hparts
      · rcases h.query with hempty | ⟨query, hquery⟩
        · rw [hempty] at htail
          cases htail
        · cases front with
          | nil => exact Or.inl rfl
          | cons c front =>
            rw [hquery, List.cons_append, List.cons.injEq] at hsplit
            exact Or.inr ⟨front, by rw [hsplit.1]⟩
      · intro b hb
        rcases List.mem_append.mp hb with hb | hb
        · exact List.mem_append_left _ hb
        · exact List.mem_append_right _ (hsplit ▸ List.mem_append_left _ hb)
    · have hraw : 35 ∉ raw := by
        rw [h.join]
        simp [hname, hclean, hpath, htail]
      exact ⟨path, tail, by rw [cut_none hraw]; exact h⟩

/-- `Parse` reads the scheme and the host that `ParseRequestURI` reads. -/
theorem scheme_host_of_request {raw : Str} {u v : URL} (hv : ParseRequestURI raw = some v)
    (hscheme : v.scheme ≠ []) (hhost : v.host ≠ []) (hu : Parse raw = some u) :
    u.scheme = v.scheme ∧ u.host = v.host := by
  obtain ⟨name, authority, path, tail, hparts⟩ := parts_of_parse hv hscheme hhost
  have hread := hparts.parse true
  rw [show parse raw true = some v from hv, assemble] at hread
  obtain ⟨⟨user, host⟩, hauthority, hset⟩ := Option.bind_eq_some_iff.mp hread.symm
  obtain ⟨p, -, rfl⟩ := Option.map_eq_some_iff.mp hset
  obtain ⟨path', tail', hbefore⟩ := hparts.before_fragment (hash_notMem_authority hauthority)
  rw [Parse, Option.bind_eq_bind, Option.bind_eq_some_iff] at hu
  obtain ⟨w, hw, hu⟩ := hu
  rw [hbefore.parse, assemble, hauthority, Option.bind_some] at hw
  obtain ⟨p', -, rfl⟩ := Option.map_eq_some_iff.mp hw
  split at hu
  · cases hu
    exact ⟨rfl, rfl⟩
  · cases hu
    exact ⟨rfl, rfl⟩
  · obtain ⟨f, -, rfl⟩ := Option.map_eq_some_iff.mp hu
    exact ⟨rfl, rfl⟩

end UrlRoundTrip
