import ShortQ.AddressText
import ShortQ.UrlEscapes

/-! # The host of a URL

A host that `parseHost` yields is read again from its escaped form, except for an address whose
zone holds a byte that only an escape can bring into it. -/
namespace UrlHosts

open AddressText
open GoText
open GoUrl
open Runes
open UrlEscapes

/-- What `parseHost` can yield. -/
inductive HostText : Str → Prop
  | name {host : Str} (bytes : host.all (readable .host) = true) (bracket : 91 ∉ host)
      (port : ∀ before digits, host = before ++ 58 :: digits → 58 ∉ digits →
        digits.all isDigit = true) : HostText host
  | address {literal port : Str} (valid : validIPv6 literal = true)
      (bytes : ∀ b ∈ literal, 128 ≤ b ∨ readable .zone b = true)
      (digits : validOptionalPort port = true) : HostText ([91] ++ literal ++ [93] ++ port)

/-- The hosts that are read again: an address whose zone holds a bracket, or a byte beyond ASCII,
is not. -/
def rereads (host : Str) : Bool :=
  host.head? ≠ some 91 || host.tail.all fun b => b < 128 && b ≠ 91

theorem zone_of_host : ∀ b : UInt8, readable .host b = true →
    128 ≤ b ∨ readable .zone b = true := by
  intro b h
  simp only [readable, Bool.or_eq_true, decide_eq_true_eq] at h ⊢
  tauto

theorem shouldEscape_alnum {mode : Mode} {b : UInt8} (h : isAlnum b = true) :
    shouldEscape b mode = false := by
  rw [shouldEscape.eq_def, if_pos h]

theorem shouldEscape_digit {mode : Mode} (b : UInt8) (h : isDigit b = true) :
    shouldEscape b mode = false :=
  shouldEscape_alnum (by rw [isAlnum, h, Bool.or_true])

theorem all_readable_host {s t : Str} (h : unescape .host s = some t) :
    t.all (readable .host) = true :=
  unescape_induction (P := fun _ t => t.all (readable .host) = true) rfl
    (fun hreads _ ih => by
      rw [List.all_cons, ih, Bool.and_true]
      rcases hreads.host with hhigh | rfl | ⟨hread, -⟩
      · simp [readable, hhigh]
      · rfl
      · exact hread) h

theorem forall_readable_zone {s t : Str} (h : unescape .zone s = some t) :
    ∀ b ∈ t, 128 ≤ b ∨ readable .zone b = true :=
  unescape_induction (P := fun _ t => ∀ b ∈ t, 128 ≤ b ∨ readable .zone b = true) (by simp)
    (fun hreads _ ih => List.forall_mem_cons.mpr ⟨hreads.zone, ih⟩) h

/-- A byte below 128 other than the percent sign stands in what is read where it stood. -/
theorem mem_of_mem_unescape_host {s t : Str} {c : UInt8} (hc : c < 128) (hpercent : c ≠ 37)
    (h : unescape .host s = some t) : c ∈ t → c ∈ s := by
  refine unescape_induction (P := fun s t => c ∈ t → c ∈ s) (fun hmem => hmem) ?_ h
  intro s b rest u hreads hrest ih hmem
  rcases List.mem_cons.mp hmem with rfl | htail
  · rcases hreads.host with hhigh | rfl | ⟨-, rfl⟩
    · exact absurd hc (UInt8.not_lt.mpr hhigh)
    · exact absurd rfl hpercent
    · exact List.mem_cons_self
  · cases hreads with
    | escaped =>
      exact List.mem_cons_of_mem _ (List.mem_cons_of_mem _ (List.mem_cons_of_mem _ (ih htail)))
    | plain => exact List.mem_cons_of_mem _ (ih htail)

theorem unescape_of_plain {mode : Mode} {s : Str} (h : ∀ b ∈ s, shouldEscape b mode = false) :
    unescape mode s = some s := by
  have hall : s.all (readable mode) = true :=
    List.all_eq_true.mpr fun b hb => readable_of_plain (h b hb)
  have hescape := unescape_escape mode s
  rwa [escape_of_plain h, if_pos hall] at hescape

theorem port_plain {digits : Str} (h : digits.all isDigit = true) :
    ∀ b ∈ 58 :: digits, shouldEscape b .host = false := by
  intro b hb
  rcases List.mem_cons.mp hb with rfl | hb
  · rfl
  · exact shouldEscape_digit b (List.all_eq_true.mp h b hb)

theorem hostText_of_parseHost {s host : Str} (h : parseHost s = some host) : HostText host := by
  unfold parseHost at h
  split at h
  · rename_i inner _
    simp only [Option.bind_eq_bind, Option.bind_eq_some_iff] at h
    obtain ⟨⟨literal, port⟩, hcut, h⟩ := h
    split at h
    · cases h
    rename_i hport
    simp only [Option.bind_eq_some_iff] at h
    obtain ⟨name, hname, zone, hzone, h⟩ := h
    split at h
    · rename_i hvalid
      cases h
      have hbytes : ∀ b ∈ name ++ zone, 128 ≤ b ∨ readable .zone b = true := by
        intro b hb
        rcases List.mem_append.mp hb with hb | hb
        · exact zone_of_host b (List.all_eq_true.mp (all_readable_host hname) b hb)
        · exact forall_readable_zone hzone b hb
      have haddress := HostText.address hvalid hbytes (by simpa using hport)
      simpa using haddress
    · cases h
  · cases h
  · rename_i hbracket
    have hread : unescape .host s = some host ∧ ∀ before digits, s = before ++ 58 :: digits →
        58 ∉ digits → digits.all isDigit = true := by
      split at h
      · rename_i before port hcolon
        obtain ⟨rfl, hnot⟩ := cutLast_eq_some hcolon
        split at h
        · rename_i hport
          refine ⟨h, fun before' digits heq hdigits => ?_⟩
          rw [heq, cutLast_append hdigits] at hcolon
          cases hcolon
          simpa [validOptionalPort] using hport
        · cases h
      · rename_i hcolon
        refine ⟨h, fun before digits heq _ => ?_⟩
        exact absurd (heq ▸ List.mem_append_right _ List.mem_cons_self) (notMem_of_cutLast hcolon)
    refine .name (all_readable_host hread.1)
      (fun hmem => notMem_of_cutLast hbracket
        (mem_of_mem_unescape_host (by decide) (by decide) hread.1 hmem)) ?_
    intro before digits heq hdigits
    have hmem : 58 ∈ host := heq ▸ List.mem_append_right _ List.mem_cons_self
    cases hcut : cutLast 58 s with
    | none =>
      exact absurd (mem_of_mem_unescape_host (by decide) (by decide) hread.1 hmem)
        (notMem_of_cutLast hcut)
    | some parts =>
      obtain ⟨start, port⟩ := parts
      obtain ⟨rfl, hport⟩ := cutLast_eq_some hcut
      have hall := hread.2 start port rfl hport
      obtain ⟨x, z, -, hz, hjoin⟩ := unescape_append (by decide) hread.1
      rw [unescape_of_plain (port_plain hall)] at hz
      cases hz
      have hlast := cutLast_append hport x
      rw [← hjoin, heq, cutLast_append hdigits] at hlast
      cases hlast
      exact hall

theorem addressByte_plain (b : UInt8) (h : addressByte b = true) :
    shouldEscape b .host = false ∧ b < 128 ∧ b ≠ 91 ∧ b ≠ 37 := by
  simp only [addressByte, Bool.or_eq_true, decide_eq_true_eq] at h
  rcases h with (hhex | rfl) | rfl
  · have halnum := isAlnum_of_isHex hhex
    obtain ⟨hsmall, -, hmarks⟩ := isAlnum_plain halnum
    refine ⟨shouldEscape_alnum halnum, hsmall, ?_, ?_⟩
    · rintro rfl
      exact hmarks (by decide)
    · rintro rfl
      exact hmarks (by decide)
  · decide
  · decide

theorem splitZone_append {s : Str} (h : 37 ∉ s) (t : Str) :
    splitZone (s ++ t) = (s ++ (splitZone t).1, (splitZone t).2) := by
  induction s with
  | nil => rfl
  | cons c s ih =>
    rw [List.mem_cons, not_or] at h
    rw [List.cons_append, splitZone.eq_2 _ _ (fun rest heq => absurd heq.symm h.1), ih h.2]
    rfl

/-- The bytes of an address before its zone, and the zone with its percent sign. -/
theorem address_parts {literal : Str} (h : validIPv6 literal = true) : ∃ name zone,
    literal = name ++ zone ∧ (∀ b ∈ name, addressByte b = true) ∧
      (zone = [] ∨ ∃ rest, zone = 37 :: rest) := by
  obtain ⟨-, hname⟩ := validIPv6_short h
  have hjoin := cut_join 37 literal
  cases hcut : cut 37 literal with
  | mk name zone =>
    rw [hcut] at hjoin hname
    refine ⟨name, _, hjoin, hname, ?_⟩
    cases zone with
    | none => exact Or.inl rfl
    | some rest => exact Or.inr ⟨rest, rfl⟩

theorem splitZone_escape {name zone : Str} (hname : ∀ b ∈ name, addressByte b = true)
    (hzone : zone = [] ∨ ∃ rest, zone = 37 :: rest) :
    splitZone (escape .host (name ++ zone)) = (name, escape .host zone) := by
  have hplain : escape .host name = name :=
    escape_of_plain fun b hb => (addressByte_plain b (hname b hb)).1
  have hpercent : 37 ∉ name := fun hmem => (addressByte_plain 37 (hname 37 hmem)).2.2.2 rfl
  rw [escape_append, hplain, splitZone_append hpercent]
  rcases hzone with rfl | ⟨rest, rfl⟩
  · simp [escape, splitZone]
  · have hescape : escape .host (37 :: rest) = 37 :: 50 :: 53 :: escape .host rest := rfl
    rw [hescape, splitZone]
    simp

theorem escape_zone (s : Str) : escape .zone s = escape .host s := by
  unfold escape escapeByte
  simp [shouldEscape_zone]

theorem notMem_port {port : Str} (h : validOptionalPort port = true) {c : UInt8} (hc : c ≠ 58)
    (hdigit : isDigit c = false) : c ∉ port := by
  intro hmem
  cases port with
  | nil => cases hmem
  | cons b digits =>
    simp only [validOptionalPort, Bool.and_eq_true, decide_eq_true_eq] at h
    rcases List.mem_cons.mp hmem with rfl | hmem
    · exact hc h.1
    · rw [List.all_eq_true.mp h.2 c hmem] at hdigit
      cases hdigit

theorem escape_port {port : Str} (h : validOptionalPort port = true) :
    escape .host port = port := by
  cases port with
  | nil => rfl
  | cons c digits =>
    simp only [validOptionalPort, Bool.and_eq_true, decide_eq_true_eq] at h
    rw [h.1]
    exact escape_of_plain (port_plain h.2)

theorem parseHost_name {host : Str} (bytes : host.all (readable .host) = true)
    (bracket : 91 ∉ host) (port : ∀ before digits, host = before ++ 58 :: digits →
      58 ∉ digits → digits.all isDigit = true) :
    parseHost (escape .host host) = some host := by
  have hread : unescape .host (escape .host host) = some host := by
    rw [unescape_escape, if_pos bytes]
  have hnone : cutLast 91 (escape .host host) = none := cutLast_none fun hmem =>
    bracket (mem_of_mem_escape (by decide) (by decide) (by decide) hmem)
  unfold parseHost
  rw [hnone]
  dsimp only
  cases hcut : cutLast 58 host with
  | none =>
    have hcolon : cutLast 58 (escape .host host) = none := cutLast_none fun hmem =>
      notMem_of_cutLast hcut (mem_of_mem_escape (by decide) (by decide) (by decide) hmem)
    rw [hcolon]
    exact hread
  | some parts =>
    obtain ⟨before, digits⟩ := parts
    obtain ⟨hjoin, hnot⟩ := cutLast_eq_some hcut
    have hdigits := port before digits hjoin hnot
    have hescape : escape .host host = escape .host before ++ 58 :: digits := by
      rw [hjoin, escape_append, escape_of_plain (port_plain hdigits)]
    have hcolon : cutLast 58 (escape .host host) = some (escape .host before, digits) := by
      rw [hescape]
      exact cutLast_append hnot _
    rw [hcolon]
    dsimp only
    rw [if_pos (by simp [validOptionalPort, hdigits])]
    exact hread

theorem readable_zone_ascii (b : UInt8) (h : readable .zone b = true) : b < 128 := by
  simp only [readable, Bool.or_eq_true, decide_eq_true_eq, Bool.not_eq_true'] at h
  rcases h with (rfl | rfl) | hplain
  · decide
  · decide
  · by_contra hhigh
    rw [shouldEscape_high .host b (UInt8.not_lt.mp hhigh)] at hplain
    cases hplain

theorem port_ascii {port : Str} (h : validOptionalPort port = true) :
    (port.all fun b => b < 128 && b ≠ 91) = true := by
  rw [List.all_eq_true]
  intro b hb
  have hascii : b < 128 := by
    by_contra hhigh
    have hescape := shouldEscape_high .host b (UInt8.not_lt.mp hhigh)
    cases port with
    | nil => cases hb
    | cons c digits =>
      simp only [validOptionalPort, Bool.and_eq_true, decide_eq_true_eq] at h
      rw [h.1] at hb
      rw [port_plain h.2 b hb] at hescape
      cases hescape
  have hne : b ≠ 91 := fun heq => notMem_port h (by decide) (by decide) (heq ▸ hb)
  simp [hascii, hne]

theorem rereads_address {literal port : Str} (digits : validOptionalPort port = true) :
    rereads ([91] ++ literal ++ [93] ++ port) = literal.all fun b => b < 128 && b ≠ 91 := by
  have hlast : ([93] ++ port).all (fun b => b < 128 && b ≠ 91) = true := by
    rw [List.all_append, port_ascii digits]
    rfl
  have htail : ([91] ++ literal ++ [93] ++ port).tail = literal ++ ([93] ++ port) := by simp
  unfold rereads
  rw [htail, List.all_append, hlast, Bool.and_true]
  simp

theorem mem_escape_of_plain {mode : Mode} {c : UInt8} {s : Str} (hc : shouldEscape c mode = false)
    (h : c ∈ s) : c ∈ escape mode s := by
  have hone : escape mode [c] = [c] := escape_of_plain (by simpa using hc)
  refine List.mem_flatMap.mpr ⟨c, h, ?_⟩
  rw [escape, List.flatMap_singleton] at hone
  simp [hone]

/-- The bytes that come back are those the zone may hold and that are no bracket. -/
theorem all_zone {name zone : Str} (hname : ∀ b ∈ name, addressByte b = true)
    (bytes : ∀ b ∈ name ++ zone, 128 ≤ b ∨ readable .zone b = true) (hbracket : 91 ∉ name ++ zone) :
    ((name ++ zone).all fun b => b < 128 && b ≠ 91) = zone.all (readable .zone) := by
  rw [Bool.eq_iff_iff]
  constructor
  · intro h
    rw [List.all_eq_true] at h ⊢
    intro b hb
    have hascii := h b (List.mem_append_right name hb)
    simp only [Bool.and_eq_true, decide_eq_true_eq] at hascii
    exact (bytes b (List.mem_append_right name hb)).resolve_left (UInt8.not_le.mpr hascii.1)
  · intro h
    rw [List.all_eq_true] at h ⊢
    intro b hb
    have hne : b ≠ 91 := fun heq => hbracket (heq ▸ hb)
    have hascii : b < 128 := by
      rcases List.mem_append.mp hb with hb | hb
      · exact (addressByte_plain b (hname b hb)).2.1
      · exact readable_zone_ascii b (h b hb)
    simp [hascii, hne]

theorem parseHost_address {literal port : Str} (valid : validIPv6 literal = true)
    (bytes : ∀ b ∈ literal, 128 ≤ b ∨ readable .zone b = true)
    (digits : validOptionalPort port = true) :
    parseHost (escape .host ([91] ++ literal ++ [93] ++ port)) =
      if rereads ([91] ++ literal ++ [93] ++ port) then some ([91] ++ literal ++ [93] ++ port)
      else none := by
  have hescape : escape .host ([91] ++ literal ++ [93] ++ port) =
      91 :: (escape .host literal ++ 93 :: port) := by
    rw [escape_append, escape_append, escape_append, escape_port digits]
    have hopen : escape .host [91] = [91] := by decide
    have hclose : escape .host [93] = [93] := by decide
    simp [hopen, hclose]
  rw [hescape, rereads_address digits]
  by_cases hbracket : 91 ∈ literal
  · -- another bracket than the first opens the address
    have hinner : 91 ∈ escape .host literal ++ 93 :: port :=
      List.mem_append_left _ (mem_escape_of_plain (by decide) hbracket)
    have hall : (literal.all fun b => b < 128 && b ≠ 91) = false := by
      rw [List.all_eq_false]
      exact ⟨91, hbracket, by decide⟩
    rw [hall]
    unfold parseHost
    cases hcut : cutLast 91 (91 :: (escape .host literal ++ 93 :: port)) with
    | none => exact absurd List.mem_cons_self (notMem_of_cutLast hcut)
    | some parts =>
      obtain ⟨before, after⟩ := parts
      obtain ⟨hjoin, hnot⟩ := cutLast_eq_some hcut
      cases before with
      | nil =>
        rw [List.nil_append, List.cons.injEq] at hjoin
        exact absurd (hjoin.2 ▸ hinner) hnot
      | cons c before => rfl
  · obtain ⟨name, zone, rfl, hname, hzone⟩ := address_parts valid
    have hopen : 91 ∉ escape .host (name ++ zone) ++ 93 :: port := by
      rw [List.mem_append, List.mem_cons, not_or, not_or]
      exact ⟨fun hmem => hbracket (mem_of_mem_escape (by decide) (by decide) (by decide) hmem),
        by decide, notMem_port digits (by decide) (by decide)⟩
    have hfirst : cutLast 91 (91 :: (escape .host (name ++ zone) ++ 93 :: port)) =
        some ([], escape .host (name ++ zone) ++ 93 :: port) := cutLast_append hopen []
    have hlast : cutLast 93 (escape .host (name ++ zone) ++ 93 :: port) =
        some (escape .host (name ++ zone), port) :=
      cutLast_append (notMem_port digits (by decide) (by decide)) _
    have hread : unescape .host name = some name :=
      unescape_of_plain fun b hb => (addressByte_plain b (hname b hb)).1
    unfold parseHost
    simp only [hfirst, hlast, Option.bind_eq_bind, Option.bind_some, digits, Bool.not_true,
      Bool.false_eq_true, if_false, splitZone_escape hname hzone, hread]
    rw [← escape_zone, unescape_escape, all_zone hname bytes hbracket]
    cases zone.all (readable .zone)
    · rfl
    · simp [valid]

/-- A host is read again as it was, or not at all. -/
theorem parseHost_escape {host : Str} (h : HostText host) :
    parseHost (escape .host host) = if rereads host then some host else none := by
  cases h with
  | name bytes bracket port =>
    have hreads : rereads host = true := by
      cases host with
      | nil => rfl
      | cons c rest =>
        have hc : c ≠ 91 := fun heq => bracket (heq ▸ List.mem_cons_self)
        simp [rereads, hc]
    rw [parseHost_name bytes bracket port, if_pos hreads]
  | address valid bytes digits => exact parseHost_address valid bytes digits

end UrlHosts
