import ShortQ.AddressText
import ShortQ.Hosts
import ShortQ.Runes

/-! # What a handler reads of a request

The fields of `http.Request` the handlers look at, with what the server has checked of them, and
the address of the visitor. -/
namespace HttpRequest

open AddressText
open GoText
open GoUrl
open Hosts
open Runes

/-- A byte the server lets stand in a header value. -/
def headerByte (c : UInt8) : Bool := c = 9 || (32 ≤ c && c ≠ 127)

/-- A byte of a token, such as the method. -/
def tokenByte (c : UInt8) : Bool := isAlnum c || (lit "!#$%&'*+-.^_|~").contains c || c = 96

/-- The other end of the connection: the address may carry a zone. -/
structure Peer where
  ip : Str
  port : Str
  address : validIPv4 ip = true ∨ validIPv6 ip = true
  zone : ((cut 37 ip).2.getD []).length ≤ 15 ∧ ((cut 37 ip).2.getD []).all (fun c => isAlnum c ||
    (lit "-_.").contains c) = true
  digits : port.all isDigit = true

/-- `net.JoinHostPort`. -/
def joinHostPort (host port : Str) : Str :=
  if host.contains 58 then [91] ++ host ++ [93, 58] ++ port else host ++ [58] ++ port

structure Request where
  method : Str
  host : Str
  peer : Peer
  connectingIP : Str
  ipCountry : Str
  userAgent : Str
  referer : Str
  rawQuery : Str
  token : method ≠ [] ∧ method.all tokenByte = true
  headers : ∀ value ∈ [connectingIP, ipCountry, userAgent, referer], value.all headerByte = true

def Request.remoteAddr (r : Request) : Str := joinHostPort r.peer.ip r.peer.port

/-- `net.ParseIP` accepts the text: the first of `.`, `:` and `%` decides. -/
def parseIPOk (s : Str) : Bool :=
  match s.find? fun c => c = 46 || c = 58 || c = 37 with
  | some 46 => validIPv4 s
  | some 58 => !s.contains 37 && validIPv6 s
  | _ => false

def visitorIP (r : Request) : Str :=
  let ip := trimSpace r.connectingIP
  if parseIPOk ip then ip
  else
    match splitHostPort r.remoteAddr with
    | some (host, _) => host
    | none => r.remoteAddr

/-! Addresses are short ASCII texts. -/

/-- A byte of the address of the other end, its zone included. -/
def peerByte (b : UInt8) : Bool :=
  addressByte b || b = 37 || isAlnum b || (lit "-_.").contains b

theorem peerByte_plain : ∀ b : UInt8, peerByte b = true → b < 128 ∧ b ≠ 0 ∧ b ≠ 91 ∧ b ≠ 93 :=
  forall_byte (by decide +kernel)

theorem peerByte_of_address {b : UInt8} (h : addressByte b = true) : peerByte b = true := by
  simp [peerByte, h]

theorem Peer.short (p : Peer) : p.ip.length ≤ 63 ∧ ∀ b ∈ p.ip, peerByte b = true := by
  rcases p.address with h | h
  · obtain ⟨hlength, hbytes⟩ := validIPv4_short h
    exact ⟨by omega, fun b hb => peerByte_of_address (addressByte_of_digit (hbytes b hb))⟩
  · obtain ⟨hlength, hbytes⟩ := validIPv6_short h
    obtain ⟨hzone, halphabet⟩ := p.zone
    have hjoin := cut_join 37 p.ip
    generalize cut 37 p.ip = parts at hlength hbytes hzone halphabet hjoin
    obtain ⟨addr, zone⟩ := parts
    dsimp only at hlength hbytes
    rw [hjoin]
    cases zone with
    | none =>
      simp only [Option.elim_none, List.append_nil]
      exact ⟨by omega, fun b hb => peerByte_of_address (hbytes b hb)⟩
    | some zone =>
      simp only [Option.getD_some, Option.elim_some] at hzone halphabet ⊢
      constructor
      · rw [List.length_append, List.length_cons]
        omega
      · intro b hb
        rw [List.mem_append, List.mem_cons] at hb
        rcases hb with hb | rfl | hb
        · exact peerByte_of_address (hbytes b hb)
        · rfl
        · have hzoneByte := List.all_eq_true.mp halphabet b hb
          unfold peerByte
          rw [Bool.or_assoc, hzoneByte, Bool.or_true]

theorem splitHostPort_join {host port : Str} (hhost : ∀ b ∈ host, peerByte b = true)
    (hport : ∀ b ∈ port, isDigit b = true) :
    splitHostPort (joinHostPort host port) = some (host, port) := by
  have hbracket : 91 ∉ host ∧ 93 ∉ host :=
    ⟨fun h => (peerByte_plain 91 (hhost 91 h)).2.2.1 rfl,
      fun h => (peerByte_plain 93 (hhost 93 h)).2.2.2 rfl⟩
  have hdigit (b : UInt8) (hb : isDigit b = false) : b ∉ port := fun h => by
    rw [hport b h] at hb
    cases hb
  unfold joinHostPort
  split
  · have hcut : cut 93 (host ++ [93, 58] ++ port) = (host, some (58 :: port)) := by
      rw [List.append_assoc]
      exact cut_append hbracket.2 _
    simp only [List.cons_append, List.nil_append, List.append_assoc] at hcut ⊢
    simp [splitHostPort, hcut, hbracket.1, hdigit 58 rfl, hdigit 91 rfl, hdigit 93 rfl]
  · rename_i hcolon
    have hcolon : 58 ∉ host := by simpa using hcolon
    have hcut : cut 58 (host ++ [58] ++ port) = (host, some port) := by
      rw [List.append_assoc]
      exact cut_append hcolon _
    unfold splitHostPort
    split
    · rename_i rest heq
      cases host with
      | nil => cases heq
      | cons b rest' =>
        rw [List.cons_append, List.cons_append] at heq
        exact absurd (List.mem_cons.mpr (Or.inl (List.cons.inj heq).1.symm)) hbracket.1
    · rw [hcut]
      simp [hbracket.1, hbracket.2, hdigit 58 rfl, hdigit 91 rfl, hdigit 93 rfl]

theorem parseIPOk_short {s : Str} (h : parseIPOk s = true) :
    s.length ≤ 63 ∧ ∀ b ∈ s, peerByte b = true := by
  unfold parseIPOk at h
  split at h
  · obtain ⟨hlength, hbytes⟩ := validIPv4_short h
    exact ⟨by omega, fun b hb => peerByte_of_address (addressByte_of_digit (hbytes b hb))⟩
  · simp only [Bool.and_eq_true, Bool.not_eq_true', List.contains_eq_mem,
      decide_eq_false_iff_not] at h
    obtain ⟨hlength, hbytes⟩ := validIPv6_short h.2
    rw [cut_none h.1] at hlength hbytes
    dsimp only at hlength hbytes
    exact ⟨by omega, fun b hb => peerByte_of_address (hbytes b hb)⟩
  · cases h

/-- The address of the visitor is a short ASCII text, whatever the headers say. -/
theorem visitorIP_short (r : Request) :
    (visitorIP r).length ≤ 63 ∧ Plain (visitorIP r) := by
  have hshort : (visitorIP r).length ≤ 63 ∧ ∀ b ∈ visitorIP r, peerByte b = true := by
    unfold visitorIP
    dsimp only
    split
    · rename_i hip
      exact parseIPOk_short hip
    · rw [Request.remoteAddr, splitHostPort_join r.peer.short.2
        (List.all_eq_true.mp r.peer.digits)]
      exact r.peer.short
  refine ⟨hshort.1, fun b hb => ?_⟩
  obtain ⟨hascii, hzero, -⟩ := peerByte_plain b (hshort.2 b hb)
  exact ⟨hascii, hzero⟩

end HttpRequest
