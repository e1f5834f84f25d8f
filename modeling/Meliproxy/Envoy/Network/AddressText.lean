import Meliproxy.Envoy.Network.ProxyProtocol
import Meliproxy.Envoy.Network.TcpUrl

/-!
# Texts of addresses with a port

`asString` of `network/address_impl.cc`, and which texts `parseInternetAddressAndPort` reads back.
-/

namespace Meliproxy.Envoy.Network.Utility

open Lib List StringUtil Option

/-- `v4:port`, or `[v6]:port` where it is bracketed. -/
def compose (bracketed : Bool) (ipStr portStr : Bytes) : Bytes :=
  if bracketed then 91 :: (ipStr ++ 93 :: 58 :: portStr) else ipStr ++ 58 :: portStr

def asString : Ip × Nat → Bytes
  | (.v4 address, port) => compose false (Ip.v4 address).addressAsString (decimal port)
  | (.v6 address, port) => compose true (Ip.v6 address).addressAsString (decimal port)

def readAddress (bracketed : Bool) (ipStr : Bytes) : Option Ip :=
  if bracketed then inetPton6 ipStr >>= ipv6OfBytes else inetPton4 ipStr >>= ipv4OfOctets

/-- `inet_pton` takes the text of `inet_ntop` for the address. -/
def InverseAt : Ip → Prop
  | .v4 address => readAddress false (Ip.v4 address).addressAsString = some (.v4 address)
  | .v6 address => readAddress true (Ip.v6 address).addressAsString = some (.v6 address)

/-- The address in any form that is one, and zeros before the port. -/
def Denotes (text : Bytes) (ip : Ip) (port : Nat) : Prop :=
  ∃ bracketed ipStr zeros, port ≤ 65535 ∧ readAddress bracketed ipStr = some ip ∧
    text = compose bracketed ipStr (List.replicate zeros 48 ++ decimal port)

/-- Where the function divides the text: at the last `]:`, or at the last colon. -/
def divide (text : Bytes) : Option (Bool × Bytes × Bytes) :=
  if text.head? = some 91 then
    (rfind [93, 58] text).map fun parts => (true, parts.1.drop 1, parts.2)
  else (rfind [58] text).map fun parts => (false, parts)

/-- The parts are read, but as C strings, with blanks and a sign before the number, which is taken
modulo `2 ^ 64`. -/
def Slips (text : Bytes) : Prop :=
  ∃ bracketed ipStr portStr, divide text = some (bracketed, ipStr, portStr) ∧
    (readAddress bracketed (cStr ipStr)).isSome = true ∧
    (∃ value, decimalValue (cStr portStr) = some value ∧ value.natAbs ≤ ulongMax ∧
      value % 2 ^ 64 ≤ 65535) ∧
    (0 ∈ ipStr ∨ portStr.all isDecimal = false)

variable {text ipStr portStr before after : Bytes} {bracketed : Bool} {ip : Ip} {port : Nat}

variable {needle : Bytes}

theorem rfind_some (h : rfind needle text = some (before, after)) :
    text = before ++ needle ++ after := by
  induction text generalizing before after with
  | nil => cases h
  | cons c text ih =>
    rw [rfind] at h
    split at h
    · rename_i before' after' hrest
      cases h
      rw [ih hrest, cons_append, cons_append]
    · split at h
      · rename_i hprefix
        cases h
        obtain ⟨rest, hrest⟩ := isPrefixOf_iff_prefix.mp hprefix
        rw [← hrest, drop_left, nil_append]
      · cases h

theorem rfind_eq_none {c : UInt8} (hc : c ∈ needle) (h : c ∉ text) :
    rfind needle text = none := by
  cases hfind : rfind needle text with
  | none => rfl
  | some parts =>
    refine absurd ?_ h
    rw [rfind_some hfind]
    exact mem_append_left _ (mem_append_right _ hc)

theorem rfind_append (h : rfind needle (needle ++ after) = some ([], after)) :
    rfind needle (before ++ needle ++ after) = some (before, after) := by
  induction before with
  | nil => exact h
  | cons c before ih => rw [cons_append, cons_append, rfind, ih]

section

variable (h : readAddress bracketed ipStr = some ip)
include h

theorem addressByte_of_readAddress : ∀ c ∈ ipStr, AddressByte c := by
  cases bracketed with
  | false =>
    obtain ⟨octets, hoctets, -⟩ := bind_eq_some_iff.mp h
    exact inetPton4Loop_bytes hoctets
  | true =>
    obtain ⟨bytes, hbytes, -⟩ := bind_eq_some_iff.mp h
    exact inetPton6_bytes hbytes

theorem notMem_of_readAddress {c : UInt8}
    (hc : ¬ AddressByte c) : c ∉ ipStr := fun hmem => hc (addressByte_of_readAddress h c hmem)

theorem divide_compose (hport : portStr.all isDecimal = true) :
    divide (compose bracketed ipStr portStr) = some (bracketed, ipStr, portStr) := by
  have hnot {c : UInt8} (hc : isDecimal c = false) : c ∉ portStr := fun hmem =>
    Bool.false_ne_true (hc.symm.trans (List.all_eq_true.mp hport c hmem))
  cases bracketed with
  | false =>
    have hhead : (compose false ipStr portStr).head? ≠ some 91 := by
      cases ipStr with
      | nil => cases h
      | cons c ipStr =>
        intro hbracket
        cases hbracket
        exact absurd mem_cons_self (notMem_of_readAddress h (by decide))
    have hfind : rfind [58] ([58] ++ portStr) = some ([], portStr) := by
      rw [singleton_append, rfind, rfind_eq_none mem_cons_self (hnot rfl)]
      rfl
    have hcompose : compose false ipStr portStr = ipStr ++ [58] ++ portStr :=
      append_cons ipStr 58 portStr
    rw [divide, if_neg hhead, hcompose, rfind_append hfind]
    rfl
  | true =>
    have hfind : rfind [93, 58] ([93, 58] ++ portStr) = some ([], portStr) := by
      have hrest : (93 : UInt8) ∉ 58 :: portStr := not_mem_cons_of_ne_of_not_mem nofun (hnot rfl)
      rw [cons_append, singleton_append, rfind, rfind_eq_none mem_cons_self hrest]
      rfl
    have hcompose : compose true ipStr portStr = 91 :: ipStr ++ [93, 58] ++ portStr := by
      simp [compose]
    rw [divide, hcompose, rfind_append hfind]
    rfl

end

theorem compose_of_divide (h : divide text = some (bracketed, ipStr, portStr)) :
    text = compose bracketed ipStr portStr := by
  rw [divide] at h
  split at h
  · rename_i hhead
    obtain ⟨⟨before, after⟩, hfind, hparts⟩ := map_eq_some_iff.mp h
    cases hparts
    have htext := rfind_some hfind
    cases before with
    | nil =>
      rw [htext] at hhead
      cases hhead
    | cons c before =>
      rw [htext] at hhead
      cases hhead
      rw [htext]
      simp [compose]
  · obtain ⟨⟨before, after⟩, hfind, hparts⟩ := map_eq_some_iff.mp h
    cases hparts
    exact (rfind_some hfind).trans (append_assoc ..)

theorem parse_eq : parseInternetAddressAndPort text =
    match (divide text).bind fun parts => (parsePort parts.2.2).bind fun port =>
      (readAddress parts.1 (cStr parts.2.1)).bind fun ip => some (ip, port) with
    | some address => .ok address
    | none => .error (ascii "malformed IP address: " ++ text) := by
  rw [parseInternetAddressAndPort, divide]
  by_cases hhead : text.head? = some 91
  · simp only [if_pos hhead, bind_map]
    rfl
  · simp only [if_neg hhead, bind_map]
    rfl

theorem parse_eq_ok_iff : parseInternetAddressAndPort text = .ok (ip, port) ↔
    ∃ bracketed ipStr portStr, divide text = some (bracketed, ipStr, portStr) ∧
      parsePort portStr = some port ∧ readAddress bracketed (cStr ipStr) = some ip := by
  rw [parse_eq]
  constructor
  · intro h
    split at h
    · rename_i hparsed
      cases h
      obtain ⟨⟨bracketed, ipStr, portStr⟩, hdivide, hparsed⟩ := bind_eq_some_iff.mp hparsed
      obtain ⟨port, hport, hparsed⟩ := bind_eq_some_iff.mp hparsed
      obtain ⟨ip, hip, haddress⟩ := bind_eq_some_iff.mp hparsed
      cases haddress
      exact ⟨bracketed, ipStr, portStr, hdivide, hport, hip⟩
    · cases h
  · rintro ⟨bracketed, ipStr, portStr, hdivide, hport, hip⟩
    rw [hdivide, bind_some, hport, bind_some, hip]
    rfl

theorem parsePort_eq_some_iff : parsePort portStr = some port ↔
    ∃ value, decimalValue (cStr portStr) = some value ∧ value.natAbs ≤ ulongMax ∧
      value % 2 ^ 64 ≤ 65535 ∧ port = (value % 2 ^ 64).toNat := by
  have hempty : portStr = [] → decimalValue (cStr portStr) = none := by
    rintro rfl
    rfl
  have hmodulus : (ulongMax + 1 : Int) = 2 ^ 64 := rfl
  rw [parsePort]
  split
  · rename_i hnil
    simp [hempty hnil]
  · rw [atoul_ten, hmodulus, filter_eq_some_iff]
    constructor
    · rintro ⟨hatoul, hle⟩
      obtain ⟨value, hvalue, hatoul⟩ := bind_eq_some_iff.mp hatoul
      obtain ⟨⟨hrange, -⟩, rfl⟩ := ite_some_none_eq_some.mp hatoul
      have hle := of_decide_eq_true hle
      exact ⟨value, hvalue, hrange, by omega, rfl⟩
    · rintro ⟨value, hvalue, hrange, hle, rfl⟩
      have htakes : TakesValue false value := ⟨hrange, fun h => Bool.false_ne_true h.2⟩
      rw [hvalue, bind_some, if_pos htakes]
      exact ⟨rfl, decide_eq_true (by omega)⟩

theorem Denotes.parse (h : Denotes text ip port) :
    parseInternetAddressAndPort text = .ok (ip, port) := by
  obtain ⟨bracketed, ipStr, zeros, hle, hip, rfl⟩ := h
  obtain ⟨hne, hall, -⟩ := (isPort_iff _).mpr ⟨port, zeros, hle, rfl⟩
  have hread : readDecimal (List.replicate zeros 48 ++ decimal port) 0 = port := by
    rw [readDecimal_append, readDecimal_zeros, readDecimal_decimal]
  refine parse_eq_ok_iff.mpr ⟨bracketed, ipStr, _, divide_compose hip hall, ?_, ?_⟩
  · refine parsePort_eq_some_iff.mpr ⟨port, ?_, ?_, ?_, ?_⟩
    · rw [decimalValue_of_digits hall hne, hread]
    · exact Nat.le_trans hle (by decide)
    · omega
    · omega
  · rw [cStr_eq_self (notMem_of_readAddress hip (by decide))]
    exact hip

theorem Denotes.plain (h : Denotes text ip port)
    (hdivide : divide text = some (bracketed, ipStr, portStr)) :
    0 ∉ ipStr ∧ portStr.all isDecimal = true := by
  obtain ⟨bracketed', ipStr', zeros, hle, hip, rfl⟩ := h
  obtain ⟨-, hall, -⟩ := (isPort_iff _).mpr ⟨port, zeros, hle, rfl⟩
  rw [divide_compose hip hall] at hdivide
  cases hdivide
  exact ⟨notMem_of_readAddress hip (by decide), hall⟩

theorem denotes_of_not_slips (hslips : ¬ Slips text)
    (h : parseInternetAddressAndPort text = .ok (ip, port)) : Denotes text ip port := by
  obtain ⟨bracketed, ipStr, portStr, hdivide, hport, hip⟩ := parse_eq_ok_iff.mp h
  obtain ⟨value, hvalue, hrange, hle, rfl⟩ := parsePort_eq_some_iff.mp hport
  have hsome : (readAddress bracketed (cStr ipStr)).isSome = true := by rw [hip]; rfl
  obtain ⟨hzero, hall⟩ := not_or.mp fun hplain =>
    hslips ⟨bracketed, ipStr, portStr, hdivide, hsome, ⟨value, hvalue, hrange, hle⟩, hplain⟩
  rw [Bool.not_eq_false] at hall
  have hne : portStr ≠ [] := by
    rintro rfl
    cases hvalue
  rw [decimalValue_of_digits hall hne] at hvalue
  cases hvalue
  obtain ⟨zeros, hzeros⟩ := eq_zeros_append_decimal hne hall
  rw [cStr_eq_self hzero] at hip
  have hport : ((readDecimal portStr 0 : Int) % 2 ^ 64).toNat = readDecimal portStr 0 := by
    rw [Int.natAbs_natCast] at hrange
    unfold ulongMax at hrange
    omega
  refine ⟨bracketed, ipStr, zeros, by omega, hip, ?_⟩
  rw [hport, ← hzeros]
  exact compose_of_divide hdivide

/-- The text of an address and a port is read back, and any other text is read as what it denotes
or not at all, except those that slip through. -/
theorem addressText_iff (text : Bytes) : (∀ ip port, InverseAt ip → port ≤ 65535 →
      parseInternetAddressAndPort (asString (ip, port)) = .ok (ip, port)) ∧
    ((∀ ip port, parseInternetAddressAndPort text = .ok (ip, port) ↔ Denotes text ip port) ↔
      ¬ Slips text) := by
  constructor
  · intro ip port hinverse hle
    apply Denotes.parse
    cases ip with
    | v4 address => exact ⟨false, _, 0, hle, hinverse, rfl⟩
    | v6 address => exact ⟨true, _, 0, hle, hinverse, rfl⟩
  · constructor
    · rintro h ⟨bracketed, ipStr, portStr, hdivide, hip, ⟨value, hvalue, hrange, hle⟩, hplain⟩
      obtain ⟨ip, hip⟩ := isSome_iff_exists.mp hip
      have hport := parsePort_eq_some_iff.mpr ⟨value, hvalue, hrange, hle, rfl⟩
      have hparse := parse_eq_ok_iff.mpr ⟨bracketed, ipStr, portStr, hdivide, hport, hip⟩
      obtain ⟨hzero, hall⟩ := Denotes.plain ((h ip _).mp hparse) hdivide
      exact hplain.elim hzero fun hdigits => Bool.false_ne_true (hdigits.symm.trans hall)
    · exact fun hslips ip port => ⟨denotes_of_not_slips hslips, Denotes.parse⟩

theorem addressText_inverse : parseInternetAddressAndPort (asString (.v4 ⟨10, 0, 0, 1⟩, 8080)) =
    .ok (.v4 ⟨10, 0, 0, 1⟩, 8080) := (addressText_iff []).1 _ _ (by rfl) (by decide)

theorem addressText_blank :
    ¬ ∀ text ip port, parseInternetAddressAndPort text = .ok (ip, port) → Denotes text ip port := by
  intro h
  have hdenotes := h (ascii "10.0.0.1: 80") (.v4 ⟨10, 0, 0, 1⟩) 80 rfl
  have hdivide : divide (ascii "10.0.0.1: 80") = some (false, ascii "10.0.0.1", ascii " 80") := by
    decide +kernel
  exact absurd (hdenotes.plain hdivide).2 (by decide)

end Meliproxy.Envoy.Network.Utility
