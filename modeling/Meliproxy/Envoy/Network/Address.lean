import Meliproxy.Lib.Text

/-!
# Addresses and their texts

`inet_pton` and `inet_ntop` as the C library computes them, the addresses of `address_impl.cc`
with the texts these give, and the two questions `network/utility.cc` asks about an address.
-/

namespace Meliproxy.Envoy.Network

open Lib List

def hexDigitValue (c : UInt8) : Option Nat :=
  if 48 ≤ c ∧ c ≤ 57 then some (c.toNat - 48)
  else if 97 ≤ c ∧ c ≤ 102 then some (c.toNat - 87)
  else if 65 ≤ c ∧ c ≤ 70 then some (c.toNat - 55)
  else none

/-- The loop of `inet_pton(AF_INET)`: the octets before the last dot, and the digits after it. -/
def inetPton4Loop (octets : List Nat) (current : Option Nat) : Bytes → Option (List Nat)
  | [] =>
    match current with
    | some v => if octets.length = 3 then some (octets ++ [v]) else none
    | none => none
  | c :: src =>
    if 48 ≤ c ∧ c ≤ 57 then
      match current with
      | none => inetPton4Loop octets (some (c.toNat - 48)) src
      | some v =>
        if v = 0 ∨ 255 < v * 10 + (c.toNat - 48) then none
        else inetPton4Loop octets (some (v * 10 + (c.toNat - 48))) src
    else if c = 46 then
      match current with
      | some v => if octets.length = 3 then none else inetPton4Loop (octets ++ [v]) none src
      | none => none
    else none

def inetPton4 (src : Bytes) : Option (List Nat) := inetPton4Loop [] none src

/-- The variables of the loop of `inet_pton(AF_INET6)`. -/
structure Pton6 where
  out : List Nat
  colonp : Option Nat
  curtok : Bytes
  xdigitsSeen : Nat
  val : Nat

def Pton6.finish (p : Pton6) : Option (List Nat) :=
  if 0 < p.xdigitsSeen ∧ 16 < p.out.length + 2 then none
  else
    let out := if 0 < p.xdigitsSeen then p.out ++ [p.val / 256, p.val % 256] else p.out
    match p.colonp with
    | none => if out.length = 16 then some out else none
    | some start =>
      if out.length = 16 then none
      else some (out.take start ++ List.replicate (16 - out.length) 0 ++ out.drop start)

def inetPton6Loop (p : Pton6) : Bytes → Option (List Nat)
  | [] => p.finish
  | c :: src =>
    match hexDigitValue c with
    | some digit =>
      if p.xdigitsSeen = 4 then none
      else inetPton6Loop { p with xdigitsSeen := p.xdigitsSeen + 1, val := p.val * 16 + digit } src
    | none =>
      if c = 58 then
        if p.xdigitsSeen = 0 then
          if p.colonp.isSome then none
          else inetPton6Loop { p with colonp := some p.out.length, curtok := src } src
        else if src = [] then none
        else if 16 < p.out.length + 2 then none
        else
          inetPton6Loop { p with
            out := p.out ++ [p.val / 256, p.val % 256], curtok := src, xdigitsSeen := 0, val := 0 } src
      else if c = 46 ∧ p.out.length + 4 ≤ 16 then
        match inetPton4 p.curtok with
        | some octets => Pton6.finish { p with out := p.out ++ octets, xdigitsSeen := 0 }
        | none => none
      else none

def inetPton6 (src : Bytes) : Option (List Nat) :=
  match src with
  | [] => none
  | 58 :: src =>
    match src with
    | 58 :: _ => inetPton6Loop ⟨[], none, src, 0, 0⟩ src
    | _ => none
  | src => inetPton6Loop ⟨[], none, src, 0, 0⟩ src

def inetNtop4 (a b c d : UInt8) : Bytes :=
  decimal a.toNat ++ 46 :: decimal b.toNat ++ 46 :: decimal c.toNat ++ 46 :: decimal d.toNat

def hexText (n : Nat) : Bytes := (Nat.toDigits 16 n).map fun c => c.toNat.toUInt8

variable (words : List Nat)

def zeroRun : Nat := (words.takeWhile (· = 0)).length

def bestRun : Nat × Nat :=
  (List.range words.length).foldl
    (fun best i => if best.2 < zeroRun (words.drop i) then (i, zeroRun (words.drop i)) else best) (0, 0)

/-- One turn of the loop over the groups. The last two may be written as an IPv4 address. -/
def ntop6Group (base len : Nat) (v4 : Bytes) (i : Nat) : Bytes :=
  if 2 ≤ len ∧ base ≤ i ∧ i < base + len then
    if i = base then [58] else []
  else
    let encapsulated := base = 0 ∧ (len = 6 ∨ (len = 5 ∧ words[5]? = some 65535))
    let colon : Bytes := if i = 0 then [] else [58]
    if encapsulated ∧ i = 6 then colon ++ v4
    else if encapsulated ∧ i = 7 then []
    else colon ++ hexText (words.getD i 0)

def wordsOf : List UInt8 → List Nat
  | a :: b :: rest => (a.toNat * 256 + b.toNat) :: wordsOf rest
  | _ => []

def inetNtop6 (bytes : List UInt8) : Bytes :=
  let words := wordsOf bytes
  let (base, len) := bestRun words
  let v4 := inetNtop4 (bytes.getD 12 0) (bytes.getD 13 0) (bytes.getD 14 0) (bytes.getD 15 0)
  (List.range 8).flatMap (ntop6Group words base len v4) ++
    if 2 ≤ len ∧ base + len = 8 then [58] else []

structure Ipv4 where
  a : UInt8
  b : UInt8
  c : UInt8
  d : UInt8
  deriving DecidableEq

structure Ipv6 where
  bytes : List UInt8
  length_eq : bytes.length = 16
  deriving DecidableEq

inductive Ip where
  | v4 (address : Ipv4)
  | v6 (address : Ipv6)

inductive Address where
  | ip (ip : Ip)
  | pipe (path : Bytes)

def Ip.addressAsString : Ip → Bytes
  | .v4 address => inetNtop4 address.a address.b address.c address.d
  | .v6 address => inetNtop6 address.bytes

def isLoopbackAddress : Address → Bool
  | .pipe _ => false
  | .ip (.v4 address) => address = ⟨127, 0, 0, 1⟩
  | .ip (.v6 address) => address.bytes = List.replicate 15 0 ++ [1]

def isInternalV4 : List Nat → Bool
  | [a, b, c, d] =>
    a = 10 || (a = 192 && b = 168) || (a = 172 && 16 ≤ b && b ≤ 31) ||
      (a = 127 && b = 0 && c = 0 && d = 1)
  | _ => false

def isInternalV6 (bytes : List Nat) : Bool :=
  bytes.head? = some 253 || bytes = List.replicate 15 0 ++ [1]

def isInternalAddress (address : Bytes) : Bool :=
  match inetPton4 address with
  | some octets => isInternalV4 octets
  | none =>
    match inetPton6 address with
    | some bytes => isInternalV6 bytes
    | none => false

def AddressByte (c : UInt8) : Prop := (hexDigitValue c).isSome = true ∨ c = 58 ∨ c = 46

instance (c : UInt8) : Decidable (AddressByte c) := inferInstanceAs (Decidable (_ ∨ _))

variable {c : UInt8}

theorem addressByte_of_decimal (h : 48 ≤ c ∧ c ≤ 57) : AddressByte c := by
  refine .inl ?_
  rw [hexDigitValue, if_pos h]
  rfl

variable {src : Bytes} {out : List Nat}

theorem inetPton4Loop_bytes {octets : List Nat} {current : Option Nat}
    (h : inetPton4Loop octets current src = some out) : ∀ c ∈ src, AddressByte c := by
  induction src generalizing octets current with
  | nil => simp
  | cons c src ih =>
    simp only [inetPton4Loop] at h
    have hrest : AddressByte c ∧ ∃ octets current, inetPton4Loop octets current src = some out := by
      split at h
      · rename_i hdigit
        refine ⟨addressByte_of_decimal hdigit, ?_⟩
        split at h
        · exact ⟨_, _, h⟩
        · split at h
          · cases h
          · exact ⟨_, _, h⟩
      · split at h
        · rename_i hdot
          refine ⟨.inr (.inr hdot), ?_⟩
          split at h
          · split at h
            · cases h
            · exact ⟨_, _, h⟩
          · cases h
        · cases h
    obtain ⟨hc, octets', current', hloop⟩ := hrest
    intro c' hc'
    rcases mem_cons.mp hc' with rfl | hc'
    · exact hc
    · exact ih hloop c' hc'

theorem inetPton6Loop_bytes {p : Pton6} (hsuffix : src <:+ p.curtok)
    (h : inetPton6Loop p src = some out) : ∀ c ∈ src, AddressByte c := by
  induction src generalizing p with
  | nil => simp
  | cons c src ih =>
    have htail : src <:+ p.curtok := (suffix_cons c src).trans hsuffix
    intro c' hc'
    simp only [inetPton6Loop] at h
    split at h
    · rename_i digit hdigit
      split at h
      · cases h
      · rcases mem_cons.mp hc' with rfl | hc'
        · exact .inl (by rw [hdigit]; rfl)
        · refine ih ?_ h c' hc'
          exact htail
    · split at h
      · rename_i hcolon
        rcases mem_cons.mp hc' with rfl | hc'
        · exact .inr (.inl hcolon)
        · split at h
          · split at h
            · cases h
            · refine ih ?_ h c' hc'
              exact suffix_rfl
          · split at h
            · cases h
            · split at h
              · cases h
              · refine ih ?_ h c' hc'
                exact suffix_rfl
      · split at h
        · split at h
          · rename_i octets hoctets
            exact inetPton4Loop_bytes hoctets c' (hsuffix.mem hc')
          · cases h
        · cases h

theorem inetPton6_bytes (h : inetPton6 src = some out) : ∀ c ∈ src, AddressByte c := by
  unfold inetPton6 at h
  split at h
  · cases h
  · split at h
    · intro c hc
      rcases mem_cons.mp hc with rfl | hc
      · exact .inr (.inl rfl)
      · exact inetPton6Loop_bytes suffix_rfl h c hc
    · cases h
  · exact inetPton6Loop_bytes suffix_rfl h

theorem isInternalAddress_bytes {address : Bytes} (h : isInternalAddress address = true) :
    ∀ c ∈ address, AddressByte c := by
  unfold isInternalAddress at h
  split at h
  · rename_i octets hoctets
    exact inetPton4Loop_bytes hoctets
  · split at h
    · rename_i bytes hbytes
      exact inetPton6_bytes hbytes
    · cases h

theorem addressByte_decimal {n : Nat} (h : c ∈ decimal n) : AddressByte c := by
  obtain ⟨hlow, hhigh⟩ := mem_decimal h
  exact addressByte_of_decimal ⟨UInt8.le_iff_toNat_le.mpr hlow, UInt8.le_iff_toNat_le.mpr hhigh⟩

theorem addressByte_hexText {n : Nat} (h : c ∈ hexText n) : AddressByte c := by
  induction n using Nat.strongRecOn with
  | ind n ih =>
    have hdigit : ∀ k < 16, AddressByte (k.digitChar.toNat.toUInt8) := by decide
    unfold hexText at h ih
    rw [Nat.toDigits_eq_if (by decide)] at h
    split at h
    · rename_i hn
      obtain rfl : c = n.digitChar.toNat.toUInt8 := by simpa using h
      exact hdigit n hn
    · rename_i hn
      rw [map_append, mem_append] at h
      rcases h with h | h
      · exact ih (n / 16) (by omega) h
      · obtain rfl : c = (n % 16).digitChar.toNat.toUInt8 := by simpa using h
        exact hdigit _ (Nat.mod_lt n (by decide))

variable {x : UInt8}

theorem addressByte_inetNtop4 {a b d : UInt8} (h : x ∈ inetNtop4 a b c d) : AddressByte x := by
  unfold inetNtop4 at h
  simp only [mem_append, mem_cons] at h
  rcases h with ((h | rfl | h) | rfl | h) | rfl | h
  all_goals first | exact addressByte_decimal h | exact .inr (.inr rfl)

theorem addressByte_ntop6Group {words : List Nat} {base len i : Nat} {v4 : Bytes}
    (hv4 : ∀ x ∈ v4, AddressByte x) (h : x ∈ ntop6Group words base len v4 i) : AddressByte x := by
  have hcolon : x ∈ (if i = 0 then [] else [58] : Bytes) → AddressByte x := by
    intro hx
    split at hx
    · cases hx
    · exact .inr (.inl (mem_singleton.mp hx))
  unfold ntop6Group at h
  split at h
  · split at h
    · exact .inr (.inl (mem_singleton.mp h))
    · cases h
  · simp only at h
    split at h
    · rcases mem_append.mp h with h | h
      · exact hcolon h
      · exact hv4 x h
    · split at h
      · cases h
      · rcases mem_append.mp h with h | h
        · exact hcolon h
        · exact addressByte_hexText h

theorem addressByte_addressAsString {ip : Ip} (h : x ∈ ip.addressAsString) : AddressByte x := by
  cases ip with
  | v4 address => exact addressByte_inetNtop4 h
  | v6 address =>
    simp only [Ip.addressAsString, inetNtop6] at h
    rcases mem_append.mp h with h | h
    · obtain ⟨i, -, hi⟩ := mem_flatMap.mp h
      exact addressByte_ntop6Group (fun x hx => addressByte_inetNtop4 hx) hi
    · split at h
      · exact .inr (.inl (mem_singleton.mp h))
      · cases h

theorem ntop6Group_zero_ne_nil (words : List Nat) (base len : Nat) (v4 : Bytes) :
    ntop6Group words base len v4 0 ≠ [] := by
  unfold ntop6Group
  split
  · rename_i hrun
    have hbase : 0 = base := by omega
    simp [← hbase]
  · simp [hexText, Nat.toDigits_ne_nil]

theorem addressAsString_ne_nil (ip : Ip) : ip.addressAsString ≠ [] := by
  cases ip with
  | v4 address => simp [Ip.addressAsString, inetNtop4]
  | v6 address =>
    simp only [Ip.addressAsString, inetNtop6]
    intro h
    have hgroups := (append_eq_nil_iff.mp h).1
    exact ntop6Group_zero_ne_nil _ _ _ _ (flatMap_eq_nil_iff.mp hgroups 0 (by simp))

end Meliproxy.Envoy.Network
