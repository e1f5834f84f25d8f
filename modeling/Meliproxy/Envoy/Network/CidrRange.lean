import Meliproxy.Lib.Bits
import Meliproxy.Envoy.Network.Address

/-!
# Ranges of addresses

`network/cidr_range.cc`. A range keeps the first bits of an address, in network order, and an
address is in it if it begins with the same bits.
-/

namespace Meliproxy.Envoy.Network

open Lib List

inductive IpVersion where
  | v4
  | v6
  deriving DecidableEq

def Ip.version : Ip → IpVersion
  | .v4 _ => .v4
  | .v6 _ => .v6

def Ipv4.bytes (address : Ipv4) : List UInt8 := [address.a, address.b, address.c, address.d]

def ntohl (address : Ipv4) : UInt32 :=
  UInt32.ofNat (((address.a.toNat * 256 + address.b.toNat) * 256 + address.c.toNat) * 256 +
    address.d.toNat)

def htonl (n : UInt32) : Ipv4 :=
  ⟨UInt8.ofNat (n.toNat / 2 ^ 24), UInt8.ofNat (n.toNat / 2 ^ 16), UInt8.ofNat (n.toNat / 2 ^ 8),
    UInt8.ofNat n.toNat⟩

def Ip.bytes : Ip → List UInt8
  | .v4 address => address.bytes
  | .v6 address => address.bytes

def bitsOf (bytes : List UInt8) : List Bool := bytes.flatMap fun b => bits 8 b.toNat

def IpVersion.width : IpVersion → Nat
  | .v4 => 32
  | .v6 => 128

structure CidrRange where
  address : Option Address
  length : Int

def truncateBytes : Nat → List UInt8 → List UInt8
  | _, [] => []
  | length, b :: bytes =>
    if length = 0 then 0 :: truncateBytes 0 bytes
    else if length < 8 then (b &&& 255 <<< UInt8.ofNat (8 - length)) :: truncateBytes 0 bytes
    else b :: truncateBytes (length - 8) bytes

@[simp] theorem length_truncateBytes (length : Nat) (bytes : List UInt8) :
    (truncateBytes length bytes).length = bytes.length := by
  induction bytes generalizing length with
  | nil => rfl
  | cons b bytes ih =>
    rw [truncateBytes]
    split
    · simp [ih]
    · split <;> simp [ih]

def truncateV4 (address : Ipv4) (length : Nat) : Ipv4 :=
  htonl (ntohl address &&& 0xffffffff <<< UInt32.ofNat (32 - length))

def truncateV6 (address : Ipv6) (length : Nat) : Ipv6 :=
  ⟨truncateBytes length address.bytes, (length_truncateBytes _ _).trans address.length_eq⟩

def anyV6 : Ipv6 := ⟨List.replicate 16 0, length_replicate⟩

namespace CidrRange

def truncateIpAddressAndLength (address : Option Address) (length : Int) : Option Address × Int :=
  if length < 0 then (none, -1)
  else
    match address with
    | some (.ip (.v4 v4)) =>
      if 32 ≤ length then (address, 32)
      else if length = 0 then (some (.ip (.v4 ⟨0, 0, 0, 0⟩)), length)
      else (some (.ip (.v4 (truncateV4 v4 length.toNat))), length)
    | some (.ip (.v6 v6)) =>
      if 128 ≤ length then (address, 128)
      else if length = 0 then (some (.ip (.v6 anyV6)), length)
      else (some (.ip (.v6 (truncateV6 v6 length.toNat))), length)
    | _ => (none, -1)

def create (address : Option Address) (length : Int) : CidrRange :=
  let (address, length) := truncateIpAddressAndLength address length
  ⟨address, length⟩

def sameBytes : Nat → List UInt8 → List UInt8 → Bool
  | length, b :: bytes, b' :: bytes' =>
    if length < 8 then b.toNat >>> (8 - length) = b'.toNat >>> (8 - length)
    else if b = b' then if length = 8 then true else sameBytes (length - 8) bytes bytes'
    else false
  | _, _, _ => false

def isValid (range : CidrRange) : Bool := 0 ≤ range.length

def isInRange (range : CidrRange) (address : Address) : Bool :=
  match range.address, address with
  | some (.ip (.v4 ours)), .ip (.v4 theirs) =>
    range.isValid && (range.length = 0 ||
      ntohl theirs >>> UInt32.ofNat (32 - range.length.toNat) =
        ntohl ours >>> UInt32.ofNat (32 - range.length.toNat))
  | some (.ip (.v6 ours)), .ip (.v6 theirs) =>
    range.isValid && (range.length = 0 || sameBytes range.length.toNat theirs.bytes ours.bytes)
  | _, _ => false

def equal (range other : CidrRange) : Bool :=
  if range.length ≠ other.length || range.length = -1 then false
  else
    match range.address, other.address with
    | some (.ip (.v4 ours)), some (.ip (.v4 theirs)) => ours = theirs
    | some (.ip (.v6 ours)), some (.ip (.v6 theirs)) => ours = theirs
    | _, _ => false

end CidrRange

theorem bitsOf_cons (b : UInt8) (bytes : List UInt8) :
    bitsOf (b :: bytes) = bits 8 b.toNat ++ bitsOf bytes := flatMap_cons

variable {n : Nat}

theorem take_byte {b b' : UInt8} (hn : n ≤ 8) :
    (bits 8 b.toNat).take n = (bits 8 b'.toNat).take n ↔
      b.toNat >>> (8 - n) = b'.toNat >>> (8 - n) := take_bits_eq_iff hn b.toNat_lt b'.toNat_lt

theorem bits_byte_inj {b b' : UInt8} : bits 8 b.toNat = bits 8 b'.toNat ↔ b = b' := by
  have hwhole : _ ↔ b.toNat >>> 0 = b'.toNat >>> 0 := take_byte (Nat.le_refl 8)
  rw [take_of_length_le (by simp), take_of_length_le (by simp)] at hwhole
  rw [hwhole]
  exact UInt8.toNat_inj

theorem take_bitsOf_cons (b : UInt8) (bytes : List UInt8) (n : Nat) : (bitsOf (b :: bytes)).take n =
      if n < 8 then (bits 8 b.toNat).take n else bits 8 b.toNat ++ (bitsOf bytes).take (n - 8) := by
  rw [bitsOf_cons]
  split
  · exact take_append_of_le_length (by rw [length_bits]; omega)
  · rw [take_append, length_bits, take_of_length_le (by rw [length_bits]; omega)]

theorem sameBytes_iff {bytes bytes' : List UInt8} (hpos : 0 < n)
    (hn : n ≤ 8 * bytes.length) (hlength : bytes.length = bytes'.length) :
    CidrRange.sameBytes n bytes bytes' = true ↔ (bitsOf bytes).take n = (bitsOf bytes').take n := by
  induction bytes generalizing n bytes' with
  | nil =>
    rw [length_nil] at hn
    omega
  | cons b bytes ih =>
    cases bytes' with
    | nil => cases hlength
    | cons b' bytes' =>
      rw [take_bitsOf_cons, take_bitsOf_cons, CidrRange.sameBytes]
      by_cases hsmall : n < 8
      · simp only [if_pos hsmall, decide_eq_true_eq]
        exact (take_byte (Nat.le_of_lt hsmall)).symm
      · simp only [if_neg hsmall]
        by_cases hsame : b = b'
        · subst hsame
          rw [if_pos rfl, append_right_inj]
          by_cases height : n = 8
          · simp [height]
          · rw [if_neg height]
            apply ih
            · omega
            · rw [length_cons] at hn
              omega
            · exact Nat.succ.inj hlength
        · rw [if_neg hsame]
          constructor
          · exact nofun
          · intro heq
            have hbits := (append_inj heq (by simp)).1
            exact absurd (bits_byte_inj.mp hbits) hsame

theorem truncate_byte {b : UInt8} (hn : n < 8) (hpos : 0 < n) :
    (b &&& 255 <<< UInt8.ofNat (8 - n)).toNat >>> (8 - n) = b.toNat >>> (8 - n) := by
  have hshift : (8 - n) % 2 ^ 8 % 8 = 8 - n := by omega
  rw [UInt8.toNat_and, UInt8.toNat_shiftLeft, UInt8.toNat_ofNat', hshift]
  exact and_mask_shiftRight b.toNat_lt

theorem take_truncateBytes (n : Nat) (bytes : List UInt8) :
    (bitsOf (truncateBytes n bytes)).take n = (bitsOf bytes).take n := by
  induction bytes generalizing n with
  | nil => rfl
  | cons b bytes ih =>
    rw [truncateBytes]
    by_cases hzero : n = 0
    · rw [hzero, take_zero, take_zero]
    · rw [if_neg hzero]
      by_cases hsmall : n < 8
      · rw [if_pos hsmall, take_bitsOf_cons, take_bitsOf_cons, if_pos hsmall, if_pos hsmall]
        exact (take_byte (Nat.le_of_lt hsmall)).mpr (truncate_byte hsmall (by omega))
      · rw [if_neg hsmall, take_bitsOf_cons, take_bitsOf_cons, if_neg hsmall, if_neg hsmall, ih]

theorem truncateBytes_idem (n : Nat) (bytes : List UInt8) :
    truncateBytes n (truncateBytes n bytes) = truncateBytes n bytes := by
  induction bytes generalizing n with
  | nil => rfl
  | cons b bytes ih =>
    by_cases hzero : n = 0
    · subst hzero
      simp [truncateBytes, ih]
    · by_cases hsmall : n < 8
      · simp only [truncateBytes, if_neg hzero, if_pos hsmall, ih, UInt8.and_assoc, UInt8.and_self]
      · simp only [truncateBytes, if_neg hzero, if_neg hsmall, ih]

theorem toNat_ntohl (address : Ipv4) : (ntohl address).toNat =
    ((address.a.toNat * 256 + address.b.toNat) * 256 + address.c.toNat) * 256 +
      address.d.toNat := by
  have ha := address.a.toNat_lt
  have hb := address.b.toNat_lt
  have hc := address.c.toNat_lt
  have hd := address.d.toNat_lt
  rw [ntohl, UInt32.toNat_ofNat', Nat.mod_eq_of_lt (by omega)]

theorem ntohl_htonl (n : UInt32) : ntohl (htonl n) = n := by
  have hn := n.toNat_lt
  apply UInt32.toNat.inj
  rw [toNat_ntohl]
  simp only [htonl, UInt8.toNat_ofNat']
  omega

theorem bitsOf_ipv4 (address : Ipv4) : bitsOf address.bytes = bits 32 (ntohl address).toNat := by
  have hb : bits 16 (address.a.toNat * 256 + address.b.toNat) =
      bits 8 address.a.toNat ++ bits 8 address.b.toNat :=
    bits_append 8 8 address.a.toNat address.b.toNat address.b.toNat_lt
  have hc : bits 24 ((address.a.toNat * 256 + address.b.toNat) * 256 + address.c.toNat) =
      bits 16 (address.a.toNat * 256 + address.b.toNat) ++ bits 8 address.c.toNat :=
    bits_append 16 8 _ address.c.toNat address.c.toNat_lt
  have hd : bits 32 (((address.a.toNat * 256 + address.b.toNat) * 256 + address.c.toNat) * 256 +
      address.d.toNat) =
      bits 24 ((address.a.toNat * 256 + address.b.toNat) * 256 + address.c.toNat) ++
        bits 8 address.d.toNat := bits_append 24 8 _ address.d.toNat address.d.toNat_lt
  rw [toNat_ntohl, hd, hc, hb]
  simp [bitsOf, Ipv4.bytes]

theorem shiftRight_eq_iff {x y : UInt32} (hpos : 0 < n) :
    x >>> UInt32.ofNat (32 - n) = y >>> UInt32.ofNat (32 - n) ↔
      x.toNat >>> (32 - n) = y.toNat >>> (32 - n) := by
  have hshift : (32 - n) % 2 ^ 32 % 32 = 32 - n := by omega
  rw [← UInt32.toNat_inj, UInt32.toNat_shiftRight, UInt32.toNat_shiftRight, UInt32.toNat_ofNat',
    hshift]

theorem take_ipv4 {address other : Ipv4} (hpos : 0 < n) (hn : n ≤ 32) :
    (bitsOf address.bytes).take n = (bitsOf other.bytes).take n ↔
      ntohl address >>> UInt32.ofNat (32 - n) = ntohl other >>> UInt32.ofNat (32 - n) := by
  rw [bitsOf_ipv4, bitsOf_ipv4, shiftRight_eq_iff hpos]
  exact take_bits_eq_iff hn (ntohl address).toNat_lt (ntohl other).toNat_lt

theorem take_truncateV4 {address : Ipv4} (hpos : 0 < n) (hn : n < 32) :
    (bitsOf (truncateV4 address n).bytes).take n = (bitsOf address.bytes).take n := by
  have hshift : (32 - n) % 2 ^ 32 % 32 = 32 - n := by omega
  rw [take_ipv4 hpos (Nat.le_of_lt hn), truncateV4, ntohl_htonl, shiftRight_eq_iff hpos,
    UInt32.toNat_and, UInt32.toNat_shiftLeft, UInt32.toNat_ofNat', hshift]
  exact and_mask_shiftRight (ntohl address).toNat_lt

theorem truncateV4_idem (address : Ipv4) (n : Nat) :
    truncateV4 (truncateV4 address n) n = truncateV4 address n := by
  rw [truncateV4, truncateV4, ntohl_htonl, UInt32.and_assoc, UInt32.and_self]

def Ip.truncate (ip : Ip) (n : Nat) : Ip :=
  match ip with
  | .v4 address =>
    if n = 32 then ip else if n = 0 then .v4 ⟨0, 0, 0, 0⟩ else .v4 (truncateV4 address n)
  | .v6 address =>
    if n = 128 then ip else if n = 0 then .v6 anyV6 else .v6 (truncateV6 address n)

variable {ip other : Ip} {n : Nat}

theorem create_eq (hn : n ≤ ip.version.width) :
    CidrRange.create (some (.ip ip)) n = ⟨some (.ip (ip.truncate n)), n⟩ := by
  have hnonneg : ¬ (n : Int) < 0 := by omega
  cases ip with
  | v4 address =>
    have hlt : n ≤ 32 := hn
    rw [CidrRange.create, CidrRange.truncateIpAddressAndLength, if_neg hnonneg]
    simp only [Ip.truncate]
    by_cases hwhole : n = 32
    · subst hwhole
      rfl
    · rw [if_neg (by omega), if_neg hwhole]
      by_cases hzero : n = 0
      · subst hzero
        rfl
      · rw [if_neg (by omega), if_neg hzero]
        rfl
  | v6 address =>
    have hlt : n ≤ 128 := hn
    rw [CidrRange.create, CidrRange.truncateIpAddressAndLength, if_neg hnonneg]
    simp only [Ip.truncate]
    by_cases hwhole : n = 128
    · subst hwhole
      rfl
    · rw [if_neg (by omega), if_neg hwhole]
      by_cases hzero : n = 0
      · subst hzero
        rfl
      · rw [if_neg (by omega), if_neg hzero]
        rfl

theorem version_truncate (ip : Ip) (n : Nat) : (ip.truncate n).version = ip.version := by
  cases ip with
  | v4 address | v6 address =>
    simp only [Ip.truncate]
    split
    · rfl
    · split <;> rfl

theorem take_truncate (hn : n ≤ ip.version.width) :
    (bitsOf (ip.truncate n).bytes).take n = (bitsOf ip.bytes).take n := by
  cases ip with
  | v4 address =>
    simp only [Ip.truncate]
    by_cases hwhole : n = 32
    · rw [if_pos hwhole]
    · rw [if_neg hwhole]
      by_cases hzero : n = 0
      · rw [hzero, take_zero, take_zero]
      · rw [if_neg hzero]
        exact take_truncateV4 (by omega) (Nat.lt_of_le_of_ne hn hwhole)
  | v6 address =>
    simp only [Ip.truncate]
    by_cases hwhole : n = 128
    · rw [if_pos hwhole]
    · rw [if_neg hwhole]
      by_cases hzero : n = 0
      · rw [hzero, take_zero, take_zero]
      · rw [if_neg hzero]
        exact take_truncateBytes n address.bytes

theorem truncate_idem (ip : Ip) (n : Nat) : (ip.truncate n).truncate n = ip.truncate n := by
  cases ip with
  | v4 address =>
    by_cases hwhole : n = 32
    · simp [Ip.truncate, hwhole]
    · by_cases hzero : n = 0
      · simp [Ip.truncate, hzero]
      · simp [Ip.truncate, hwhole, hzero, truncateV4_idem]
  | v6 address =>
    by_cases hwhole : n = 128
    · simp [Ip.truncate, hwhole]
    · by_cases hzero : n = 0
      · simp [Ip.truncate, hzero]
      · simp [Ip.truncate, hwhole, hzero, truncateV6, truncateBytes_idem]

theorem isInRange_iff (hn : n ≤ ip.version.width) (address : Address) :
    CidrRange.isInRange ⟨some (.ip ip), n⟩ address = true ↔ ∃ other, address = .ip other ∧
      other.version = ip.version ∧ (bitsOf other.bytes).take n = (bitsOf ip.bytes).take n := by
  cases address with
  | pipe path => simp [CidrRange.isInRange]
  | ip other =>
    cases ip with
    | v4 ours =>
      cases other with
      | v4 theirs =>
        by_cases h : n = 0
        · simp [CidrRange.isInRange, CidrRange.isValid, h, Ip.version]
        · have htake : (bitsOf theirs.bytes).take n = (bitsOf ours.bytes).take n ↔ _ :=
            take_ipv4 (by omega) hn
          simp [CidrRange.isInRange, CidrRange.isValid, h, Ip.version, Ip.bytes, htake]
      | v6 theirs => simp [CidrRange.isInRange, Ip.version]
    | v6 ours =>
      cases other with
      | v4 theirs => simp [CidrRange.isInRange, Ip.version]
      | v6 theirs =>
        by_cases h : n = 0
        · simp [CidrRange.isInRange, CidrRange.isValid, h, Ip.version]
        · have hwidth : n ≤ 8 * theirs.bytes.length := by
            rw [theirs.length_eq]
            exact hn
          have hsame : CidrRange.sameBytes n theirs.bytes ours.bytes = true ↔ _ :=
            sameBytes_iff (by omega) hwidth (theirs.length_eq.trans ours.length_eq.symm)
          simp [CidrRange.isInRange, CidrRange.isValid, h, Ip.version, Ip.bytes, hsame]

/-- A range is what its first bits are. -/
theorem cidrRange_create (ip : Ip) (n : Nat) (hn : n ≤ ip.version.width) :
    (∀ address, (CidrRange.create (some (.ip ip)) n).isInRange address = true ↔
      ∃ other, address = .ip other ∧ other.version = ip.version ∧
        (bitsOf ip.bytes).take n = (bitsOf other.bytes).take n) ∧
    CidrRange.create (CidrRange.create (some (.ip ip)) n).address n =
      CidrRange.create (some (.ip ip)) n ∧
    (CidrRange.create (CidrRange.create (some (.ip ip)) n).address n).equal
      (CidrRange.create (some (.ip ip)) n) = true ∧
    (n = 0 → ∀ other : Ip, other.version = ip.version →
      (CidrRange.create (some (.ip ip)) n).isInRange (.ip other) = true) := by
  have hversion : n ≤ (ip.truncate n).version.width := by
    rw [version_truncate]
    exact hn
  have hrange (address : Address) :
      (CidrRange.create (some (.ip ip)) n).isInRange address = true ↔
        ∃ other, address = .ip other ∧ other.version = ip.version ∧
          (bitsOf ip.bytes).take n = (bitsOf other.bytes).take n := by
    rw [create_eq hn, isInRange_iff hversion, take_truncate hn, version_truncate]
    simp only [eq_comm (a := (bitsOf ip.bytes).take n)]
  have hidem : CidrRange.create (CidrRange.create (some (.ip ip)) n).address n =
      CidrRange.create (some (.ip ip)) n := by
    rw [create_eq hn, create_eq hversion, truncate_idem]
  refine ⟨hrange, hidem, ?_, ?_⟩
  · rw [hidem, create_eq hn]
    unfold CidrRange.equal
    cases ip.truncate n with
    | v4 | v6 => simp
  · rintro rfl other hother
    rw [hrange]
    exact ⟨other, rfl, hother, rfl⟩

def localAddress : Ip := .v4 ⟨127, 0, 0, 1⟩

theorem cidrRange_create_local : (CidrRange.create (some (.ip localAddress)) (8 : Nat)).isInRange
    (.ip (.v4 ⟨127, 9, 9, 9⟩)) = true := by
  rw [(cidrRange_create localAddress 8 (by decide)).1]
  exact ⟨_, rfl, rfl, by decide⟩

/-- An address of the other version is in no range, not even in one without bits. -/
theorem not_isInRange_of_version : ¬ ∀ address,
    (CidrRange.create (some (.ip localAddress)) 0).isInRange address = true := by
  intro h
  exact absurd (h (.ip (.v6 anyV6))) (by decide)

end Meliproxy.Envoy.Network
