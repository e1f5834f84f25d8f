import Meliproxy.Lib.Sort
import Meliproxy.Lib.Text
import Meliproxy.Envoy.Upstream.LoadBalancer

/-!
# The ring hash load balancer

`upstream/ring_hash_lb.cc`. The addresses of the hosts and `std::hash` are parameters. `std::sort`
may leave entries of the same hash in another order than `sortBy`, so the search is about any sorted
ring.
-/

namespace Meliproxy.Envoy.Upstream

open Lib List Option

variable {Host : Type}

structure RingEntry (Host : Type) where
  hash : UInt64
  host : Host

structure Ring (Host : Type) where
  entries : List (RingEntry Host)
  sorted : entries.Pairwise fun a b => a.hash ≤ b.hash

/-- What the entries are made of: the text of an address and the hash of a key. -/
structure RingHashing (Host : Type) where
  address : Host → Bytes
  hash : Bytes → UInt64

namespace Ring

def hashesPerHost (minRingSize hosts : Nat) : Nat :=
  if hosts < minRingSize then
    minRingSize / hosts + if minRingSize % hosts ≠ 0 then 1 else 0
  else 1

def entriesOf (hashing : RingHashing Host) (hashesPerHost : Nat) (host : Host) :
    List (RingEntry Host) :=
  (List.range hashesPerHost).map fun i =>
    ⟨hashing.hash (hashing.address host ++ 95 :: decimal i), host⟩

def create (hashing : RingHashing Host) (minRingSize : Nat) (hosts : List Host) : Ring Host where
  entries := sortBy RingEntry.hash
    (hosts.flatMap (entriesOf hashing (hashesPerHost minRingSize hosts.length)))
  sorted := pairwise_le_sortBy RingEntry.hash _

/-- A sum of `int64_t`, which must not overflow. -/
def addInt64 (m n : Int) : Option Int :=
  if -2 ^ 63 ≤ m + n ∧ m + n < 2 ^ 63 then some (m + n) else none

variable (ring : Ring Host)

def entryAt (i : Int) : Option (RingEntry Host) :=
  if 0 ≤ i then ring.entries[i.toNat]? else none

/-- `midval1`, which is zero before the first entry. -/
def hashBefore (midp : Int) : Option UInt64 :=
  if midp = 0 then some 0 else (ring.entryAt (midp - 1)).map RingEntry.hash

/-- The loop of `chooseHost`. There is `none` for an index outside of the ring, an overflow and a
loop that does not end. -/
def search (ring : Ring Host) (h : UInt64) : Nat → Int → Int → Option Host
  | 0, _, _ => none
  | fuel + 1, lowp, highp => do
    let sum ← addInt64 lowp highp
    let midp := sum.tdiv 2
    if midp = ring.entries.length then (ring.entryAt 0).map RingEntry.host
    else
      let entry ← ring.entryAt midp
      let midval1 ← ring.hashBefore midp
      if h ≤ entry.hash ∧ midval1 < h then some entry.host
      else if entry.hash < h then
        let lowp ← addInt64 midp 1
        if highp < lowp then (ring.entryAt 0).map RingEntry.host else search ring h fuel lowp highp
      else
        let highp ← addInt64 midp (-1)
        if highp < lowp then (ring.entryAt 0).map RingEntry.host else search ring h fuel lowp highp

/-- The null pointer is an inner `none`. -/
def chooseHost (hashKey : Option UInt64) (random : UInt64) (fuel : Nat) : Option (Option Host) :=
  if ring.entries.isEmpty then some none
  else (ring.search (hashKey.getD random) fuel 0 ring.entries.length).map some

/-- The first host whose hash is at least `h`, and the first of the ring if there is none. -/
def owner (h : UInt64) : Option Host :=
  ((ring.entries.find? fun entry => h ≤ entry.hash).or ring.entries.head?).map RingEntry.host

variable {ring : Ring Host} {h : UInt64} {lowp highp : Int}

theorem addInt64_eq {m n : Int} (hlow : -2 ^ 63 ≤ m + n) (hhigh : m + n < 2 ^ 63) :
    addInt64 m n = some (m + n) := if_pos ⟨hlow, hhigh⟩

theorem entryAt_natCast (i : Nat) : ring.entryAt i = ring.entries[i]? := by
  rw [entryAt, if_pos (Int.natCast_nonneg i), Int.toNat_natCast]

/-- The place of the owner, and the size of the ring if no hash is large enough. -/
def place (ring : Ring Host) (h : UInt64) : Nat := lowerBound RingEntry.hash h ring.entries

theorem place_le : ring.place h ≤ ring.entries.length := findIdx_le_length

variable {entry : RingEntry Host}

theorem le_hash_iff {i : Nat} (hentry : ring.entries[i]? = some entry) :
    h ≤ entry.hash ↔ ring.place h ≤ i := le_iff_lowerBound_le ring.sorted hentry

theorem owner_eq : ring.owner h =
    (ring.entries[ring.place h]?.or ring.entries.head?).map RingEntry.host := by
  rw [owner, find?_eq_getElem?_findIdx]
  rfl

theorem owner_of_place (hentry : ring.entries[ring.place h]? = some entry) :
    ring.owner h = some entry.host := by
  rw [owner_eq, hentry]
  rfl

theorem owner_of_length (hplace : ring.place h = ring.entries.length) :
    ring.owner h = (ring.entryAt 0).map RingEntry.host := by
  rw [owner_eq, hplace, getElem?_eq_none (Nat.le_refl _), head?_eq_getElem?]
  rfl

theorem owner_isSome (hne : ring.entries ≠ []) : (ring.owner h).isSome = true := by
  obtain ⟨entry, rest, hentries⟩ := exists_cons_of_ne_nil hne
  rw [owner_eq, isSome_map, isSome_or, hentries, head?_cons, isSome_some, Bool.or_true]

theorem midp_eq (hlow : 0 ≤ lowp) (hle : lowp ≤ highp) :
    ∃ midp : Nat, (lowp + highp).tdiv 2 = midp ∧ lowp ≤ midp ∧ 2 * (midp : Int) ≤ lowp + highp := by
  refine ⟨((lowp + highp) / 2).toNat, ?_, ?_, ?_⟩
  · rw [Int.tdiv_eq_ediv_of_nonneg (by omega)]
    omega
  · omega
  · omega

theorem hashBefore_zero : ring.hashBefore 0 = some 0 := rfl

theorem hashBefore_succ (i : Nat) :
    ring.hashBefore ((i + 1 : Nat) : Int) = (ring.entries[i]?).map RingEntry.hash := by
  rw [hashBefore, if_neg (by omega), show ((i + 1 : Nat) : Int) - 1 = i by omega, entryAt_natCast]

variable {fuel : Nat}

theorem search_pass {midp : Nat} {midval1 : UInt64}
    (hsum : addInt64 lowp highp = some (lowp + highp)) (hmidp : (lowp + highp).tdiv 2 = midp)
    (hsize : ring.entries.length < 2 ^ 62) (hentry : ring.entries[midp]? = some entry)
    (hbefore : ring.hashBefore midp = some midval1) : ring.search h (fuel + 1) lowp highp =
      if h ≤ entry.hash ∧ midval1 < h then some entry.host else if entry.hash < h then
        if highp < midp + 1 then (ring.entryAt 0).map RingEntry.host
        else ring.search h fuel (midp + 1) highp
      else if (midp : Int) + -1 < lowp then (ring.entryAt 0).map RingEntry.host
      else ring.search h fuel lowp (midp + -1) := by
  have hlt : midp < ring.entries.length := (List.getElem?_eq_some_iff.mp hentry).1
  have hne : ¬(midp : Int) = ring.entries.length := by omega
  have hup : addInt64 midp 1 = some ((midp : Int) + 1) := addInt64_eq (by omega) (by omega)
  have hdown : addInt64 midp (-1) = some ((midp : Int) + -1) := addInt64_eq (by omega) (by omega)
  simp [search, hsum, hmidp, hne, hentry, hbefore, hup, hdown, entryAt_natCast]

theorem search_first (hsum : addInt64 lowp highp = some (lowp + highp))
    (hmidp : (lowp + highp).tdiv 2 = 0) (hsize : ring.entries.length < 2 ^ 62) (hlow : 0 ≤ lowp)
    (hplace : ring.place h = 0) (hentry : ring.entries[0]? = some entry) :
    ring.search h (fuel + 1) lowp highp = ring.owner h := by
  have howner := owner_of_place (h := h) (hplace ▸ hentry)
  have hle : h ≤ entry.hash := (le_hash_iff hentry).mpr (Nat.le_of_eq hplace)
  rw [search_pass hsum (by exact_mod_cast hmidp) hsize hentry hashBefore_zero, howner]
  split
  · rfl
  rw [if_neg (UInt64.not_lt.mpr hle), if_pos (by omega)]
  exact congrArg (Option.map RingEntry.host) ((entryAt_natCast 0).trans hentry)

/-- The place of the owner stays between `lowp` and `highp`, which come closer in every pass. -/
theorem search_eq_owner (hsize : ring.entries.length < 2 ^ 62) (hlow : 0 ≤ lowp)
    (hlowPlace : lowp ≤ ring.place h) (hplaceHigh : ring.place h ≤ highp)
    (hhigh : highp ≤ ring.entries.length) (hfuel : highp - lowp < fuel) :
    ring.search h fuel lowp highp = ring.owner h := by
  induction fuel generalizing lowp highp with
  | zero => omega
  | succ fuel ih =>
    have hsum : addInt64 lowp highp = some (lowp + highp) := addInt64_eq (by omega) (by omega)
    obtain ⟨midp, hmidp, hlowMidp, hmidpHigh⟩ := midp_eq hlow (Int.le_trans hlowPlace hplaceHigh)
    by_cases hend : midp = ring.entries.length
    · rw [owner_of_length (h := h) (by omega)]
      simp [search, hsum, hmidp, hend]
    have hlt : midp < ring.entries.length := by omega
    obtain ⟨entry, hentry⟩ : ∃ entry, ring.entries[midp]? = some entry :=
      ⟨_, getElem?_eq_getElem hlt⟩
    have hplace := le_hash_iff (h := h) hentry
    by_cases hfirst : midp = 0 ∧ ring.place h = 0
    · obtain ⟨rfl, hzero⟩ := hfirst
      exact search_first hsum hmidp hsize hlow hzero hentry
    obtain ⟨midval1, hbefore, hbeforePlace⟩ :
        ∃ midval1, ring.hashBefore midp = some midval1 ∧ (midval1 < h ↔ midp ≤ ring.place h) := by
      cases midp with
      | zero =>
        refine ⟨0, hashBefore_zero, ?_⟩
        have hless : entry.hash < h := by
          rw [← UInt64.not_le, hplace]
          omega
        exact iff_of_true (UInt64.lt_of_le_of_lt (UInt64.zero_le ..) hless) (Nat.zero_le _)
      | succ before =>
        have hentry' : ring.entries[before]? = some ring.entries[before] :=
          getElem?_eq_getElem (by omega)
        refine ⟨ring.entries[before].hash, ?_, ?_⟩
        · rw [hashBefore_succ, hentry']
          rfl
        · rw [← UInt64.not_le, le_hash_iff hentry']
          omega
    rw [search_pass hsum hmidp hsize hentry hbefore]
    split
    · rename_i hfound
      have hmid : ring.place h = midp := by
        have hle := hplace.mp hfound.1
        have hge := hbeforePlace.mp hfound.2
        omega
      exact (owner_of_place (hmid ▸ hentry)).symm
    rename_i hnotFound
    split
    · rename_i hless
      have hright : midp < ring.place h := by
        rw [← UInt64.not_le, hplace] at hless
        omega
      rw [if_neg (by omega)]
      exact ih (by omega) (by omega) hplaceHigh hhigh (by omega)
    · rename_i hless
      have hleft : ring.place h < midp := by
        by_contra hge
        exact hnotFound ⟨UInt64.not_lt.mp hless, hbeforePlace.mpr (Nat.le_of_not_lt hge)⟩
      rw [if_neg (by omega)]
      exact ih hlow hlowPlace (by omega) (by omega) (by omega)

theorem search_eq (hsize : ring.entries.length < 2 ^ 62) (hfuel : ring.entries.length < fuel) :
    ring.search h fuel 0 ring.entries.length = ring.owner h := by
  have hplace : ring.place h ≤ ring.entries.length := place_le
  exact search_eq_owner hsize (Int.le_refl _) (by omega) (by omega) (Int.le_refl _) (by omega)

/-- A key is owned by the first entry of at least its hash, around the ring. -/
theorem search_finds_owner (ring : Ring Host) (h : UInt64) (hne : ring.entries ≠ [])
    (hsize : ring.entries.length < 2 ^ 62) :
    ∃ host, ring.owner h = some host ∧ ∀ fuel, ring.entries.length < fuel →
      ring.search h fuel 0 ring.entries.length = some host := by
  obtain ⟨host, hhost⟩ := isSome_iff_exists.mp (owner_isSome (h := h) hne)
  refine ⟨host, hhost, ?_⟩
  intro fuel hfuel
  rw [search_eq hsize hfuel, hhost]

def sampleRing : Ring Nat where
  entries := [⟨3, 0⟩, ⟨7, 1⟩, ⟨7, 2⟩, ⟨9, 0⟩]
  sorted := by decide

theorem search_finds_owner_sample : ∃ host, sampleRing.owner 4 = some host ∧
      ∀ fuel, 4 < fuel → sampleRing.search 4 fuel 0 4 = some host :=
  search_finds_owner sampleRing 4 (by decide) (by decide)

example : sampleRing.search 4 5 0 4 = some 1 := by decide

theorem chooseHost_eq_owner (ring : Ring Host) (hashKey : Option UInt64) (random : UInt64)
    (hsize : ring.entries.length < 2 ^ 62) (hfuel : ring.entries.length < fuel) :
    ring.chooseHost hashKey random fuel = some (ring.owner (hashKey.getD random)) := by
  unfold chooseHost
  split
  · rename_i hempty
    rw [owner_eq, List.isEmpty_iff.mp hempty]
    rfl
  · rename_i hne
    have hsome := owner_isSome (h := hashKey.getD random) (fun h => hne (List.isEmpty_iff.mpr h))
    obtain ⟨host, hhost⟩ := isSome_iff_exists.mp hsome
    rw [search_eq hsize hfuel, hhost]
    rfl

variable {hashing : RingHashing Host} {minRingSize : Nat} {hosts : List Host} {host : Host}

theorem hashesPerHost_pos (minRingSize : Nat) (hhosts : 0 < hosts.length) :
    0 < hashesPerHost minRingSize hosts.length := by
  unfold hashesPerHost
  split
  · rename_i hlt
    exact Nat.lt_of_lt_of_le (Nat.div_pos (Nat.le_of_lt hlt) hhosts) (Nat.le_add_right _ _)
  · exact Nat.one_pos

theorem mem_create_iff : entry ∈ (create hashing minRingSize hosts).entries ↔
      ∃ host ∈ hosts, ∃ i < hashesPerHost minRingSize hosts.length,
        ⟨hashing.hash (hashing.address host ++ 95 :: decimal i), host⟩ = entry := by
  rw [create, (sortBy_perm RingEntry.hash _).mem_iff]
  simp [entriesOf]

theorem owner_mem (h : ring.owner h = some host) : ∃ entry ∈ ring.entries, entry.host = host := by
  obtain ⟨entry, hentry, rfl⟩ := map_eq_some_iff.mp h
  refine ⟨entry, ?_, rfl⟩
  rcases or_eq_some_iff.mp hentry with hfind | ⟨-, hhead⟩
  · exact mem_of_find?_eq_some hfind
  · exact mem_of_head? hhead

theorem create_entries_ne_nil (hashing : RingHashing Host) (minRingSize : Nat)
    (hhosts : hosts ≠ []) : (create hashing minRingSize hosts).entries ≠ [] := by
  obtain ⟨first, hfirst⟩ := exists_mem_of_ne_nil hosts hhosts
  have hpos := hashesPerHost_pos minRingSize (length_pos_of_ne_nil hhosts)
  exact ne_nil_of_mem (mem_create_iff.mpr ⟨first, hfirst, 0, hpos, rfl⟩)

theorem owner_create (hashing : RingHashing Host) (minRingSize : Nat) (hosts : List Host)
    (key : UInt64) : (hosts = [] ∧ (create hashing minRingSize hosts).owner key = none) ∨
      ∃ host ∈ hosts, (create hashing minRingSize hosts).owner key = some host := by
  by_cases hhosts : hosts = []
  · subst hhosts
    exact .inl ⟨rfl, rfl⟩
  · have hsome := owner_isSome (h := key) (create_entries_ne_nil hashing minRingSize hhosts)
    obtain ⟨host, hhost⟩ := isSome_iff_exists.mp hsome
    obtain ⟨entry, hentry, rfl⟩ := owner_mem hhost
    obtain ⟨host, hmem, i, -, rfl⟩ := mem_create_iff.mp hentry
    exact .inr ⟨host, hmem, hhost⟩

end Ring

structure RingHashLoadBalancer (Host : Type) where
  allHostsRing : Ring Host
  healthyHostsRing : Ring Host

namespace RingHashLoadBalancer

def refresh (hashing : RingHashing Host) (minRingSize : Nat) (hostSet : HostSet Host) :
    RingHashLoadBalancer Host where
  allHostsRing := .create hashing minRingSize hostSet.hosts
  healthyHostsRing := .create hashing minRingSize hostSet.healthyHosts

def chooseHost (s : RingHashLoadBalancer Host) (hostSet : HostSet Host) (runtime : RuntimeValues)
    (hashKey : Option UInt64) (random : UInt64) (fuel : Nat) : Option (Option Host) :=
  if isGlobalPanic hostSet runtime then s.allHostsRing.chooseHost hashKey random fuel
  else s.healthyHostsRing.chooseHost hashKey random fuel

def hostsToUse (hostSet : HostSet Host) (runtime : RuntimeValues) : List Host :=
  if isGlobalPanic hostSet runtime then hostSet.hosts else hostSet.healthyHosts

/-- After an update a host of the list in use is chosen, and none only if the list has none. -/
theorem chooseHost_refresh (hashing : RingHashing Host) {minRingSize : Nat} {hostSet : HostSet Host}
    {runtime : RuntimeValues} (hashKey : Option UInt64) (random : UInt64) {fuel : Nat}
    (hsize : (Ring.create hashing minRingSize (hostsToUse hostSet runtime)).entries.length < 2 ^ 62)
    (hfuel : (Ring.create hashing minRingSize (hostsToUse hostSet runtime)).entries.length < fuel) :
    (hostsToUse hostSet runtime = [] ∧
      (refresh hashing minRingSize hostSet).chooseHost hostSet runtime hashKey random fuel =
        some none) ∨ ∃ host ∈ hostsToUse hostSet runtime,
      (refresh hashing minRingSize hostSet).chooseHost hostSet runtime hashKey random fuel =
        some (some host) := by
  have hchoose := Ring.chooseHost_eq_owner _ hashKey random hsize hfuel
  have hring :
      (refresh hashing minRingSize hostSet).chooseHost hostSet runtime hashKey random fuel =
      some ((Ring.create hashing minRingSize (hostsToUse hostSet runtime)).owner
        (hashKey.getD random)) := by
    rw [← hchoose]
    unfold chooseHost hostsToUse
    split <;> rfl
  rw [hring]
  rcases Ring.owner_create hashing minRingSize (hostsToUse hostSet runtime)
    (hashKey.getD random) with ⟨hnone, howner⟩ | ⟨host, hmem, howner⟩
  · exact .inl ⟨hnone, congrArg some howner⟩
  · exact .inr ⟨host, hmem, congrArg some howner⟩

/-- The sum of the bytes in place of the hash. -/
def sampleHashing : RingHashing Nat :=
  ⟨decimal, fun text => text.foldl (fun sum b => sum + b.toUInt64) 0⟩

theorem chooseHost_refresh_healthy :
    let hostSet := HostSet.ofHosts (fun host => host != 8) [7, 8, 9] []
    hostsToUse hostSet ⟨50, 0, true, true⟩ = [7, 9] ∧
    ∃ host ∈ hostsToUse hostSet ⟨50, 0, true, true⟩,
      (refresh sampleHashing 5 hostSet).chooseHost hostSet ⟨50, 0, true, true⟩ (some 200) 5 7 =
        some (some host) := by
  intro hostSet
  refine ⟨by decide, ?_⟩
  exact (chooseHost_refresh sampleHashing (some 200) 5 (by decide) (by decide)).resolve_left
    (by decide)

end RingHashLoadBalancer

end Meliproxy.Envoy.Upstream
