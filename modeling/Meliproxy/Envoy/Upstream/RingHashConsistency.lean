import Meliproxy.Envoy.Upstream.RingHash

/-!
# Consistent hashing

What a removed or an added host changes in `upstream/ring_hash_lb.cc`. A key goes to the next entry
on the circle of hashes, and a smaller set of hosts has as many entries of a host, or more.
-/

namespace Meliproxy.Envoy.Upstream.Ring

open Lib List Option

variable {Host : Type} {ring : Ring Host} {h : UInt64} {entry other : RingEntry Host}

def chosen (ring : Ring Host) (h : UInt64) : Option (RingEntry Host) :=
  (ring.entries.find? fun entry => h ≤ entry.hash).or ring.entries.head?

theorem owner_eq_chosen (ring : Ring Host) (h : UInt64) :
    ring.owner h = (ring.chosen h).map RingEntry.host := rfl

def distance (h : UInt64) (entry : RingEntry Host) : Nat := (entry.hash - h).toNat

theorem distance_eq (h : UInt64) (entry : RingEntry Host) :
    distance h entry = if h ≤ entry.hash then entry.hash.toNat - h.toNat
      else 2 ^ 64 + entry.hash.toNat - h.toNat := by
  have hh := h.toNat_lt
  have hentry := entry.hash.toNat_lt
  rw [distance, UInt64.toNat_sub]
  split
  · rename_i hle
    rw [UInt64.le_iff_toNat_le] at hle
    omega
  · rename_i hlt
    rw [UInt64.le_iff_toNat_le] at hlt
    omega

theorem hash_of_distance (hsame : distance h entry = distance h other) :
    entry.hash = other.hash := by
  have hsub : entry.hash - h = other.hash - h := UInt64.toNat.inj hsame
  exact UInt64.sub_left_inj _ |>.mp hsub

theorem distance_le (hle : entry.hash ≤ other.hash) (hside : h ≤ other.hash → h ≤ entry.hash) :
    distance h entry ≤ distance h other := by
  have hh := h.toNat_lt
  have hentry := entry.hash.toNat_lt
  rw [UInt64.le_iff_toNat_le] at hle
  rw [distance_eq, distance_eq]
  by_cases hother : h ≤ other.hash
  · have hother' := UInt64.le_iff_toNat_le.mp (hside hother)
    rw [if_pos hother, if_pos (hside hother)]
    omega
  · rw [if_neg hother]
    split
    · omega
    · omega

theorem distance_le_of_before (hentry : h ≤ entry.hash) (hother : ¬ h ≤ other.hash) :
    distance h entry ≤ distance h other := by
  have hh := h.toNat_lt
  have hlt := entry.hash.toNat_lt
  rw [distance_eq, distance_eq, if_pos hentry, if_neg hother]
  omega

theorem chosen_nearest (hchosen : ring.chosen h = some entry) :
    entry ∈ ring.entries ∧ ∀ other ∈ ring.entries, distance h entry ≤ distance h other := by
  rcases or_eq_some_iff.mp hchosen with hfind | ⟨hnone, hhead⟩
  · obtain ⟨hle, before, after, hentries, hbefore⟩ := find?_eq_some_iff_append.mp hfind
    have hentry : h ≤ entry.hash := of_decide_eq_true hle
    have hsorted := ring.sorted
    rw [hentries] at hsorted ⊢
    obtain ⟨-, hafter, -⟩ := pairwise_append.mp hsorted
    refine ⟨mem_append_right _ mem_cons_self, ?_⟩
    intro other hmem
    rcases mem_append.mp hmem with hmem | hmem
    · have hnot := hbefore other hmem
      exact distance_le_of_before hentry (by simpa using hnot)
    · rcases mem_cons.mp hmem with rfl | hmem
      · exact Nat.le_refl _
      · exact distance_le (rel_of_pairwise_cons hafter hmem) fun _ => hentry
  · have hnot := find?_eq_none.mp hnone
    refine ⟨mem_of_head? hhead, ?_⟩
    intro other hmem
    have hother : ¬ h ≤ other.hash := by simpa using hnot other hmem
    apply distance_le _ fun hle => absurd hle hother
    obtain ⟨rest, hentries⟩ := head?_eq_some_iff.mp hhead
    have hsorted := ring.sorted
    rw [hentries] at hsorted hmem
    rcases mem_cons.mp hmem with rfl | hmem
    · exact UInt64.le_refl _
    · exact rel_of_pairwise_cons hsorted hmem

theorem eq_of_nearest (hcollisions : (ring.entries.map RingEntry.hash).Nodup)
    (hentry : entry ∈ ring.entries) (hother : other ∈ ring.entries)
    (hle : distance h entry ≤ distance h other) (hge : distance h other ≤ distance h entry) :
    entry = other :=
  inj_on_of_nodup_map hcollisions hentry hother
    (hash_of_distance (Nat.le_antisymm hle hge))

theorem hashesPerHost_le_iff {minRingSize hosts n : Nat} (hpos : 0 < hosts)
    (hlt : hosts < minRingSize) :
    hashesPerHost minRingSize hosts ≤ n ↔ minRingSize ≤ hosts * n := by
  have hdiv := Nat.div_add_mod minRingSize hosts
  have hmod := Nat.mod_lt minRingSize hpos
  rw [hashesPerHost, if_pos hlt]
  constructor
  · intro hle
    have hmul := Nat.mul_le_mul_left hosts hle
    rw [Nat.mul_add] at hmul
    split at hmul
    · omega
    · omega
  · intro hle
    by_contra hgt
    have hmul : hosts * (n + 1) ≤ hosts * (minRingSize / hosts +
        if minRingSize % hosts ≠ 0 then 1 else 0) := Nat.mul_le_mul_left hosts (by omega)
    rw [Nat.mul_add, Nat.mul_add] at hmul
    split at hmul
    · omega
    · omega

theorem hashesPerHost_succ_le (minRingSize : Nat) {hosts : Nat} (hpos : 0 < hosts) :
    hashesPerHost minRingSize (hosts + 1) ≤ hashesPerHost minRingSize hosts := by
  by_cases hlt : hosts + 1 < minRingSize
  · have hcovers := (hashesPerHost_le_iff hpos (by omega : hosts < minRingSize)).mp (Nat.le_refl _)
    apply (hashesPerHost_le_iff (Nat.succ_pos hosts) hlt).mpr
    exact hcovers.trans (Nat.mul_le_mul_right _ (Nat.le_succ hosts))
  · rw [hashesPerHost, if_neg hlt, hashesPerHost]
    split
    · rename_i hlarge
      have hdiv : 0 < minRingSize / hosts := Nat.div_pos (Nat.le_of_lt hlarge) hpos
      omega
    · exact Nat.le_refl 1

variable {hashing : RingHashing Host} {minRingSize : Nat} {larger smaller : List Host}
  {removed : Host}

def point (hashing : RingHashing Host) (host : Host) (i : Nat) : RingEntry Host :=
  ⟨hashing.hash (hashing.address host ++ 95 :: decimal i), host⟩

theorem mem_create {entry : RingEntry Host} {hosts : List Host} :
    entry ∈ (create hashing minRingSize hosts).entries ↔
      ∃ host ∈ hosts, ∃ i < hashesPerHost minRingSize hosts.length,
        point hashing host i = entry := mem_create_iff

theorem chosen_isSome {ring : Ring Host} (hne : ring.entries ≠ []) (key : UInt64) :
    ∃ entry, ring.chosen key = some entry := by
  have hsome := owner_isSome (h := key) hne
  rw [owner_eq_chosen, isSome_map] at hsome
  exact isSome_iff_exists.mp hsome

/-- A key that changes its host went to the removed one, or goes to an entry that is only there for
the smaller set of hosts. -/
theorem chosen_of_remove (hperm : larger.Perm (removed :: smaller))
    (hcollisions : ((create hashing minRingSize larger).entries.map RingEntry.hash).Nodup)
    (key : UInt64) : (create hashing minRingSize larger).chosen key =
        (create hashing minRingSize smaller).chosen key ∨
      (create hashing minRingSize larger).owner key = some removed ∨
      ∃ host ∈ smaller, ∃ i, hashesPerHost minRingSize larger.length ≤ i ∧
        i < hashesPerHost minRingSize smaller.length ∧
        (create hashing minRingSize smaller).chosen key = some (point hashing host i) := by
  have hlarger : larger ≠ [] := by
    rintro rfl
    cases hperm.symm.eq_nil
  have hsize : larger.length = smaller.length + 1 := hperm.length_eq
  obtain ⟨entry, hentry⟩ := chosen_isSome (create_entries_ne_nil hashing minRingSize hlarger) key
  obtain ⟨hmem, hnearest⟩ := chosen_nearest hentry
  obtain ⟨host, hhost, i, hi, rfl⟩ := mem_create.mp hmem
  rcases mem_cons.mp (hperm.mem_iff.mp hhost) with rfl | hkept
  · right
    left
    rw [owner_eq_chosen, hentry]
    rfl
  · have hsmaller : smaller ≠ [] := ne_nil_of_mem hkept
    have hless : hashesPerHost minRingSize larger.length ≤
        hashesPerHost minRingSize smaller.length := by
      rw [hsize]
      exact hashesPerHost_succ_le minRingSize (length_pos_of_ne_nil hsmaller)
    obtain ⟨entry', hentry'⟩ :=
      chosen_isSome (create_entries_ne_nil hashing minRingSize hsmaller) key
    obtain ⟨hmem', hnearest'⟩ := chosen_nearest hentry'
    obtain ⟨host', hhost', i', hi', rfl⟩ := mem_create.mp hmem'
    by_cases hextra : hashesPerHost minRingSize larger.length ≤ i'
    · exact .inr (.inr ⟨host', hhost', i', hextra, hi', hentry'⟩)
    · left
      -- Each of the two entries is on both rings, so neither is nearer than the other.
      have hthere : point hashing host i ∈ (create hashing minRingSize smaller).entries :=
        mem_create.mpr ⟨host, hkept, i, Nat.lt_of_lt_of_le hi hless, rfl⟩
      have hback : point hashing host' i' ∈ (create hashing minRingSize larger).entries :=
        mem_create.mpr ⟨host', hperm.mem_iff.mpr (mem_cons_of_mem _ hhost'), i',
          Nat.lt_of_not_le hextra, rfl⟩
      rw [hentry, hentry', eq_of_nearest hcollisions hmem hback (hnearest _ hback)
        (hnearest' _ hthere)]

/-- Removing a host moves keys of that host only, but for those that go to an additional entry of
another; so does adding it back. -/
theorem chooseHost_of_remove (hashing : RingHashing Host) (minRingSize : Nat)
    {larger smaller : List Host} {removed : Host} (hperm : larger.Perm (removed :: smaller))
    (hcollisions : ((create hashing minRingSize larger).entries.map RingEntry.hash).Nodup)
    (hsize : (create hashing minRingSize larger).entries.length < 2 ^ 62)
    (hsize' : (create hashing minRingSize smaller).entries.length < 2 ^ 62)
    (hashKey : Option UInt64) (random : UInt64) {fuel : Nat}
    (hfuel : (create hashing minRingSize larger).entries.length < fuel)
    (hfuel' : (create hashing minRingSize smaller).entries.length < fuel) :
    (create hashing minRingSize larger).chooseHost hashKey random fuel =
        (create hashing minRingSize smaller).chooseHost hashKey random fuel ∨
      (create hashing minRingSize larger).chooseHost hashKey random fuel = some (some removed) ∨
      ∃ host ∈ smaller, ∃ i, hashesPerHost minRingSize larger.length ≤ i ∧
        i < hashesPerHost minRingSize smaller.length ∧
        (create hashing minRingSize smaller).chosen (hashKey.getD random) =
          some (point hashing host i) ∧
        (create hashing minRingSize smaller).chooseHost hashKey random fuel = some (some host) := by
  rw [chooseHost_eq_owner _ hashKey random hsize hfuel,
    chooseHost_eq_owner _ hashKey random hsize' hfuel', owner_eq_chosen, owner_eq_chosen]
  rcases chosen_of_remove hperm hcollisions (hashKey.getD random) with
    hsame | hremoved | ⟨host, hhost, i, hlow, hhigh, hchosen⟩
  · left
    rw [hsame]
  · right
    left
    rw [← owner_eq_chosen, hremoved]
  · refine .inr (.inr ⟨host, hhost, i, hlow, hhigh, hchosen, ?_⟩)
    rw [hchosen]
    rfl

def letterHashing : RingHashing Nat where
  address := fun host => [UInt8.ofNat (65 + host)]
  hash := fun key =>
    if key = ascii "A_0" then 10
    else if key = ascii "A_1" then 30
    else if key = ascii "B_0" then 40
    else if key = ascii "B_1" then 20
    else if key = ascii "C_0" then 50
    else 60

theorem chooseHost_of_remove_letters : (create letterHashing 2 [2, 0, 1]).chooseHost (some 25) 0 9 =
      (create letterHashing 2 [0, 1]).chooseHost (some 25) 0 9 := by
  have hlarger : (create letterHashing 2 [2, 0, 1]).entries.length < 9 := by decide +kernel
  have hsmaller : (create letterHashing 2 [0, 1]).entries.length < 9 := by decide +kernel
  rcases chooseHost_of_remove letterHashing 2 (List.Perm.refl [2, 0, 1]) (by decide +kernel)
    (by omega) (by omega) (some 25) 0 hlarger hsmaller with
    hsame | hremoved | ⟨_, _, i, hlow, hhigh, _⟩
  · exact hsame
  · exact absurd hremoved (by decide +kernel)
  · have hlow : 1 ≤ i := hlow
    have hhigh : i < 1 := hhigh
    omega

/-- With three hosts a ring of three has one entry of each, and with two of them two of each: the
key of host 1 moves to host 0 although host 2 is removed. -/
theorem chooseHost_moves :
    (([2, 0, 1].flatMap (entriesOf letterHashing 2)).map RingEntry.hash).Nodup ∧
      (create letterHashing 3 [2, 0, 1]).chooseHost (some 25) 0 9 = some (some 1) ∧
      (create letterHashing 3 [0, 1]).chooseHost (some 25) 0 9 = some (some 0) := by
  decide +kernel

end Meliproxy.Envoy.Upstream.Ring
