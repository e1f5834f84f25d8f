import Meliproxy.Lib.Separator
import Meliproxy.Ratelimit.Types

/-!
# Time windows and cache keys

`generateCacheKey` names the counter of a limit: the domain, every key and value of
the descriptor and the start of the current window, joined by underscores without
any escaping. The window start can always be read back from the key; the names can
be read back only up to the way their underscore-separated pieces are grouped.
-/

namespace Meliproxy.Ratelimit

open Lib List

def underscore : UInt8 := 95

def unitToDivider : Pb.RateLimitUnit → Except Panic Int
  | .second => .ok 1
  | .minute => .ok 60
  | .hour => .ok (60 * 60)
  | .day => .ok (60 * 60 * 24)
  | .unknown => .error (.runtime (ascii "should not get here"))

def divider : Pb.RateLimitUnit → Int
  | .second => 1
  | .minute => 60
  | .hour => 3600
  | .day => 86400
  | .unknown => 1

theorem unitToDivider_of_known {unit : Pb.RateLimitUnit} (h : unit ≠ .unknown) :
    unitToDivider unit = .ok (divider unit) := by
  cases unit
  · exact absurd rfl h
  all_goals rfl

theorem divider_pos (unit : Pb.RateLimitUnit) : 0 < divider unit := by
  cases unit <;> decide

def windowStart (unit : Pb.RateLimitUnit) (now : Int) : Int :=
  now.tdiv (divider unit) * divider unit

variable (domain : Bytes)

def generateCacheKey (descriptor : Pb.RateLimitDescriptor)
    (limit : Option Config.RateLimit) (now : Int) : Except Panic Bytes :=
  match limit with
  | none => .ok []
  | some limit => do
    let cacheKey := descriptor.entries.foldl
      (fun cacheKey entry => cacheKey ++ (entry.key ++ [underscore]) ++ (entry.value ++ [underscore]))
      (domain ++ [underscore])
    let divider ← unitToDivider limit.limit.unit
    .ok (cacheKey ++ formatInt (now.tdiv divider * divider))

/-- The strings that `generateCacheKey` writes before the window start. -/
def keyNames (descriptor : Pb.RateLimitDescriptor) : List Bytes :=
  domain :: descriptor.entries.flatMap fun entry => [entry.key, entry.value]

def cacheKey (descriptor : Pb.RateLimitDescriptor) (unit : Pb.RateLimitUnit)
    (now : Int) : Bytes :=
  terminated underscore (keyNames domain descriptor) ++ formatInt (windowStart unit now)

theorem foldl_entries (entries : List Pb.Entry) (acc : Bytes) : entries.foldl
      (fun cacheKey entry => cacheKey ++ (entry.key ++ [underscore]) ++ (entry.value ++ [underscore]))
      acc =
    acc ++ terminated underscore (entries.flatMap fun entry => [entry.key, entry.value]) := by
  induction entries generalizing acc with
  | nil => simp [terminated]
  | cons entry entries ih =>
    rw [foldl_cons, ih]
    simp [terminated, append_assoc]

theorem generateCacheKey_some (descriptor : Pb.RateLimitDescriptor)
    (limit : Config.RateLimit) (now : Int) : generateCacheKey domain descriptor (some limit) now =
      .ok (cacheKey domain descriptor limit.limit.unit now) := by
  simp only [generateCacheKey, unitToDivider_of_known limit.unit_known, foldl_entries]
  simp [cacheKey, windowStart, keyNames, terminated, bind, Except.bind]

theorem cacheKey_ne_nil (descriptor : Pb.RateLimitDescriptor)
    (unit : Pb.RateLimitUnit) (now : Int) : cacheKey domain descriptor unit now ≠ [] := by
  simp [cacheKey, keyNames, terminated]

theorem underscore_notMem_formatInt (n : Int) : underscore ∉ formatInt n := by
  intro h
  rcases mem_formatInt h with h | h
  · exact absurd h (by decide)
  · exact absurd h (by decide)

theorem cacheKey_eq_iff (domain domain' : Bytes) (descriptor descriptor' : Pb.RateLimitDescriptor)
    (unit unit' : Pb.RateLimitUnit) (now now' : Int) :
    cacheKey domain descriptor unit now = cacheKey domain' descriptor' unit' now' ↔
      pieces underscore (keyNames domain descriptor) =
        pieces underscore (keyNames domain' descriptor') ∧
      windowStart unit now = windowStart unit' now' := by
  unfold cacheKey
  rw [terminated_append_inj underscore _ _ (underscore_notMem_formatInt _)
    (underscore_notMem_formatInt _)]
  exact and_congr_right fun _ => ⟨formatInt_injective, fun h => h ▸ rfl⟩

theorem flatMap_entry_injective {entries entries' : List Pb.Entry}
    (h : (entries.flatMap fun entry => [entry.key, entry.value]) =
      entries'.flatMap fun entry => [entry.key, entry.value]) : entries = entries' := by
  induction entries generalizing entries' with
  | nil =>
    cases entries' with
    | nil => rfl
    | cons entry' entries' => simp at h
  | cons entry entries ih =>
    cases entries' with
    | nil => simp at h
    | cons entry' entries' =>
      simp only [flatMap_cons, cons_append, nil_append, List.cons.injEq] at h
      obtain ⟨hkey, hvalue, hrest⟩ := h
      cases entry
      cases entry'
      simp only at hkey hvalue
      rw [hkey, hvalue, ih hrest]

theorem keyNames_eq_iff (domain domain' : Bytes) (descriptor descriptor' : Pb.RateLimitDescriptor) :
    keyNames domain descriptor = keyNames domain' descriptor' ↔
      domain = domain' ∧ descriptor.entries = descriptor'.entries := by
  simp only [keyNames, List.cons.injEq]
  exact and_congr_right fun _ => ⟨flatMap_entry_injective, fun h => h ▸ rfl⟩

/-- Two inputs collide when the windows start together and the names break at
underscores into the same pieces, grouped differently into names. -/
def Collide (domain domain' : Bytes) (descriptor descriptor' : Pb.RateLimitDescriptor)
    (unit unit' : Pb.RateLimitUnit) (now now' : Int) : Prop :=
  windowStart unit now = windowStart unit' now' ∧
  pieces underscore (keyNames domain descriptor) = pieces underscore (keyNames domain' descriptor') ∧
  grouping underscore (keyNames domain descriptor) ≠
    grouping underscore (keyNames domain' descriptor')

/-- A key shared by two inputs belongs to one domain, one entry list and one window,
except for the colliding inputs, where it never does. -/
theorem generateCacheKey_shared_iff (domain domain' : Bytes)
    (descriptor descriptor' : Pb.RateLimitDescriptor) (limit limit' : Config.RateLimit)
    (now now' : Int) : (∀ key, key ≠ [] →
      generateCacheKey domain descriptor (some limit) now = .ok key →
      generateCacheKey domain' descriptor' (some limit') now' = .ok key →
      domain = domain' ∧ descriptor.entries = descriptor'.entries ∧
        windowStart limit.limit.unit now = windowStart limit'.limit.unit now') ↔
    ¬ Collide domain domain' descriptor descriptor' limit.limit.unit limit'.limit.unit now now' := by
  simp only [generateCacheKey_some, Except.ok.injEq]
  constructor
  · rintro h ⟨hw, hp, hg⟩
    have heq := (cacheKey_eq_iff domain domain' descriptor descriptor' _ _ now now').mpr ⟨hp, hw⟩
    obtain ⟨hd, he, _⟩ := h _ (cacheKey_ne_nil domain descriptor limit.limit.unit now) rfl heq.symm
    exact (grouping_ne_iff underscore hp).mp hg ((keyNames_eq_iff _ _ _ _).mpr ⟨hd, he⟩)
  · rintro hc key - rfl heq
    obtain ⟨hp, hw⟩ := (cacheKey_eq_iff _ _ _ _ _ _ _ _).mp heq.symm
    have hg : grouping underscore (keyNames domain descriptor) =
        grouping underscore (keyNames domain' descriptor') := by
      by_contra hg
      exact hc ⟨hw, hp, hg⟩
    obtain ⟨hd, he⟩ := (keyNames_eq_iff _ _ _ _).mp (eq_of_pieces_grouping underscore hp hg)
    exact ⟨hd, he, hw⟩

def collidingLimit : Config.RateLimit :=
  Config.newRateLimit 10 .minute (by decide) (ascii "mobile.user")

/-- The entry `("user", "a_b")` and the entry `("user_a", "b")` of one domain share
their counter. -/
theorem generateCacheKey_collision :
    ¬ ∀ (domain domain' : Bytes) (descriptor descriptor' : Pb.RateLimitDescriptor)
        (limit limit' : Config.RateLimit) (now now' : Int) (key : Bytes), key ≠ [] →
      generateCacheKey domain descriptor (some limit) now = .ok key →
      generateCacheKey domain' descriptor' (some limit') now' = .ok key →
      domain = domain' ∧ descriptor.entries = descriptor'.entries ∧
        windowStart limit.limit.unit now = windowStart limit'.limit.unit now' := by
  intro h
  have hshared := h (ascii "mobile") (ascii "mobile")
    ⟨[⟨ascii "user", ascii "a_b"⟩]⟩ ⟨[⟨ascii "user_a", ascii "b"⟩]⟩
    collidingLimit collidingLimit 1234 1234 (ascii "mobile_user_a_b_1200")
    (by decide) (by decide) (by decide)
  exact absurd hshared.2.1 (by decide)

end Meliproxy.Ratelimit
