import Meliproxy.Lib.Text

/-!
# The read side of a connection

`readDisable` of `network/connection_impl.cc` with its counter, and the buffer of what was read. A
file event may be activated, so that what is in the buffer gets handled without more from the
socket.
-/

namespace Meliproxy.Envoy.Network

open Lib List

/-- `readActivated` says whether a faked read event of the file event is pending. -/
structure ConnectionImpl where
  readEnabled : Bool
  readDisableCount : Nat
  readBuffer : List Bytes
  readActivated : Bool
  counts : readEnabled = true → readDisableCount = 0

def drain : List Bytes → Nat → List Bytes
  | [], _ => []
  | slice :: slices, n =>
    if slice.length ≤ n then drain slices (n - slice.length) else slice.drop n :: slices

theorem flatten_drain (slices : List Bytes) (n : Nat) :
    (drain slices n).flatten = slices.flatten.drop n := by
  induction slices generalizing n with
  | nil => simp [drain]
  | cons slice slices ih =>
    rw [drain, flatten_cons, drop_append]
    split
    · rename_i hle
      rw [ih, drop_eq_nil_of_le hle, nil_append]
    · rename_i hlt
      rw [flatten_cons, show n - slice.length = 0 by omega, drop_zero]

namespace ConnectionImpl

variable {c c' : ConnectionImpl}

def create : ConnectionImpl := ⟨true, 0, [], false, fun _ => rfl⟩

variable (c)

def length : Nat := c.readBuffer.flatten.length

def setReadBuffer (readBuffer : List Bytes) : ConnectionImpl :=
  { c with readBuffer := readBuffer }

/-- The file event is told what to report, which takes back an activation. -/
def setReadEnabled (enabled : Bool) (h : c.readDisableCount = 0) :
    ConnectionImpl :=
  { c with
    readEnabled := enabled
    readActivated := false
    counts := fun _ => h }

def readDisable (disable : Bool) : Option ConnectionImpl :=
  if disable then
    if h : c.readEnabled = true then some (c.setReadEnabled false (c.counts h))
    else
      some { c with
        readDisableCount := c.readDisableCount + 1
        counts := fun henabled => absurd henabled h }
  else if h : 0 < c.readDisableCount then
    some { c with
      readDisableCount := c.readDisableCount - 1
      counts := fun henabled => by rw [c.counts henabled] }
  else if c.readEnabled then none
  else
    some { c.setReadEnabled true (Nat.eq_zero_of_not_pos h) with readActivated := 0 < c.length }

variable {c}

/-- The reads that were disabled are enabled, for as often as they were disabled. -/
def resumeReads : Nat → ConnectionImpl → Option ConnectionImpl
  | 0, c => if c.readEnabled then some c else none
  | n + 1, c => if c.readEnabled then some c else (c.readDisable false).bind (resumeReads n)

/-- The connection closes. Its file event reports no reads any more. -/
def stopReading (c : ConnectionImpl) : ConnectionImpl :=
  { c with
    readEnabled := false
    readActivated := false
    counts := nofun }

def disables (c : ConnectionImpl) : Nat := if c.readEnabled then 0 else c.readDisableCount + 1

theorem disables_eq_zero : c.disables = 0 ↔ c.readEnabled = true := by
  rw [disables]
  split <;> simp [*]

theorem readDisable_true (c : ConnectionImpl) :
    ∃ c', c.readDisable true = some c' ∧ c'.disables = c.disables + 1 ∧
      c'.readBuffer = c.readBuffer := by
  rw [readDisable, if_pos rfl]
  split
  · rename_i henabled
    exact ⟨_, rfl, by simp [disables, setReadEnabled, henabled, c.counts henabled], rfl⟩
  · rename_i hdisabled
    exact ⟨_, rfl, by simp [disables, hdisabled], rfl⟩

theorem readDisable_false (h : 0 < c.disables) :
    ∃ c', c.readDisable false = some c' ∧ c'.disables + 1 = c.disables ∧
      c'.readBuffer = c.readBuffer ∧ (c'.disables = 0 → 0 < c.length → c'.readActivated = true) := by
  have hdisabled : c.readEnabled = false := by
    cases henabled : c.readEnabled with
    | false => rfl
    | true => rw [disables_eq_zero.mpr henabled] at h; omega
  rw [readDisable, if_neg (by simp)]
  split
  · rename_i hpos
    refine ⟨_, rfl, ?_, rfl, ?_⟩
    · simp [disables, hdisabled]
      omega
    · intro hzero
      simp [disables, hdisabled] at hzero
  · rename_i hpos
    rw [if_neg (by simp [hdisabled])]
    refine ⟨_, rfl, ?_, rfl, ?_⟩
    · simp [disables, setReadEnabled, hdisabled]
      omega
    · intro _ hlength
      simpa using hlength

theorem resumeReads_disables {n : Nat} (h : c.disables ≤ n) :
    ∃ c', resumeReads n c = some c' ∧ c'.disables = 0 ∧ c'.readBuffer = c.readBuffer ∧
      (0 < c.disables → 0 < c.length → c'.readActivated = true) := by
  induction n generalizing c with
  | zero =>
    have hzero := Nat.le_zero.mp h
    exact ⟨c, if_pos (disables_eq_zero.mp hzero), hzero, rfl, fun hpos => by omega⟩
  | succ n ih =>
    rw [resumeReads]
    split
    · rename_i henabled
      have hzero := disables_eq_zero.mpr henabled
      exact ⟨c, rfl, hzero, rfl, fun hpos => by omega⟩
    · rename_i hdisabled
      have hpos : 0 < c.disables := Nat.pos_of_ne_zero fun hzero => hdisabled (disables_eq_zero.mp hzero)
      obtain ⟨c₁, hc₁, hcount, hbuffer, hfaked⟩ := readDisable_false hpos
      obtain ⟨c', hc', hzero, hbuffer', hfaked'⟩ := ih (c := c₁) (by omega)
      refine ⟨c', by rw [hc₁, Option.bind_some, hc'], hzero, hbuffer'.trans hbuffer, ?_⟩
      intro _ hlength
      rcases Nat.eq_zero_or_pos c₁.disables with hlast | hmore
      · have henabled₁ := disables_eq_zero.mp hlast
        have hsame : resumeReads n c₁ = some c₁ := by
          cases n <;> rw [resumeReads, if_pos henabled₁]
        rw [hsame, Option.some_inj] at hc'
        subst hc'
        exact hfaked hlast hlength
      · exact hfaked' hmore (by rwa [length, hbuffer])

end ConnectionImpl

end Meliproxy.Envoy.Network
