import Meliproxy.Lib.Wire

/-!
# Formats

A format says which bytes spell which values. `Describes` compares a reader with a format on a
buffer: the reader succeeds on what is spelled there, takes exactly those bytes, and fails with
one particular error exactly where the buffer is bad. Descriptions of readers are put together
as the readers are.
-/

namespace Lib

open List

abbrev Format (α : Type) := Bytes → α → Prop

namespace Format

variable {α β : Type}

def nothing (a : α) : Format α := fun bytes b => bytes = [] ∧ b = a

def never : Format α := fun _ _ => False

/-- A value, and behind it another one whose format depends on the first. -/
def seq (f : Format α) (g : α → Bytes → Format β) : Format β := fun bytes b =>
  ∃ front back a, bytes = front ++ back ∧ f front a ∧ g a front back b

def map (h : α → β) (f : Format α) : Format β := fun bytes b => ∃ a, f bytes a ∧ b = h a

/-- The format, as often as `n` says. -/
def times (f : Format α) : Nat → Format (List α)
  | 0 => nothing []
  | n + 1 => f.seq fun a _ => (f.times n).map (a :: ·)

def After (f : Format α) (bad : α → Bytes → Bytes → Prop) (data : Bytes) : Prop :=
  ∃ front rest a, data = front ++ rest ∧ f front a ∧ bad a front rest

/-- A buffer that is bad where one of so many values should begin. -/
def BadTimes (f : Format α) (bad : Bytes → Prop) : Nat → Bytes → Prop
  | 0, _ => False
  | n + 1, data => bad data ∨ After f (fun _ _ rest => BadTimes f bad n rest) data

end Format

open Format

/-- What the reader does with the buffer, as far as success and the error `e` go. -/
structure Describes {ε α : Type} (e : ε) (r : Reader ε α) (f : Format α) (bad : Prop)
    (data : Bytes) : Prop where
  reads : ∀ bytes rest a, data = bytes ++ rest → f bytes a → r data = .ok (a, rest)
  spelled : ∀ a rest, r data = .ok (a, rest) → ∃ bytes, data = bytes ++ rest ∧ f bytes a
  fails : r data = .error e ↔ bad

section Describes

variable {ε α β : Type} {e e' : ε} {r : Reader ε α} {s : α → Reader ε β} {f f' : Format α}
  {g : α → Bytes → Format β} {bad bad' : Prop} {badAfter : α → Bytes → Bytes → Prop}
  {data : Bytes}

theorem Describes.congr (h : Describes e r f bad data)
    (hformat : ∀ bytes rest a, data = bytes ++ rest → (f bytes a ↔ f' bytes a))
    (hbad : bad ↔ bad') : Describes e r f' bad' data where
  reads bytes rest a hdata hf := h.reads bytes rest a hdata ((hformat bytes rest a hdata).mpr hf)
  spelled a rest hr := by
    obtain ⟨bytes, hdata, hf⟩ := h.spelled a rest hr
    exact ⟨bytes, hdata, (hformat bytes rest a hdata).mp hf⟩
  fails := h.fails.trans hbad

theorem Describes.congr_reader {r' : Reader ε α} (h : Describes e r f bad data)
    (heq : r' data = r data) : Describes e r' f bad data where
  reads bytes rest a hdata hf := heq.trans (h.reads bytes rest a hdata hf)
  spelled a rest hr := h.spelled a rest (heq.symm.trans hr)
  fails := by
    rw [heq]
    exact h.fails

theorem describes_ok {n : Nat} {a : α} (h : r data = .ok (a, data.drop n)) :
    Describes e r (fun bytes b => bytes = data.take n ∧ b = a) False data where
  reads := by
    rintro bytes rest b hdata ⟨rfl, rfl⟩
    rw [h]
    have hrest : data.take n ++ data.drop n = data.take n ++ rest := by
      rw [take_append_drop]
      exact hdata
    rw [append_cancel_left hrest]
  spelled := by
    intro b rest hr
    obtain ⟨rfl, rfl⟩ := Prod.mk.inj (Except.ok.inj (h.symm.trans hr))
    exact ⟨data.take n, (take_append_drop n data).symm, rfl, rfl⟩
  fails := by
    rw [h]
    exact ⟨nofun, False.elim⟩

theorem describes_pure (a : α) : Describes e (pure a : Reader ε α) (nothing a) False data where
  reads := by
    rintro bytes rest b rfl ⟨rfl, rfl⟩
    rfl
  spelled := by
    rintro b rest ⟨⟩
    exact ⟨[], rfl, rfl, rfl⟩
  fails := by
    constructor
    · rintro ⟨⟩
    · exact False.elim

theorem describes_throw : Describes e (throw e' : Reader ε α) never (e' = e) data where
  reads _ _ _ _ := False.elim
  spelled := by rintro _ _ ⟨⟩
  fails := ⟨fun h => Except.error.inj h, fun h => congrArg Except.error h⟩

theorem describes_throw_of_ne (h : e' ≠ e) : Describes e (throw e' : Reader ε α) never False data :=
  describes_throw.congr (fun _ _ _ _ => Iff.rfl) (iff_false_intro h)

theorem describes_throw_bind {s : α → Reader ε β} :
    Describes e ((throw e' : Reader ε α) >>= s) never (e' = e) data :=
  describes_throw.congr_reader rfl

theorem describes_guard {c : Prop} [Decidable c] {s : β → Reader ε α} (hne : e' ≠ e)
    (h : ¬ c → Describes e r f bad data) :
    Describes e (if c then (throw e' : Reader ε β) >>= s else r)
      (fun bytes a => ¬ c ∧ f bytes a) (¬ c ∧ bad) data := by
  by_cases hc : c
  · rw [if_pos hc]
    apply describes_throw_bind.congr
    · intro bytes rest a _
      exact ⟨False.elim, fun hspelled => hspelled.1 hc⟩
    · exact ⟨fun heq => absurd heq hne, fun hbad => absurd hc hbad.1⟩
  · rw [if_neg hc]
    apply (h hc).congr
    · intro bytes rest a _
      exact (and_iff_right hc).symm
    · exact (and_iff_right hc).symm

theorem describes_get {k : Bytes → Reader ε α} (h : Describes e (k data) f bad data) :
    Describes e (get >>= k) f bad data := { h with }

theorem Describes.bind (hr : Describes e r f bad data)
    (hs : ∀ front rest a, data = front ++ rest → f front a →
      Describes e (s a) (g a front) (badAfter a front rest) rest) :
    Describes e (r >>= s) (f.seq g) (bad ∨ After f badAfter data) data where
  reads := by
    rintro bytes rest b hdata ⟨front, back, a, rfl, hf, hg⟩
    rw [append_assoc] at hdata
    have hfirst := hr.reads front (back ++ rest) a hdata hf
    have hsecond := (hs front (back ++ rest) a hdata hf).reads back rest b rfl hg
    simp only [Bind.bind, StateT.bind, hfirst, Except.bind]
    exact hsecond
  spelled := by
    intro b rest hbind
    simp only [Bind.bind, StateT.bind] at hbind
    cases hfirst : r data with
    | error e => simp only [hfirst, Except.bind, reduceCtorEq] at hbind
    | ok first =>
      obtain ⟨a, middle⟩ := first
      simp only [hfirst, Except.bind] at hbind
      obtain ⟨front, hdata, hf⟩ := hr.spelled a middle hfirst
      obtain ⟨back, rfl, hg⟩ := (hs front middle a hdata hf).spelled b rest hbind
      exact ⟨front ++ back, by rw [hdata, append_assoc], front, back, a, rfl, hf, hg⟩
  fails := by
    simp only [Bind.bind, StateT.bind]
    constructor
    · intro hbind
      cases hfirst : r data with
      | error e' =>
        simp only [hfirst, Except.bind] at hbind
        obtain rfl := Except.error.inj hbind
        exact .inl (hr.fails.mp hfirst)
      | ok first =>
        obtain ⟨a, middle⟩ := first
        simp only [hfirst, Except.bind] at hbind
        obtain ⟨front, hdata, hf⟩ := hr.spelled a middle hfirst
        exact .inr ⟨front, middle, a, hdata, hf, (hs front middle a hdata hf).fails.mp hbind⟩
    · rintro (hbad | ⟨front, rest, a, hdata, hf, hbad⟩)
      · simp only [hr.fails.mpr hbad, Except.bind]
      · simp only [hr.reads front rest a hdata hf, Except.bind]
        exact (hs front rest a hdata hf).fails.mpr hbad

theorem Describes.map {h : α → β} (hr : Describes e r f bad data) :
    Describes e (r >>= fun a => pure (h a)) (f.map h) bad data := by
  apply (hr.bind fun _ _ a _ _ => describes_pure (h a)).congr
  · intro bytes rest b _
    constructor
    · rintro ⟨front, back, a, rfl, hf, rfl, rfl⟩
      rw [append_nil]
      exact ⟨a, hf, rfl⟩
    · rintro ⟨a, hf, rfl⟩
      exact ⟨bytes, [], a, (append_nil bytes).symm, hf, rfl, rfl⟩
  · constructor
    · rintro (hbad | ⟨_, _, _, _, _, hbad⟩)
      · exact hbad
      · exact hbad.elim
    · exact .inl

theorem describes_ite {c : Prop} [Decidable c] {r' : Reader ε α}
    (h : c → Describes e r f bad data) (h' : ¬ c → Describes e r' f bad data) :
    Describes e (if c then r else r') f bad data := by
  by_cases hc : c
  · rw [if_pos hc]
    exact h hc
  · rw [if_neg hc]
    exact h' hc

theorem Describes.bind_of_safe (hr : Describes e r f False data)
    (hs : ∀ front rest a, data = front ++ rest → f front a →
      Describes e (s a) (g a front) (badAfter a front rest) rest) :
    Describes e (r >>= s) (f.seq g) (After f badAfter data) data :=
  (hr.bind hs).congr (fun _ _ _ _ => Iff.rfl) (iff_of_eq (false_or _))

theorem Describes.bind_safe (hr : Describes e r f bad data)
    (hs : ∀ front rest a, data = front ++ rest → f front a →
      Describes e (s a) (g a front) False rest) : Describes e (r >>= s) (f.seq g) bad data := by
  apply (hr.bind hs).congr
  · intro bytes rest b _
    exact Iff.rfl
  · constructor
    · rintro (hbad | ⟨_, _, _, _, _, hbad⟩)
      · exact hbad
      · exact hbad.elim
    · exact .inl

theorem describes_readTimes {bad : Bytes → Prop} (n : Nat)
    (h : ∀ front rest, data = front ++ rest → Describes e r f (bad rest) rest) :
    Describes e (readTimes r n) (f.times n) (BadTimes f bad n data) data := by
  induction n generalizing data with
  | zero => exact describes_pure []
  | succ n ih =>
    apply (h [] data rfl).bind
    intro front rest a hdata _
    apply Describes.map
    apply ih
    intro front' rest' hrest
    exact h (front ++ front') rest' (by rw [hdata, hrest, append_assoc])

theorem not_badTimes (n : Nat) : ¬ BadTimes f (fun _ => False) n data := by
  induction n generalizing data with
  | zero => exact id
  | succ n ih =>
    rintro (hbad | ⟨_, _, _, _, _, hbad⟩)
    · exact hbad
    · exact ih hbad

theorem describes_readTimes_safe (n : Nat)
    (h : ∀ front rest, data = front ++ rest → Describes e r f False rest) :
    Describes e (readTimes r n) (f.times n) False data :=
  (describes_readTimes n h).congr (fun _ _ _ _ => Iff.rfl) (iff_false_intro (not_badTimes n))

end Describes

end Lib
