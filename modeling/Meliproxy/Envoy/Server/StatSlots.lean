import Meliproxy.Envoy.Common.StringUtil
import Meliproxy.Lib.Runs

/-!
# Stats in shared memory

`HotRestartImpl::alloc` and `free` hand out the slots of a table that several processes map.
Both hold `stat_lock_`, so their calls follow one another. The model has no `ASSERT`s: a name
that is too long is truncated. A reference is an `alloc` that has not been freed.
-/

namespace Meliproxy.Envoy.Server.StatSlots

open Lib List Option

/-- `name` is the C string in `name_`. -/
structure RawStatData where
  value : UInt64
  pendingIncrement : UInt64
  flags : UInt16
  refCount : UInt16
  name : Bytes
  deriving DecidableEq

/-- `name.substr(0, maxNameLength()).c_str()`. -/
def storedName (max : Nat) (name : Bytes) : Bytes := cStr (name.take max)

namespace RawStatData

def zero : RawStatData := ⟨0, 0, 0, 0, []⟩

def initialized (data : RawStatData) : Bool := data.name ≠ []

/-- `strlcpy` has room for `maxNameLength()` bytes. -/
def initializeName (max : Nat) (data : RawStatData) (name : Bytes) : RawStatData :=
  { data with refCount := 1, name := storedName max name }

def matchesName (max : Nat) (data : RawStatData) (name : Bytes) : Bool :=
  storedName max name = data.name

def acquire (data : RawStatData) : RawStatData := { data with refCount := data.refCount + 1 }

def release (data : RawStatData) : RawStatData :=
  if 0 < data.refCount - 1 then { data with refCount := data.refCount - 1 } else zero

end RawStatData

inductive Found where
  | existing (slot : Nat)
  | unused (slot : Nat)
  | nothing

def lookup (max : Nat) (name : Bytes) (unused : Option Nat) (i : Nat) : List RawStatData → Found
  | [] =>
    match unused with
    | some slot => .unused slot
    | none => .nothing
  | data :: slots =>
    if !data.initialized then lookup max name (some i) (i + 1) slots
    else if data.matchesName max name then .existing i
    else lookup max name unused (i + 1) slots

def alloc (max : Nat) (slots : List RawStatData) (name : Bytes) : List RawStatData × Option Nat :=
  match lookup max name none 0 slots with
  | .existing slot => (slots.modify slot .acquire, some slot)
  | .unused slot => (slots.modify slot fun data => data.initializeName max name, some slot)
  | .nothing => (slots, none)

def free (slots : List RawStatData) (slot : Nat) : List RawStatData := slots.modify slot .release

structure Reference where
  process : Nat
  name : Bytes
  slot : Nat
  deriving DecidableEq

structure System where
  maxObjNameLength : Nat
  slots : List RawStatData
  references : List Reference
  deriving DecidableEq

inductive Event where
  | alloc (process : Nat) (name : Bytes)
  | free (reference : Reference)
  /-- A counter or gauge that holds the reference is used. -/
  | write (reference : Reference) (value pendingIncrement : UInt64) (flags : UInt16)

namespace System

variable (s : System)

def maxNameLength : Nat := s.maxObjNameLength + 67

def create (maxObjNameLength maxStats : Nat) : System :=
  ⟨maxObjNameLength, List.replicate maxStats .zero, []⟩

def freed (reference : Reference) : System :=
  { s with
    slots := free s.slots reference.slot
    references := s.references.erase reference }

def step : Event → Option System
  | .alloc process name =>
    if name = [] then none
    else
      let (slots, slot) := alloc s.maxNameLength s.slots name
      match slot with
      | some slot =>
        some { s with slots := slots, references := ⟨process, name, slot⟩ :: s.references }
      | none => some { s with slots := slots }
  | .free reference => if reference ∈ s.references then some (s.freed reference) else none
  | .write reference value pendingIncrement flags =>
    if reference ∈ s.references then
      some { s with
        slots := s.slots.modify reference.slot fun data =>
          { data with value := value, pendingIncrement := pendingIncrement, flags := flags } }
    else none

/-- The calls of `alloc` for a truncated name that have not been freed. -/
def outstanding (name : Bytes) : Nat :=
  s.references.countP fun reference => reference.name.take s.maxNameLength = name

/-- Each truncated name has one slot at most, and that counts its references. -/
structure Counted : Prop where
  single : ∀ (i j : Nat) (data data' : RawStatData), s.slots[i]? = some data → s.slots[j]? = some data' →
    data.initialized → data.name = data'.name → i = j
  counted : ∀ (i : Nat) (data : RawStatData), s.slots[i]? = some data → data.initialized →
    data.refCount.toNat = s.outstanding data.name
  held : ∀ reference ∈ s.references, ∃ data : RawStatData, s.slots[reference.slot]? = some data ∧
    data.initialized ∧ data.name = reference.name.take s.maxNameLength

end System

def Event.Writes (event : Event) (slot : Nat) : Prop :=
  match event with
  | .write reference _ _ _ => reference.slot = slot
  | _ => False

/-- What a step may do: a slot that is handed out was unused or holds the name, `alloc` gives
up only when every slot is in use by another name, and a slot with references keeps its value. -/
structure Sound (s : System) (event : Event) (s' : System) : Prop where
  handedOut : ∀ process name slot, event = .alloc process name →
    (alloc s.maxNameLength s.slots name).2 = some slot →
    ∃ data : RawStatData, s.slots[slot]? = some data ∧
      (data.initialized → data.name = name.take s.maxNameLength)
  full : ∀ process name, event = .alloc process name →
    (alloc s.maxNameLength s.slots name).2 = none →
    ∀ data ∈ s.slots, data.initialized ∧ data.name ≠ name.take s.maxNameLength
  kept : ∀ (i : Nat) (data : RawStatData), s.slots[i]? = some data → data.initialized → ¬ event.Writes i →
    (∃ reference ∈ s'.references, reference.slot = i) →
    ∃ data' : RawStatData, s'.slots[i]? = some data' ∧ data'.name = data.name ∧
      data'.value = data.value ∧ data'.pendingIncrement = data.pendingIncrement ∧
      data'.flags = data.flags

section Lookup

variable {max : Nat} {name : Bytes} {slot : Nat}
variable {slots : List RawStatData} {unused : Option Nat} {i : Nat}

theorem lookup_existing (h : lookup max name unused i slots = .existing slot) :
    ∃ k data, slot = i + k ∧ slots[k]? = some data ∧ data.initialized ∧
      storedName max name = data.name := by
  induction slots generalizing unused i with
  | nil => cases unused <;> cases h
  | cons data slots ih =>
    unfold lookup at h
    split at h
    · obtain ⟨k, data', hslot, hdata, hrest⟩ := ih h
      exact ⟨k + 1, data', by omega, hdata, hrest⟩
    · rename_i hinit
      split at h
      · rename_i hmatch
        obtain rfl := Found.existing.inj h
        exact ⟨0, data, rfl, rfl, by simpa using hinit, of_decide_eq_true hmatch⟩
      · obtain ⟨k, data', hslot, hdata, hrest⟩ := ih h
        exact ⟨k + 1, data', by omega, hdata, hrest⟩

theorem lookup_unused (h : lookup max name unused i slots = .unused slot) : (unused = some slot ∨
      ∃ k data, slot = i + k ∧ slots[k]? = some data ∧ data.initialized = false) ∧
      ∀ data ∈ slots, data.initialized → storedName max name ≠ data.name := by
  induction slots generalizing unused i with
  | nil =>
    cases unused with
    | none => cases h
    | some j => exact ⟨Or.inl (congrArg some (Found.unused.inj h)), nofun⟩
  | cons data slots ih =>
    unfold lookup at h
    split at h
    · rename_i hinit
      have hinit : data.initialized = false := by simpa using hinit
      obtain ⟨hslot, hother⟩ := ih h
      refine ⟨Or.inr ?_, forall_mem_cons.mpr ⟨fun hd => absurd hd (by simp [hinit]), hother⟩⟩
      rcases hslot with hslot | ⟨k, data', hslot, hdata, hrest⟩
      · exact ⟨0, data, (Option.some.inj hslot).symm, rfl, hinit⟩
      · exact ⟨k + 1, data', by omega, hdata, hrest⟩
    · split at h
      · cases h
      · rename_i hmatch
        obtain ⟨hslot, hother⟩ := ih h
        refine ⟨?_, forall_mem_cons.mpr ⟨fun _ => by simpa [RawStatData.matchesName] using hmatch,
          hother⟩⟩
        rcases hslot with hslot | ⟨k, data', hslot, hdata, hrest⟩
        · exact Or.inl hslot
        · exact Or.inr ⟨k + 1, data', by omega, hdata, hrest⟩

theorem lookup_nothing (h : lookup max name unused i slots = .nothing) :
    unused = none ∧ ∀ data ∈ slots, data.initialized ∧ storedName max name ≠ data.name := by
  induction slots generalizing unused i with
  | nil =>
    cases unused with
    | none => exact ⟨rfl, nofun⟩
    | some j => cases h
  | cons data slots ih =>
    unfold lookup at h
    split at h
    · cases (ih h).1
    · rename_i hinit
      split at h
      · cases h
      · rename_i hmatch
        obtain ⟨hnone, hother⟩ := ih h
        exact ⟨hnone, forall_mem_cons.mpr
          ⟨⟨by simpa using hinit, by simpa [RawStatData.matchesName] using hmatch⟩, hother⟩⟩

end Lookup

/-!
## Every slot counts its references

As long as no name is allocated for the 65536th time the counts are right. The count has 16
bits, and that many references make it zero.
-/

namespace System

/-- The counts, and what they rest on: the names of the references are not empty, an unused
slot is zero. -/
structure Inv (s : System) : Prop extends s.Counted where
  named : ∀ reference ∈ s.references, reference.name.take s.maxNameLength ≠ []
  blank : ∀ data ∈ s.slots, data.initialized = false → data = .zero

/-- A name that is allocated has no NUL up to its truncation, and fewer than 65535 references. -/
def Regular (s : System) : Event → Prop
  | .alloc _ name =>
    (0 : UInt8) ∉ name.take s.maxNameLength ∧ s.outstanding (name.take s.maxNameLength) < 65535
  | _ => True

instance (s : System) : DecidablePred s.Regular
  | .alloc _ name => inferInstanceAs (Decidable ((0 : UInt8) ∉ name.take s.maxNameLength ∧
      s.outstanding (name.take s.maxNameLength) < 65535))
  | .free _ | .write _ _ _ _ => isTrue trivial

variable {s s' : System}
variable {name : Bytes}

theorem storedName_eq (h : (0 : UInt8) ∉ name.take s.maxNameLength) :
    storedName s.maxNameLength name = name.take s.maxNameLength := cStr_eq_self h

theorem create_inv (maxObjNameLength maxStats : Nat) : (create maxObjNameLength maxStats).Inv := by
  have hzero : ∀ {i : Nat} {data : RawStatData},
      (create maxObjNameLength maxStats).slots[i]? = some data → data = .zero := by
    intro i data h
    exact eq_of_mem_replicate (mem_of_getElem? h)
  refine { single := ?_, counted := ?_, held := nofun, named := nofun, blank := ?_ }
  · intro i j data data' hi _ hinit
    rw [hzero hi] at hinit
    cases hinit
  · intro i data hi hinit
    rw [hzero hi] at hinit
    cases hinit
  · intro data hdata _
    exact eq_of_mem_replicate hdata

theorem outstanding_cons (s : System) (slots : List RawStatData) (reference : Reference)
    (name : Bytes) :
    ({ s with slots := slots, references := reference :: s.references } : System).outstanding name =
      s.outstanding name + if reference.name.take s.maxNameLength = name then 1 else 0 := by
  rw [outstanding, countP_cons]
  simp only [decide_eq_true_eq]
  rfl

variable {reference : Reference}

theorem outstanding_freed (h : reference ∈ s.references) (name : Bytes) :
    s.outstanding name = (s.freed reference).outstanding name +
      if reference.name.take s.maxNameLength = name then 1 else 0 := by
  rw [outstanding, (perm_cons_erase h).countP_eq, countP_cons]
  simp only [decide_eq_true_eq]
  rfl

theorem outstanding_pos (h : reference ∈ s.references) :
    0 < s.outstanding (reference.name.take s.maxNameLength) :=
  countP_pos_iff.mpr ⟨reference, h, decide_eq_true rfl⟩

theorem Counted.outstanding_eq_zero (h : s.Counted)
    (hnone : ∀ data ∈ s.slots, data.initialized → data.name ≠ name) : s.outstanding name = 0 := by
  rw [outstanding, countP_eq_zero]
  intro reference hmem htake
  obtain ⟨data, hdata, hinit, hname⟩ := h.held reference hmem
  exact hnone data (mem_of_getElem? hdata) hinit (hname.trans (of_decide_eq_true htake))

variable {slots : List RawStatData} {f : RawStatData → RawStatData}

theorem of_modify {i j : Nat} {data' : RawStatData} (h : (slots.modify i f)[j]? = some data') :
    ∃ data, slots[j]? = some data ∧ data' = if i = j then f data else data := by
  rw [getElem?_modify] at h
  obtain ⟨data, hdata, heq⟩ := map_eq_some_iff.mp h
  exact ⟨data, hdata, heq.symm⟩

variable {data : RawStatData}

theorem modify_of (f : RawStatData → RawStatData) (i : Nat) {j : Nat} (h : slots[j]? = some data) :
    (slots.modify i f)[j]? = some (if i = j then f data else data) := by
  rw [getElem?_modify, h]
  rfl

variable {slot : Nat}

theorem Inv.keepNames (h : s.Inv)
    {references : List Reference} (hf : ∀ data, s.slots[slot]? = some data → (f data).name = data.name)
    (hreferences : ∀ reference ∈ references, ∃ data : RawStatData, s.slots[reference.slot]? = some data ∧
      data.initialized ∧ data.name = reference.name.take s.maxNameLength)
    (hcounted : ∀ (i : Nat) (data : RawStatData), s.slots[i]? = some data → data.initialized →
      (if slot = i then f data else data).refCount.toNat =
        ({ s with slots := s.slots.modify slot f, references := references } : System).outstanding
          data.name)
    (hblank : ∀ data, s.slots[slot]? = some data → data.initialized = false → f data = data) :
    ({ s with slots := s.slots.modify slot f, references := references } : System).Inv := by
  have hname : ∀ {i : Nat} {data' : RawStatData}, (s.slots.modify slot f)[i]? = some data' →
      ∃ data, s.slots[i]? = some data ∧ data' = (if slot = i then f data else data) ∧
        data'.name = data.name := by
    intro i data' hi
    obtain ⟨data, hdata, heq⟩ := of_modify hi
    refine ⟨data, hdata, heq, ?_⟩
    rw [heq]
    split
    · rename_i hslot
      exact hf data (hslot ▸ hdata)
    · rfl
  refine { single := ?_, counted := ?_, held := ?_, named := ?_, blank := ?_ }
  · intro i j data data' hi hj hinit hsame
    obtain ⟨d, hd, -, hdn⟩ := hname hi
    obtain ⟨d', hd', -, hdn'⟩ := hname hj
    refine h.single i j d d' hd hd' ?_ (hdn.symm.trans (hsame.trans hdn'))
    rwa [RawStatData.initialized, ← hdn]
  · intro i data' hi hinit
    obtain ⟨d, hd, heq, hdn⟩ := hname hi
    rw [RawStatData.initialized, hdn] at hinit
    rw [hdn, heq]
    exact hcounted i d hd hinit
  · intro reference hmem
    obtain ⟨d, hd, hinit, hdn⟩ := hreferences reference hmem
    have hnew := modify_of f slot hd
    obtain ⟨d', hd', -, hdn'⟩ := hname hnew
    cases hd.symm.trans hd'
    refine ⟨_, hnew, ?_, hdn'.trans hdn⟩
    rwa [RawStatData.initialized, hdn']
  · intro reference hmem
    obtain ⟨d, -, hinit, hdn⟩ := hreferences reference hmem
    exact hdn ▸ of_decide_eq_true hinit
  · intro data' hmem hinit
    obtain ⟨i, hi⟩ := mem_iff_getElem?.mp hmem
    obtain ⟨d, hd, heq, hdn⟩ := hname hi
    rw [RawStatData.initialized, hdn] at hinit
    have hzero := h.blank d (mem_of_getElem? hd) hinit
    rw [heq]
    split
    · rename_i hslot
      rw [hblank d (hslot ▸ hd) hinit]
      exact hzero
    · exact hzero

variable {count : UInt16}

theorem toNat_add_one (h : count.toNat < 65535) : (count + 1).toNat = count.toNat + 1 := by
  rw [UInt16.toNat_add]
  exact Nat.mod_eq_of_lt (by simp only [UInt16.reduceToNat]; omega)

theorem Inv.acquire (h : s.Inv) (hdata : s.slots[slot]? = some data) (hinit : data.initialized)
    (process : Nat) (hname : data.name = name.take s.maxNameLength)
    (hlt : s.outstanding (name.take s.maxNameLength) < 65535) : ({ s with
      slots := s.slots.modify slot .acquire
      references := ⟨process, name, slot⟩ :: s.references } : System).Inv := by
  refine h.keepNames (fun _ _ => rfl) ?_ ?_ ?_
  · intro reference hmem
    rcases mem_cons.mp hmem with rfl | hmem
    · exact ⟨data, hdata, hinit, hname⟩
    · exact h.held reference hmem
  · intro i d hd hdinit
    have hcount := h.counted i d hd hdinit
    rw [outstanding_cons]
    split
    · rename_i hslot
      subst hslot
      cases hdata.symm.trans hd
      rw [if_pos hname.symm, RawStatData.acquire, ← hcount]
      exact toNat_add_one (by rw [hcount, hname]; exact hlt)
    · rename_i hslot
      rw [if_neg, hcount, Nat.add_zero]
      intro hsame
      exact hslot (h.single slot i data d hdata hd hinit (hname.trans hsame))
  · intro d hd hdinit
    cases hdata.symm.trans hd
    rw [hinit] at hdinit
    cases hdinit

theorem Inv.write (h : s.Inv) (slot : Nat)
    (hf : ∀ data, (f data).name = data.name ∧ (f data).refCount = data.refCount)
    (hinit : ∀ data, s.slots[slot]? = some data → data.initialized) :
    ({ s with slots := s.slots.modify slot f } : System).Inv := by
  refine h.keepNames (fun data _ => (hf data).1) h.held ?_ ?_
  · intro i data hdata hdinit
    have hcount := h.counted i data hdata hdinit
    split
    · rw [(hf data).2]
      exact hcount
    · exact hcount
  · intro data hdata hdinit
    rw [hinit data hdata] at hdinit
    cases hdinit

theorem Inv.occupy (h : s.Inv) (hdata : s.slots[slot]? = some data)
    (hinit : data.initialized = false) (process : Nat)
    (hnone : ∀ d ∈ s.slots, d.initialized → d.name ≠ name.take s.maxNameLength)
    (hplain : (0 : UInt8) ∉ name.take s.maxNameLength) (hne : name.take s.maxNameLength ≠ []) :
    ({ s with
      slots := s.slots.modify slot fun data => data.initializeName s.maxNameLength name
      references := ⟨process, name, slot⟩ :: s.references } : System).Inv := by
  have hzero := h.outstanding_eq_zero hnone
  have hstored := storedName_eq hplain
  have hslots : ∀ {i : Nat} {d' : RawStatData},
      (s.slots.modify slot fun data => data.initializeName s.maxNameLength name)[i]? = some d' →
      (i = slot ∧ d'.name = name.take s.maxNameLength ∧ d'.refCount = 1) ∨
        (i ≠ slot ∧ s.slots[i]? = some d') := by
    intro i d' hi
    obtain ⟨d, hd, heq⟩ := of_modify hi
    split at heq
    · rename_i hslot
      exact Or.inl ⟨hslot.symm, by rw [heq]; exact hstored, by rw [heq]; rfl⟩
    · rename_i hslot
      exact Or.inr ⟨fun hi => hslot hi.symm, by rw [heq]; exact hd⟩
  refine { single := ?_, counted := ?_, held := ?_, named := ?_, blank := ?_ }
  · intro i j d d' hi hj hdinit hsame
    rcases hslots hi with ⟨rfl, hname, -⟩ | ⟨-, hold⟩ <;> rcases hslots hj with ⟨hj', hname', -⟩ | ⟨-, hold'⟩
    · exact hj'.symm
    · have hother := hnone d' (mem_of_getElem? hold')
      rw [RawStatData.initialized, hsame] at hdinit
      exact absurd (hsame.symm.trans hname) (hother hdinit)
    · exact absurd (hsame.trans hname') (hnone d (mem_of_getElem? hold) hdinit)
    · exact h.single i j d d' hold hold' hdinit hsame
  · intro i d' hi hdinit
    rw [outstanding_cons]
    rcases hslots hi with ⟨rfl, hname, hcount⟩ | ⟨-, hold⟩
    · rw [if_pos hname.symm, hname, hzero, hcount]
      rfl
    · rw [if_neg fun hsame => hnone d' (mem_of_getElem? hold) hdinit hsame.symm]
      exact h.counted i d' hold hdinit
  · intro reference hmem
    rcases mem_cons.mp hmem with rfl | hmem
    · refine ⟨_, modify_of _ slot hdata, ?_, ?_⟩
      · rw [if_pos rfl]
        exact decide_eq_true (fun hnil => hne (hstored.symm.trans hnil))
      · rw [if_pos rfl]
        exact hstored
    · obtain ⟨d, hd, hdinit, hname⟩ := h.held reference hmem
      have hslot : slot ≠ reference.slot := by
        rintro rfl
        cases hdata.symm.trans hd
        rw [hinit] at hdinit
        cases hdinit
      refine ⟨d, ?_, hdinit, hname⟩
      rw [modify_of _ slot hd, if_neg hslot]
  · intro reference hmem
    rcases mem_cons.mp hmem with rfl | hmem
    · exact hne
    · exact h.named reference hmem
  · intro d' hmem hdinit
    obtain ⟨i, hi⟩ := mem_iff_getElem?.mp hmem
    rcases hslots hi with ⟨-, hname, -⟩ | ⟨-, hold⟩
    · rw [RawStatData.initialized, hname, decide_eq_false_iff_not] at hdinit
      exact absurd hne hdinit
    · exact h.blank d' (mem_of_getElem? hold) hdinit

theorem toNat_sub_one (h : 0 < count.toNat) : (count - 1).toNat = count.toNat - 1 :=
  UInt16.toNat_sub_of_le _ _ (UInt16.le_iff_toNat_le.mpr h)

theorem release_of_one_lt (h : 1 < data.refCount.toNat) :
    data.release = { data with refCount := data.refCount - 1 } := by
  rw [RawStatData.release, if_pos]
  have hsub := toNat_sub_one (Nat.lt_trans Nat.zero_lt_one h)
  exact UInt16.lt_iff_toNat_lt.mpr (by rw [hsub]; exact Nat.sub_pos_of_lt h)

theorem release_of_one (h : data.refCount.toNat = 1) : data.release = .zero := by
  have hone : data.refCount = 1 := UInt16.toNat_inj.mp h
  rw [RawStatData.release, hone]
  rfl

section

variable (h : s.Inv)
include h

theorem Inv.slot_of (hmem : reference ∈ s.references) :
    ∃ data : RawStatData, s.slots[reference.slot]? = some data ∧ data.initialized ∧
      data.name = reference.name.take s.maxNameLength ∧
      data.refCount.toNat = s.outstanding (reference.name.take s.maxNameLength) := by
  obtain ⟨data, hdata, hinit, hname⟩ := h.held reference hmem
  exact ⟨data, hdata, hinit, hname, hname ▸ h.counted _ data hdata hinit⟩

theorem Inv.free (hmem : reference ∈ s.references) : (s.freed reference).Inv := by
  obtain ⟨data, hdata, hinit, hname, hcount⟩ := h.slot_of hmem
  have hpos := outstanding_pos hmem
  have hfreed := outstanding_freed hmem
  have hheld : ∀ r ∈ s.references.erase reference, ∃ data : RawStatData,
      s.slots[r.slot]? = some data ∧ data.initialized ∧ data.name = r.name.take s.maxNameLength :=
    fun r hr => h.held r (mem_of_mem_erase hr)
  have hother : ∀ {i : Nat} {d : RawStatData}, s.slots[i]? = some d → d.initialized →
      reference.slot ≠ i → (s.freed reference).outstanding d.name = d.refCount.toNat := by
    intro i d hd hdinit hne
    have hdiff : reference.name.take s.maxNameLength ≠ d.name := fun hsame =>
      hne (h.single _ i data d hdata hd hinit (hname.trans hsame))
    have hfreed := hfreed d.name
    rw [if_neg hdiff] at hfreed
    exact hfreed.symm.trans (h.counted i d hd hdinit).symm
  have hself := hfreed (reference.name.take s.maxNameLength)
  rw [if_pos rfl] at hself
  obtain hone | hmore : s.outstanding (reference.name.take s.maxNameLength) = 1 ∨
      1 < s.outstanding (reference.name.take s.maxNameLength) := by omega
  · -- the last reference: the slot is cleared, and no other reference names it
    have hzero := release_of_one (hcount.trans hone)
    have hslots : ∀ {i : Nat} {d' : RawStatData}, (s.freed reference).slots[i]? = some d' →
        d' = .zero ∨ (reference.slot ≠ i ∧ s.slots[i]? = some d') := by
      intro i d' hi
      obtain ⟨d, hd, heq⟩ := of_modify hi
      split at heq
      · rename_i hslot
        subst hslot
        cases hdata.symm.trans hd
        exact Or.inl (heq.trans hzero)
      · rename_i hslot
        exact Or.inr ⟨hslot, heq ▸ hd⟩
    refine { single := ?_, counted := ?_, held := ?_, named := ?_, blank := ?_ }
    · intro i j d d' hi hj hdinit hsame
      rcases hslots hi with rfl | ⟨-, hold⟩
      · cases hdinit
      rcases hslots hj with rfl | ⟨-, hold'⟩
      · rw [RawStatData.initialized, hsame] at hdinit
        cases hdinit
      · exact h.single i j d d' hold hold' hdinit hsame
    · intro i d' hi hdinit
      rcases hslots hi with rfl | ⟨hne, hold⟩
      · cases hdinit
      · exact (hother hold hdinit hne).symm
    · intro r hr
      obtain ⟨d, hd, hdinit, hdname⟩ := hheld r hr
      have hslot : reference.slot ≠ r.slot := by
        intro hsame
        rw [← hsame] at hd
        cases hdata.symm.trans hd
        have hrpos : 0 < (s.freed reference).outstanding (r.name.take s.maxNameLength) :=
          outstanding_pos (s := s.freed reference) hr
        rw [← hdname, hname] at hrpos
        omega
      refine ⟨d, ?_, hdinit, hdname⟩
      rw [freed, StatSlots.free, modify_of _ _ hd, if_neg hslot]
    · exact fun r hr => h.named r (mem_of_mem_erase hr)
    · intro d' hd' hdinit
      obtain ⟨i, hi⟩ := mem_iff_getElem?.mp hd'
      rcases hslots hi with rfl | ⟨-, hold⟩
      · rfl
      · exact h.blank d' (mem_of_getElem? hold) hdinit
  · have hrelease := release_of_one_lt (hcount ▸ hmore)
    refine h.keepNames ?_ hheld ?_ ?_
    · intro d hd
      cases hdata.symm.trans hd
      rw [hrelease]
    · intro i d hd hdinit
      split
      · rename_i hslot
        subst hslot
        cases hdata.symm.trans hd
        have hsub := @toNat_sub_one data.refCount (by omega)
        rw [hrelease]
        refine hsub.trans ?_
        rw [hcount, hself, hname]
        exact Nat.add_sub_cancel ..
      · rename_i hslot
        exact (hother hd hdinit hslot).symm
    · intro d hd hdinit
      cases hdata.symm.trans hd
      rw [hinit] at hdinit
      cases hdinit

theorem Inv.step_alloc (process : Nat) (hne : name ≠ [])
    (hplain : (0 : UInt8) ∉ name.take s.maxNameLength)
    (hlt : s.outstanding (name.take s.maxNameLength) < 65535)
    (hstep : s.step (.alloc process name) = some s') :
    s'.Inv ∧ Sound s (.alloc process name) s' := by
  have hstored := storedName_eq hplain
  have hnil : name.take s.maxNameLength ≠ [] := by
    obtain ⟨c, rest, rfl⟩ := exists_cons_of_ne_nil hne
    rw [maxNameLength, take_succ_cons]
    exact cons_ne_nil _ _
  simp only [step, if_neg hne] at hstep
  cases hlookup : lookup s.maxNameLength name none 0 s.slots with
  | existing slot =>
    have halloc : alloc s.maxNameLength s.slots name =
        (s.slots.modify slot .acquire, some slot) := by rw [alloc, hlookup]
    obtain ⟨k, data, hk, hdata, hinit, hname⟩ := lookup_existing hlookup
    rw [Nat.zero_add] at hk
    subst hk
    rw [halloc] at hstep
    cases hstep
    refine ⟨h.acquire hdata hinit process (hname.symm.trans hstored) hlt, ?_, ?_, ?_⟩
    · rintro _ _ slot' ⟨⟩ hslot
      rw [halloc] at hslot
      cases hslot
      exact ⟨data, hdata, fun _ => hname.symm.trans hstored⟩
    · rintro _ _ ⟨⟩ hnone
      rw [halloc] at hnone
      cases hnone
    · intro i d hd hdinit _ _
      refine ⟨_, modify_of _ _ hd, ?_⟩
      split <;> exact ⟨rfl, rfl, rfl, rfl⟩
  | unused slot =>
    have halloc : alloc s.maxNameLength s.slots name =
        (s.slots.modify slot fun data => data.initializeName s.maxNameLength name, some slot) := by
      rw [alloc, hlookup]
    obtain ⟨hslot, hnone⟩ := lookup_unused hlookup
    obtain ⟨k, data, hk, hdata, hinit⟩ := hslot.resolve_left nofun
    rw [Nat.zero_add] at hk
    subst hk
    rw [halloc] at hstep
    cases hstep
    have hother : ∀ d ∈ s.slots, d.initialized → d.name ≠ name.take s.maxNameLength :=
      fun d hd hdinit hsame => hnone d hd hdinit (hstored.trans hsame.symm)
    refine ⟨h.occupy hdata hinit process hother hplain hnil, ?_, ?_, ?_⟩
    · rintro _ _ slot' ⟨⟩ hslot
      rw [halloc] at hslot
      cases hslot
      exact ⟨data, hdata, fun hd => absurd hd (by simp [hinit])⟩
    · rintro _ _ ⟨⟩ hnone
      rw [halloc] at hnone
      cases hnone
    · intro i d hd hdinit _ _
      have hslot : slot ≠ i := by
        rintro rfl
        cases hdata.symm.trans hd
        rw [hinit] at hdinit
        cases hdinit
      exact ⟨d, by rw [modify_of _ _ hd, if_neg hslot], rfl, rfl, rfl, rfl⟩
  | nothing =>
    have halloc : alloc s.maxNameLength s.slots name = (s.slots, none) := by rw [alloc, hlookup]
    rw [halloc] at hstep
    cases hstep
    refine ⟨h, ?_, ?_, ?_⟩
    · rintro _ _ slot' ⟨⟩ hslot
      rw [halloc] at hslot
      cases hslot
    · rintro _ _ ⟨⟩ _ data hdata
      obtain ⟨hinit, hname⟩ := (lookup_nothing hlookup).2 data hdata
      exact ⟨hinit, fun hsame => hname (hstored.trans hsame.symm)⟩
    · exact fun i d hd _ _ _ => ⟨d, hd, rfl, rfl, rfl, rfl⟩

theorem Inv.step_free (hstep : s.step (.free reference) = some s') :
    s'.Inv ∧ Sound s (.free reference) s' := by
  simp only [step] at hstep
  split at hstep
  · rename_i hmem
    cases hstep
    have hinv := h.free hmem
    refine ⟨hinv, nofun, nofun, ?_⟩
    rintro i d hd hdinit - ⟨r, hr, rfl⟩
    obtain ⟨d', hd', hinit', hname', -⟩ := hinv.slot_of hr
    obtain ⟨d₀, hd₀, heq⟩ := of_modify hd'
    cases hd.symm.trans hd₀
    refine ⟨d', hd', ?_⟩
    split at heq
    · -- a slot that is still named has not been cleared
      rw [RawStatData.release] at heq
      split at heq
      · rw [heq]
        exact ⟨rfl, rfl, rfl, rfl⟩
      · rw [heq] at hinit'
        cases hinit'
    · rw [heq]
      exact ⟨rfl, rfl, rfl, rfl⟩
  · cases hstep

theorem Inv.step_write {value pendingIncrement : UInt64} {flags : UInt16}
    (hstep : s.step (.write reference value pendingIncrement flags) = some s') :
    s'.Inv ∧ Sound s (.write reference value pendingIncrement flags) s' := by
  simp only [step] at hstep
  split at hstep
  · rename_i hmem
    cases hstep
    obtain ⟨data, hdata, hinit, -⟩ := h.slot_of hmem
    refine ⟨h.write reference.slot (fun _ => ⟨rfl, rfl⟩) ?_, nofun, nofun, ?_⟩
    · intro d hd
      cases hdata.symm.trans hd
      exact hinit
    · rintro i d hd - hwrites -
      have hslot : reference.slot ≠ i := hwrites
      exact ⟨d, by rw [modify_of _ _ hd, if_neg hslot], rfl, rfl, rfl, rfl⟩
  · cases hstep

theorem Inv.step {event : Event} (hregular : s.Regular event)
    (hstep : s.step event = some s') : s'.Inv ∧ Sound s event s' := by
  cases event with
  | alloc process name =>
    by_cases hne : name = []
    · rw [System.step, if_pos hne] at hstep
      cases hstep
    · exact h.step_alloc process hne hregular.1 hregular.2 hstep
  | free reference => exact h.step_free hstep
  | write reference value pendingIncrement flags => exact h.step_write hstep

end

/-- In a run without a 65536th reference every state counts its references, and every further
step is sound. -/
theorem regular_counted (maxObjNameLength maxStats : Nat) (events : List Event)
    (hmeet : AllMeet step Regular (create maxObjNameLength maxStats) events)
    (hrun : run step (create maxObjNameLength maxStats) events = some s) :
    s.Counted ∧ ∀ event s', s.Regular event → s.step event = some s' → Sound s event s' := by
  have hinv : s.Inv := run_invariant (fun _ _ _ h hregular hstep => (h.step hregular hstep).1) hmeet
    (create_inv maxObjNameLength maxStats) hrun
  exact ⟨hinv.toCounted, fun _ _ hregular hstep => (hinv.step hregular hstep).2⟩

def sharedEvents : List Event :=
  [.alloc 0 (ascii "cluster.a"), .write ⟨0, ascii "cluster.a", 1⟩ 5 5 1, .alloc 1 (ascii "cluster.a"),
    .alloc 1 (ascii "cluster.b"), .free ⟨0, ascii "cluster.a", 1⟩]

theorem sharedEvents_counted : ∃ s, run step (create 60 2) sharedEvents = some s ∧ s.Counted := by
  obtain ⟨s, hs⟩ := isSome_iff_exists.mp
    (by decide +kernel : (run step (create 60 2) sharedEvents).isSome = true)
  exact ⟨s, hs, (regular_counted 60 2 sharedEvents (by decide +kernel) hs).1⟩

def crowded (count : Nat) : System where
  maxObjNameLength := 60
  slots := [⟨0, 0, 0, UInt16.ofNat count, ascii "a"⟩]
  references := List.replicate count ⟨0, ascii "a", 0⟩

theorem crowded_step (count : Nat) :
    (crowded count).step (.alloc 0 (ascii "a")) = some (crowded (count + 1)) := by
  have hcount : UInt16.ofNat count + 1 = UInt16.ofNat (count + 1) := (UInt16.ofNat_add count 1).symm
  have halloc : alloc (crowded count).maxNameLength (crowded count).slots (ascii "a") =
      ((crowded (count + 1)).slots, some 0) := by
    simp only [crowded, ← hcount]
    rfl
  rw [step, if_neg (by decide), halloc]
  rfl

theorem run_crowded (count more : Nat) :
    run step (crowded count) (List.replicate more (.alloc 0 (ascii "a"))) =
      some (crowded (count + more)) := by
  induction more generalizing count with
  | zero => rfl
  | succ more ih =>
    rw [replicate_succ, run, crowded_step, bind_some, ih, Nat.add_right_comm, Nat.add_assoc]

/-- The count of 65536 references is zero. -/
theorem crowdedEvents_not_counted :
    ∃ s, run step (create 60 1) (List.replicate 65536 (.alloc 0 (ascii "a"))) = some s ∧
      ¬ s.Counted := by
  have hfirst : (create 60 1).step (.alloc 0 (ascii "a")) = some (crowded 1) := by decide +kernel
  refine ⟨crowded 65536, ?_, fun h => ?_⟩
  · rw [replicate_succ, run, hfirst, bind_some, run_crowded]
  · have hcount := h.counted 0 _ rfl (by decide)
    have hreferences : (crowded 65536).outstanding (ascii "a") = 65536 := by
      rw [outstanding, crowded, countP_replicate]
      rfl
    rw [hreferences] at hcount
    exact absurd hcount (by decide)

end System

end Meliproxy.Envoy.Server.StatSlots
