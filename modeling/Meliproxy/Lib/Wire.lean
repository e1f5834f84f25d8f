import Meliproxy.Lib.Text

/-!
# Wire formats

Words in little-endian order, readers that take bytes off the front of a buffer, and streams
of frames that arrive in chunks. `Reads` says what a reader makes of some bytes with a rest
after them, and `feed_framed` that chunks do not matter to a decoder which waits for a whole
frame.
-/

namespace Lib

open List

def littleEndian : Nat → Nat → Bytes
  | 0, _ => []
  | width + 1, n => n.toUInt8 :: littleEndian width (n / 256)

def fromLittleEndian : Bytes → Nat
  | [] => 0
  | b :: bs => b.toNat + 256 * fromLittleEndian bs

@[simp] theorem length_littleEndian (width n : Nat) : (littleEndian width n).length = width := by
  induction width generalizing n with
  | zero => rfl
  | succ width ih => simp only [littleEndian, length_cons, ih]

theorem fromLittleEndian_littleEndian (width n : Nat) (h : n < 256 ^ width) :
    fromLittleEndian (littleEndian width n) = n := by
  induction width generalizing n with
  | zero =>
    rw [Nat.pow_zero] at h
    simp only [littleEndian, fromLittleEndian]
    omega
  | succ width ih =>
    have hrest : n / 256 < 256 ^ width := by
      rw [Nat.pow_succ] at h
      exact Nat.div_lt_of_lt_mul (Nat.mul_comm _ _ ▸ h)
    have hbyte : n.toUInt8.toNat = n % 256 := by
      simp
    simp only [littleEndian, fromLittleEndian, ih _ hrest, hbyte]
    omega

abbrev Reader (ε α : Type) := StateT Bytes (Except ε) α

/-- The reader takes these bytes off the buffer and makes `a` of them. -/
def Reads {ε α : Type} (r : Reader ε α) (bytes : Bytes) (a : α) (rest : Bytes) : Prop :=
  r (bytes ++ rest) = .ok (a, rest)

section Reader

variable {ε α β : Type} {r : Reader ε α} {f : α → Reader ε β} {a : α} {b : β}
  {bytes bytes' rest : Bytes}

theorem reads_pure (a : α) (rest : Bytes) : Reads (pure a : Reader ε α) [] a rest := rfl

theorem Reads.bind (h : Reads r bytes a (bytes' ++ rest)) (h' : Reads (f a) bytes' b rest) :
    Reads (r >>= f) (bytes ++ bytes') b rest := by
  unfold Reads at h h' ⊢
  rw [append_assoc]
  simp only [Bind.bind, StateT.bind, h, Except.bind]
  exact h'

theorem Reads.map {g : α → β} (h : Reads r bytes a rest) :
    Reads (r >>= fun a => pure (g a)) bytes (g a) rest := by
  unfold Reads at h ⊢
  simp only [Bind.bind, StateT.bind, h, Except.bind]
  rfl

theorem reads_get {f : Bytes → Reader ε β} (h : Reads (f (bytes ++ rest)) bytes b rest) :
    Reads (get >>= f) bytes b rest := h

theorem reads_set (bytes rest : Bytes) : Reads (set rest : Reader ε PUnit) bytes ⟨⟩ rest := rfl

theorem Reads.peek (h : Reads r [] a (bytes ++ rest)) (h' : Reads (f a) bytes b rest) :
    Reads (r >>= f) bytes b rest := h.bind h'

/-- The reader, as often as `n` says. -/
def readTimes (r : Reader ε α) : Nat → Reader ε (List α)
  | 0 => pure []
  | n + 1 => do
    let a ← r
    let as ← readTimes r n
    return a :: as

theorem readTimes_map {γ : Type} {write : γ → Bytes} {value : γ → α} {cs : List γ}
    (h : ∀ c ∈ cs, ∀ rest, Reads r (write c) (value c) rest) (rest : Bytes) :
    Reads (readTimes r cs.length) (cs.flatMap write) (cs.map value) rest := by
  induction cs with
  | nil => exact reads_pure [] rest
  | cons c cs ih =>
    apply (h c mem_cons_self _).bind
    exact (ih (fun c' hc' => h c' (mem_cons_of_mem c hc'))).map

theorem readTimes_reads {write : α → Bytes} {as : List α}
    (h : ∀ a ∈ as, ∀ rest, Reads r (write a) a rest) (rest : Bytes) :
    Reads (readTimes r as.length) (as.flatMap write) as rest := by
  have hmap : Reads (readTimes r as.length) (as.flatMap write) (as.map fun a => a) rest :=
    readTimes_map h rest
  rwa [map_id'] at hmap

end Reader

section Frames

variable {ε μ : Type}

/-- Decodes as long as there is a whole frame; the decoder answers `none` if there is none. -/
def drainFrames (decode : Bytes → Except ε (Option (μ × Bytes))) :
    Nat → Bytes → List μ × Except ε Bytes
  | 0, data => ([], .ok data)
  | fuel + 1, data =>
    if data = [] then ([], .ok data)
    else
      match decode data with
      | .error e => ([], .error e)
      | .ok none => ([], .ok data)
      | .ok (some (m, rest)) => (m :: (drainFrames decode fuel rest).1, (drainFrames decode fuel rest).2)

/-- The chunks are added to the buffer one by one, up to the first error. -/
def feedFrames (onData : Bytes → List μ × Except ε Bytes) :
    Bytes → List Bytes → List μ × Except ε Bytes
  | data, [] => ([], .ok data)
  | data, chunk :: chunks =>
    match onData (data ++ chunk) with
    | (ms, .error e) => (ms, .error e)
    | (ms, .ok rest) => (ms ++ (feedFrames onData rest chunks).1, (feedFrames onData rest chunks).2)

/-- The bytes are a frame: whole, they decode whatever follows, and a part of them does not. -/
structure Framed (decode : Bytes → Except ε (Option (μ × Bytes))) (m : μ) (bytes : Bytes) : Prop where
  nonempty : bytes ≠ []
  whole : ∀ rest, decode (bytes ++ rest) = .ok (some (m, rest))
  part : ∀ front back, front ++ back = bytes → back ≠ [] → decode front = .ok none

variable {decode : Bytes → Except ε (Option (μ × Bytes))}

/-- What lies in the buffer is less than the first frame. -/
def Unfinished (frames : List (μ × Bytes)) (data : Bytes) : Prop :=
  match frames with
  | [] => data = []
  | frame :: _ => ∃ back, back ≠ [] ∧ data ++ back = frame.2

theorem frame_split {data rest bytes tail : Bytes} (h : data ++ rest = bytes ++ tail) :
    (∃ more, data = bytes ++ more ∧ more ++ rest = tail) ∨
      ∃ back, back ≠ [] ∧ data ++ back = bytes := by
  rcases append_eq_append_iff.mp h with ⟨back, hback, hrest⟩ | ⟨more, hmore, htail⟩
  · by_cases hne : back = []
    · subst hne
      rw [append_nil] at hback
      exact .inl ⟨[], by rw [append_nil, hback], hrest⟩
    · exact .inr ⟨back, hne, hback.symm⟩
  · exact .inl ⟨more, hmore, htail.symm⟩

theorem drainFrames_framed {frames : List (μ × Bytes)}
    (hframes : ∀ f ∈ frames, Framed decode f.1 f.2) {data rest : Bytes}
    (hdata : data ++ rest = frames.flatMap Prod.snd) {fuel : Nat} (hfuel : data.length ≤ fuel) :
    ∃ done left buffer, frames = done ++ left ∧ Unfinished left buffer ∧
      buffer ++ rest = left.flatMap Prod.snd ∧
      drainFrames decode fuel data = (done.map Prod.fst, .ok buffer) := by
  induction frames generalizing data fuel with
  | nil =>
    obtain rfl : data = [] := (append_eq_nil_iff.mp hdata).1
    refine ⟨[], [], [], rfl, rfl, hdata, ?_⟩
    cases fuel <;> rfl
  | cons frame frames ih =>
    have hframe := hframes frame mem_cons_self
    rcases frame_split hdata with ⟨more, rfl, hmore⟩ | ⟨back, hback, hpart⟩
    · have hlength := length_pos_iff.mpr hframe.nonempty
      rw [length_append] at hfuel
      obtain ⟨fuel, rfl⟩ : ∃ n, fuel = n + 1 := ⟨fuel - 1, by omega⟩
      obtain ⟨done, left, buffer, hsplit, hunfinished, hrest, hdrain⟩ :=
        ih (fun f hf => hframes f (mem_cons_of_mem frame hf)) hmore (show more.length ≤ fuel by omega)
      refine ⟨frame :: done, left, buffer, by rw [hsplit, cons_append], hunfinished, hrest, ?_⟩
      have hne : frame.2 ++ more ≠ [] := append_ne_nil_of_left_ne_nil hframe.nonempty more
      simp only [drainFrames, if_neg hne, hframe.whole more, hdrain, map_cons]
    · refine ⟨[], frame :: frames, data, rfl, ⟨back, hback, hpart⟩, hdata, ?_⟩
      cases fuel with
      | zero => rfl
      | succ fuel =>
        unfold drainFrames
        split
        · rfl
        · rw [hframe.part data back hpart hback]
          rfl

/-- The frames come out in order, whatever the chunks in which they arrive. -/
theorem feedFrames_framed {onData : Bytes → List μ × Except ε Bytes}
    (honData : ∀ data, onData data = drainFrames decode data.length data)
    {frames : List (μ × Bytes)} (hframes : ∀ f ∈ frames, Framed decode f.1 f.2)
    {chunks : List Bytes} {data : Bytes} (hunfinished : Unfinished frames data)
    (hdata : data ++ chunks.flatten = frames.flatMap Prod.snd) :
    feedFrames onData data chunks = (frames.map Prod.fst, .ok []) := by
  induction chunks generalizing frames data with
  | nil =>
    rw [flatten_nil, append_nil] at hdata
    cases frames with
    | nil =>
      rw [show data = [] from hunfinished]
      rfl
    | cons frame frames =>
      -- the whole frame would have to be in the buffer
      obtain ⟨back, hback, hpart⟩ := hunfinished
      have hlength := congrArg List.length hpart
      have hpos := length_pos_iff.mpr hback
      rw [hdata, flatMap_cons] at hlength
      simp only [length_append] at hlength
      omega
  | cons chunk chunks ih =>
    rw [flatten_cons, ← append_assoc] at hdata
    obtain ⟨done, left, buffer, rfl, hleft, hrest, hdrain⟩ :=
      drainFrames_framed hframes hdata (Nat.le_refl _)
    have hih := ih (fun f hf => hframes f (mem_append_right done hf)) hleft hrest
    simp only [feedFrames, honData, hdrain, hih, map_append]

end Frames

section Cuts

variable {ε μ : Type} {decode : Bytes → Except ε (Option (μ × Bytes))} {limit : Nat}

def drainCalls (decode : Bytes → Except ε (Option (μ × Bytes))) : Nat → Bytes → List Bytes
  | 0, _ => []
  | fuel + 1, data =>
    if data = [] then []
    else
      data :: match decode data with
        | .ok (some (_, rest)) => drainCalls decode fuel rest
        | _ => []

def feedCalls (decode : Bytes → Except ε (Option (μ × Bytes))) : Bytes → List Bytes → List Bytes
  | _, [] => []
  | data, chunk :: chunks =>
    drainCalls decode (data ++ chunk).length (data ++ chunk) ++
      match (drainFrames decode (data ++ chunk).length (data ++ chunk)).2 with
      | .ok rest => feedCalls decode rest chunks
      | .error _ => []

/-- A frame for a decoder that is given less than `limit` bytes. -/
structure FramedWithin (limit : Nat) (decode : Bytes → Except ε (Option (μ × Bytes))) (m : μ)
    (bytes : Bytes) : Prop where
  nonempty : bytes ≠ []
  whole : ∀ rest, (bytes ++ rest).length < limit → decode (bytes ++ rest) = .ok (some (m, rest))
  part : ∀ front back, front ++ back = bytes → back ≠ [] → decode front = .ok none

/-- If the decoder takes something off the buffer, then a frame. -/
def TakesFrame (limit : Nat) (decode : Bytes → Except ε (Option (μ × Bytes)))
    (data : Bytes) : Prop :=
  data.length < limit → ∀ m rest, decode data = .ok (some (m, rest)) →
    ∃ bytes, data = bytes ++ rest ∧ FramedWithin limit decode m bytes

def Stuck (limit : Nat) (decode : Bytes → Except ε (Option (μ × Bytes))) (data : Bytes) : Prop :=
  ∀ m bytes rest, FramedWithin limit decode m bytes → data ≠ bytes ++ rest

theorem stuck_of_none {data : Bytes} (hlimit : data.length < limit)
    (h : data = [] ∨ decode data = .ok none) : Stuck limit decode data := by
  rintro m bytes rest hframe rfl
  rcases h with hnil | hnone
  · exact hframe.nonempty (append_eq_nil_iff.mp hnil).1
  · rw [hframe.whole rest hlimit] at hnone
    cases hnone

theorem stuck_of_error {data more : Bytes} {e : ε} (hlimit : data.length < limit)
    (h : decode data = .error e) : Stuck limit decode (data ++ more) := by
  rintro m bytes rest hframe hdata
  rcases frame_split hdata with ⟨left, rfl, -⟩ | ⟨back, hback, hpart⟩
  · rw [hframe.whole left hlimit] at h
    cases h
  · rw [hframe.part data back hpart hback] at h
    cases h

theorem drainFrames_cases {fuel : Nat} {data : Bytes} (hfuel : data.length ≤ fuel)
    (hlimit : data.length < limit)
    (hcalls : ∀ call ∈ drainCalls decode fuel data, TakesFrame limit decode call) :
    ∃ (frames : List (μ × Bytes)) (left : Bytes), data = frames.flatMap Prod.snd ++ left ∧
      (∀ f ∈ frames, FramedWithin limit decode f.1 f.2) ∧
      (drainFrames decode fuel data).1 = frames.map Prod.fst ∧
      (((drainFrames decode fuel data).2 = .ok left ∧ (left = [] ∨ decode left = .ok none)) ∨
        ∃ e, (drainFrames decode fuel data).2 = .error e ∧ decode left = .error e) := by
  induction fuel generalizing data with
  | zero =>
    obtain rfl := length_eq_zero_iff.mp (Nat.le_zero.mp hfuel)
    exact ⟨[], [], rfl, nofun, rfl, .inl ⟨rfl, .inl rfl⟩⟩
  | succ fuel ih =>
    by_cases hempty : data = []
    · subst hempty
      exact ⟨[], [], rfl, nofun, rfl, .inl ⟨rfl, .inl rfl⟩⟩
    · simp only [drainCalls, drainFrames, if_neg hempty] at hcalls ⊢
      cases hdecode : decode data with
      | error e => exact ⟨[], data, rfl, nofun, rfl, .inr ⟨e, rfl, hdecode⟩⟩
      | ok read =>
        cases read with
        | none => exact ⟨[], data, rfl, nofun, rfl, .inl ⟨rfl, .inr hdecode⟩⟩
        | some read =>
          obtain ⟨m, rest⟩ := read
          simp only [hdecode] at hcalls
          obtain ⟨bytes, hdata, hframe⟩ := hcalls data mem_cons_self hlimit m rest hdecode
          have hpos := length_pos_iff.mpr hframe.nonempty
          rw [hdata, length_append] at hfuel hlimit
          obtain ⟨frames, left, hrest, hframes, hms, hresult⟩ :=
            ih (show rest.length ≤ fuel by omega) (by omega)
              fun call hcall => hcalls call (mem_cons_of_mem data hcall)
          refine ⟨(m, bytes) :: frames, left, ?_, ?_, ?_, hresult⟩
          · rw [hdata, hrest, flatMap_cons, append_assoc]
          · intro f hf
            rcases mem_cons.mp hf with rfl | hf
            · exact hframe
            · exact hframes f hf
          · rw [map_cons, ← hms]

variable {onData : Bytes → List μ × Except ε Bytes}

theorem feedFrames_cases (honData : ∀ data, onData data = drainFrames decode data.length data)
    {data : Bytes}
    {chunks : List Bytes} (hlimit : (data ++ chunks.flatten).length < limit)
    (hstuck : Stuck limit decode data)
    (hcalls : ∀ call ∈ feedCalls decode data chunks, TakesFrame limit decode call) :
    ∃ (frames : List (μ × Bytes)) (tail : Bytes),
      data ++ chunks.flatten = frames.flatMap Prod.snd ++ tail ∧
      (∀ f ∈ frames, FramedWithin limit decode f.1 f.2) ∧
      (feedFrames onData data chunks).1 = frames.map Prod.fst ∧ Stuck limit decode tail := by
  induction chunks generalizing data with
  | nil => exact ⟨[], data, append_nil data, nofun, rfl, hstuck⟩
  | cons chunk chunks ih =>
    rw [flatten_cons, ← append_assoc] at hlimit ⊢
    rw [feedCalls] at hcalls
    have hbuffer : (data ++ chunk).length < limit := by
      rw [length_append] at hlimit
      omega
    obtain ⟨frames, left, hdata, hframes, hms, hresult⟩ := drainFrames_cases (Nat.le_refl _) hbuffer
      fun call hcall => hcalls call (mem_append_left _ hcall)
    have hleft : left.length < limit := by
      rw [hdata, length_append] at hbuffer
      omega
    rcases hresult with ⟨hok, hwait⟩ | ⟨e, herror, hfail⟩
    · rw [hok] at hcalls
      rw [hdata, append_assoc] at hlimit
      obtain ⟨frames', tail, hrest, hframes', hms', hstuck'⟩ := ih
        (by rw [length_append] at hlimit; omega) (stuck_of_none hleft hwait)
        fun call hcall => hcalls call (mem_append_right _ hcall)
      refine ⟨frames ++ frames', tail, ?_, ?_, ?_, hstuck'⟩
      · rw [hdata, append_assoc, hrest, flatMap_append, append_assoc]
      · intro f hf
        rcases mem_append.mp hf with hf | hf
        · exact hframes f hf
        · exact hframes' f hf
      · have hpair : onData (data ++ chunk) = (frames.map Prod.fst, .ok left) := by
          rw [honData, ← hms, ← hok]
        simp [feedFrames, hpair, hms']
    · refine ⟨frames, left ++ chunks.flatten, ?_, hframes, ?_, stuck_of_error hleft hfail⟩
      · rw [hdata, append_assoc]
      · have hpair : onData (data ++ chunk) = (frames.map Prod.fst, .error e) := by
          rw [honData, ← hms, ← herror]
        simp only [feedFrames, hpair]

/-- There is one way to cut a stream into frames. -/
theorem frames_unique {frames frames' : List (μ × Bytes)} {tail tail' : Bytes}
    (h : frames.flatMap Prod.snd ++ tail = frames'.flatMap Prod.snd ++ tail')
    (hlimit : (frames.flatMap Prod.snd ++ tail).length < limit)
    (hframes : ∀ f ∈ frames, FramedWithin limit decode f.1 f.2)
    (hframes' : ∀ f ∈ frames', FramedWithin limit decode f.1 f.2)
    (hstuck : Stuck limit decode tail) (hstuck' : Stuck limit decode tail') :
    frames.map Prod.fst = frames'.map Prod.fst := by
  induction frames generalizing frames' with
  | nil =>
    cases frames' with
    | nil => rfl
    | cons f frames' =>
      rw [flatMap_nil, nil_append, flatMap_cons, append_assoc] at h
      exact absurd h (hstuck f.1 f.2 _ (hframes' f mem_cons_self))
  | cons f frames ih =>
    rw [flatMap_cons, append_assoc] at h hlimit
    have hframe := hframes f mem_cons_self
    cases frames' with
    | nil => exact absurd h.symm (hstuck' f.1 f.2 _ hframe)
    | cons f' frames' =>
      have hframe' := hframes' f' mem_cons_self
      rw [flatMap_cons, append_assoc] at h
      have hfirst := hframe.whole _ hlimit
      rw [h] at hlimit hfirst
      obtain ⟨hm, hrest⟩ := Prod.mk.inj (Option.some.inj (Except.ok.inj
        (hfirst.symm.trans (hframe'.whole _ hlimit))))
      rw [map_cons, map_cons, hm]
      congr 1
      apply ih hrest
      · rw [hrest]
        rw [length_append] at hlimit
        omega
      · exact fun f hf => hframes f (mem_cons_of_mem _ hf)
      · exact fun f hf => hframes' f (mem_cons_of_mem _ hf)

/-- A decoder that always takes frames off delivers the same, however the stream is cut. -/
theorem feedFrames_cut (honData : ∀ data, onData data = drainFrames decode data.length data)
    {chunks chunks' : List Bytes} (h : chunks.flatten = chunks'.flatten)
    (hlimit : chunks.flatten.length < limit)
    (hcalls : ∀ call ∈ feedCalls decode [] chunks, TakesFrame limit decode call)
    (hcalls' : ∀ call ∈ feedCalls decode [] chunks', TakesFrame limit decode call) :
    (feedFrames onData [] chunks).1 = (feedFrames onData [] chunks').1 := by
  have hstuck : Stuck limit decode [] := stuck_of_none (Nat.zero_lt_of_lt hlimit) (.inl rfl)
  obtain ⟨frames, tail, hstream, hframes, hms, htail⟩ :=
    feedFrames_cases honData hlimit hstuck hcalls
  rw [h] at hlimit
  obtain ⟨frames', tail', hstream', hframes', hms', htail'⟩ :=
    feedFrames_cases honData hlimit hstuck hcalls'
  rw [hms, hms']
  rw [nil_append] at hstream hstream'
  apply frames_unique _ _ hframes hframes' htail htail'
  · rw [← hstream, ← hstream', h]
  · rw [← hstream, h]
    exact hlimit

end Cuts

theorem slice_cases {slice left more : Bytes} (h : slice <+: left ++ more) :
    if slice.length < left.length then slice ++ left.drop slice.length = left
    else left ++ slice.drop left.length = slice := by
  split
  · next hlt =>
    exact prefix_iff_eq_append.mp
      (prefix_of_prefix_length_le h (prefix_append left more) (by omega))
  · next hge =>
    exact prefix_iff_eq_append.mp
      (prefix_of_prefix_length_le (prefix_append left more) h (by omega))

end Lib
