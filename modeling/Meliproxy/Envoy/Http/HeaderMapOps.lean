import Meliproxy.Envoy.Http.HeaderMapConsistent
import Meliproxy.Lib.Trie

/-!
# The header map as a multimap

The rest of the public functions of `HeaderMapImpl`, and what any sequence of them amounts to.
Seen from outside, the map is a list of keys and values in the order of their insertion, in
which an inline key occurs once at most: `Simulates` compares the two, and says where the
inline pointers point.
-/

namespace Meliproxy.Envoy.Http

open Lib List

/-- `StaticLookupTable`: a trie of the inline headers, and last the legacy host header. -/
def staticLookupTable : Trie UInt8 InlineHeader :=
  Trie.ofList (InlineHeader.all.map (fun header => (header.key, header)) ++ [(ascii "host", .host)])

theorem find_staticLookupTable (key : Bytes) :
    Trie.find key staticLookupTable = staticLookup key := by
  have hone : ∀ a ∈ InlineHeader.all.map (fun header => (header.key, header)),
      ∀ b ∈ InlineHeader.all.map (fun header => (header.key, header)),
      decide (a.1 = key) = true → decide (b.1 = key) = true → a = b := by
    intro a ha b hb hak hbk
    obtain ⟨header, -, rfl⟩ := mem_map.mp ha
    obtain ⟨header', -, rfl⟩ := mem_map.mp hb
    obtain rfl := InlineHeader.key_injective ((of_decide_eq_true hak).trans (of_decide_eq_true hbk).symm)
    rfl
  rw [staticLookupTable, Trie.find_ofList, reverse_append, reverse_singleton,
    singleton_append, find?_cons, find_reverse hone, find?_map, staticLookup]
  by_cases hhost : key = ascii "host"
  · rw [if_pos hhost, decide_eq_true hhost.symm]
    rfl
  · rw [if_neg hhost, decide_eq_false fun h => hhost h.symm, Option.map_map]
    exact Option.map_id'

abbrev Headers := { m : HeaderMap // m.Consistent }

def headersOf (headers : List (Bytes × Bytes)) : Headers :=
  ⟨.ofHeaders (headers.map fun header => (.setReference header.1, .setReference header.2)),
    HeaderMap.consistent_ofHeaders _⟩

/-- `itoa` writes the decimal text of the number. -/
def HeaderString.setInteger (s : HeaderString) (value : UInt64) : HeaderString :=
  ⟨if s.type = .reference then .inline else s.type, decimal value.toNat⟩

def HeaderString.clear (s : HeaderString) : HeaderString :=
  if s.type = .reference then s else ⟨s.type, []⟩

inductive Iterate where
  | continue
  | break

namespace HeaderMap

variable (m : HeaderMap)

def addReference (key : LowerCaseString) (value : Bytes) : HeaderMap :=
  m.addViaMove ⟨.reference, key.get⟩ ⟨.reference, value⟩

def addReferenceKey (key : LowerCaseString) (value : Bytes) : HeaderMap :=
  m.insertByKey ⟨.reference, key.get⟩ (HeaderString.new.setCopy value)

def addReferenceKeyInteger (key : LowerCaseString) (value : UInt64) : HeaderMap :=
  m.insertByKey ⟨.reference, key.get⟩ (HeaderString.new.setInteger value)

def addCopy (key : LowerCaseString) (value : Bytes) : HeaderMap :=
  m.insertByKey (HeaderString.new.setCopy key.get) (HeaderString.new.setCopy value)

def addCopyInteger (key : LowerCaseString) (value : UInt64) : HeaderMap :=
  m.insertByKey (HeaderString.new.setCopy key.get) (HeaderString.new.setInteger value)

def get (key : LowerCaseString) : Option HeaderEntry :=
  m.headers.find? fun e => e.key.cStr = cStr key.get

/-- The loop of `iterate`. The callback sees the key and the value of an entry. -/
def iterateFrom {σ : Type} (cb : HeaderString × HeaderString → σ → σ × Iterate) :
    List HeaderEntry → σ → σ
  | [], context => context
  | e :: es, context =>
    match cb (e.key, e.value) context with
    | (context, .break) => context
    | (context, .continue) => iterateFrom cb es context

def iterate {σ : Type} (m : HeaderMap) (cb : HeaderString × HeaderString → σ → σ × Iterate)
    (context : σ) : σ := iterateFrom cb m.headers context

end HeaderMap

/-- The operations on a map that change it. `insertX` and `X` return an entry, whose value the
caller then writes. -/
inductive HeaderOp where
  | addViaMove (key value : HeaderString)
  | addReference (key : LowerCaseString) (value : Bytes)
  | addReferenceKey (key : LowerCaseString) (value : Bytes)
  | addReferenceKeyInteger (key : LowerCaseString) (value : UInt64)
  | addCopy (key : LowerCaseString) (value : Bytes)
  | addCopyInteger (key : LowerCaseString) (value : UInt64)
  | insertInline (header : InlineHeader) (write : HeaderString → HeaderString)
  | modifyInline (header : InlineHeader) (write : HeaderString → HeaderString)
  | removeInline (header : InlineHeader)
  | remove (key : LowerCaseString)

def HeaderMap.apply (m : HeaderMap) : HeaderOp → HeaderMap
  | .addViaMove key value => m.addViaMove key value
  | .addReference key value => m.addReference key value
  | .addReferenceKey key value => m.addReferenceKey key value
  | .addReferenceKeyInteger key value => m.addReferenceKeyInteger key value
  | .addCopy key value => m.addCopy key value
  | .addCopyInteger key value => m.addCopyInteger key value
  | .insertInline header write => m.insertInline header write
  | .modifyInline header write => m.modifyInline header write
  | .removeInline header => m.removeInline header
  | .remove key => m.remove key

abbrev Multimap := List (HeaderString × HeaderString)

namespace Multimap

variable (l : Multimap)

def get (key : Bytes) : Option (HeaderString × HeaderString) :=
  l.find? fun e => e.1.cStr = key

def addOnce (header : InlineHeader) (value : HeaderString) : Multimap :=
  if (l.get header.key).isSome then l else l ++ [(⟨.reference, header.key⟩, value)]

def add (key value : HeaderString) : Multimap :=
  match staticLookup key.cStr with
  | some header => l.addOnce header value
  | none => l ++ [(key, value)]

def write (key : Bytes) (f : HeaderString → HeaderString) : Multimap :=
  l.map fun e => if e.1.cStr = key then (e.1, f e.2) else e

def removeAll (key : Bytes) : Multimap := l.filter fun e => e.1.cStr ≠ key

/-- The key under which the map keeps the values of a key: the legacy host header is
`:authority`. -/
def stored (key : Bytes) : Bytes :=
  match staticLookup key with
  | some header => header.key
  | none => key

def apply : HeaderOp → Multimap
  | .addViaMove key value => l.add key value
  | .addReference key value => l.add ⟨.reference, key.get⟩ ⟨.reference, value⟩
  | .addReferenceKey key value => l.add ⟨.reference, key.get⟩ (HeaderString.new.setCopy value)
  | .addReferenceKeyInteger key value => l.add ⟨.reference, key.get⟩ (HeaderString.new.setInteger value)
  | .addCopy key value =>
    l.add (HeaderString.new.setCopy key.get) (HeaderString.new.setCopy value)
  | .addCopyInteger key value =>
    l.add (HeaderString.new.setCopy key.get) (HeaderString.new.setInteger value)
  | .insertInline header f => (l.addOnce header .new).write header.key f
  | .modifyInline header f => l.write header.key f
  | .removeInline header => l.removeAll header.key
  | .remove key => l.removeAll (stored (cStr key.get))

end Multimap

namespace HeaderMap

def entries (m : HeaderMap) : Multimap := m.headers.map fun e => (e.key, e.value)

def entriesOf (m : HeaderMap) (header : InlineHeader) : List HeaderEntry :=
  m.headers.filter fun e => staticLookup e.key.cStr = some header

variable {m : HeaderMap}

theorem get_entries (m : HeaderMap) (key : Bytes) :
    m.entries.get key = (m.headers.find? fun e => e.key.cStr = key).map fun e => (e.key, e.value) := by
  rw [entries, Multimap.get, find?_map]
  rfl

theorem get_entries_isSome (hc : m.Consistent) (header : InlineHeader) :
    (m.entries.get header.key).isSome = (m.inlineHeaders header).isSome := by
  rw [get_entries, Option.isSome_map, Bool.eq_iff_iff, find?_isSome]
  have hhas : m.HasKey header.key ↔ m.inlineHeaders header ≠ none :=
    (hasKey_iff hc).trans (value_eq_none_iff hc).not
  rw [← Option.isSome_iff_ne_none] at hhas
  simpa [HasKey] using hhas

theorem entries_emplace (m : HeaderMap) (key value : HeaderString) :
    (m.emplace key value).entries = m.entries ++ [(key, value)] := by
  simp [entries, emplace]

section

variable (hc : m.Consistent)
include hc

theorem entries_maybeCreateInline (header : InlineHeader) (value : HeaderString) :
    (m.maybeCreateInline header value).entries = m.entries.addOnce header value := by
  rw [maybeCreateInline, Multimap.addOnce, get_entries_isSome hc]
  cases m.inlineHeaders header with
  | none => exact entries_emplace m _ value
  | some id => rfl

theorem entries_insertByKey (key value : HeaderString) :
    (m.insertByKey key value).entries = m.entries.add key value := by
  rw [insertByKey, Multimap.add]
  cases staticLookup key.cStr with
  | none => exact entries_emplace m key value
  | some header => exact entries_maybeCreateInline hc header value

theorem pointer_iff {header : InlineHeader} {id : Nat}
    (hid : m.inlineHeaders header = some id) {e : HeaderEntry} (he : e ∈ m.headers) :
    e.id = id ↔ e.key.cStr = header.key := by
  constructor
  · rintro rfl
    obtain ⟨e', he', hid', hkey⟩ := hc.pointer header e.id hid
    rw [← inj_on_of_nodup_map hc.ids he' he hid']
    exact hkey
  · intro hkey
    have hentry := hc.entry e he header (by rw [hkey, InlineHeader.staticLookup_key])
    exact Option.some.inj (hentry.symm.trans hid)

theorem key_ne_of_none {header : InlineHeader}
    (hnone : m.inlineHeaders header = none) {e : HeaderEntry} (he : e ∈ m.headers) :
    e.key.cStr ≠ header.key := by
  intro hkey
  have hentry := hc.entry e he header (by rw [hkey, InlineHeader.staticLookup_key])
  rw [hnone] at hentry
  cases hentry

theorem entries_modifyInline (header : InlineHeader) (f : HeaderString → HeaderString) :
    (m.modifyInline header f).entries = m.entries.write header.key f := by
  unfold modifyInline
  cases hid : m.inlineHeaders header with
  | none =>
    simp only [entries, Multimap.write, map_map]
    apply map_congr_left
    intro e he
    exact (if_neg (key_ne_of_none hc hid he)).symm
  | some id =>
    simp only [entries, Multimap.write, map_map]
    apply map_congr_left
    intro e he
    by_cases hkey : e.key.cStr = header.key
    · simp [(pointer_iff hc hid he).mpr hkey, hkey]
    · simp [mt (pointer_iff hc hid he).mp hkey, hkey]

end

theorem entries_filter (m : HeaderMap) (pointers : InlineHeader → Option Nat) (key : Bytes) :
    entries { m with
      inlineHeaders := pointers
      headers := m.headers.filter fun e => e.key.cStr ≠ key } = m.entries.removeAll key := by
  rw [entries, entries, Multimap.removeAll, filter_map]
  rfl

section

variable (hc : m.Consistent)
include hc

theorem entries_removeInline (header : InlineHeader) :
    (m.removeInline header).entries = m.entries.removeAll header.key := by
  have hkept := entries_filter m (m.removeInline header).inlineHeaders header.key
  rw [← hkept]
  unfold removeInline entries
  congr 1
  cases hid : m.inlineHeaders header with
  | none =>
    refine (filter_eq_self.mpr ?_).symm
    intro e he
    exact decide_eq_true (key_ne_of_none hc hid he)
  | some id =>
    apply filter_congr
    intro e he
    exact decide_eq_decide.mpr (pointer_iff hc hid he).not

theorem entries_remove (key : LowerCaseString) :
    (m.remove key).entries = m.entries.removeAll (Multimap.stored (cStr key.get)) := by
  rw [remove, Multimap.stored]
  cases staticLookup (cStr key.get) with
  | none => exact entries_filter m m.inlineHeaders (cStr key.get)
  | some header => exact entries_removeInline hc header

theorem consistent_apply (op : HeaderOp) : (m.apply op).Consistent := by
  cases op with
  | addViaMove key value => exact consistent_insertByKey hc key value
  | addReference | addReferenceKey | addReferenceKeyInteger | addCopy | addCopyInteger =>
    exact consistent_insertByKey hc _ _
  | insertInline header write => exact consistent_insertInline hc header write
  | modifyInline header write => exact consistent_modifyInline hc header write
  | removeInline header => exact consistent_removeInline hc header
  | remove key => exact consistent_remove hc key

theorem entries_apply (op : HeaderOp) : (m.apply op).entries = m.entries.apply op := by
  cases op with
  | addViaMove key value => exact entries_insertByKey hc key value
  | addReference | addReferenceKey | addReferenceKeyInteger | addCopy | addCopyInteger =>
    exact entries_insertByKey hc _ _
  | insertInline header write =>
    rw [apply, insertInline, entries_modifyInline (consistent_maybeCreateInline hc header _),
      entries_maybeCreateInline hc]
    rfl
  | modifyInline header write => exact entries_modifyInline hc header write
  | removeInline header => exact entries_removeInline hc header
  | remove key => exact entries_remove hc key

/-- The entries of an inline header are the one that its pointer points to. -/
theorem entriesOf_eq (header : InlineHeader) :
    m.entriesOf header = (m.inlineEntry header).toList := by
  cases hentry : m.inlineEntry header with
  | none =>
    rw [Option.toList_none, entriesOf, filter_eq_nil_iff]
    intro e he hlookup
    have hid := hc.entry e he header (of_decide_eq_true hlookup)
    rw [(inlineEntry_eq_some hc).mpr ⟨he, hid⟩] at hentry
    cases hentry
  | some e =>
    obtain ⟨he, hid⟩ := (inlineEntry_eq_some hc).mp hentry
    have hfilter : m.entriesOf header = m.headers.filter fun e' => e' = e := by
      apply filter_congr
      intro e' he'
      apply decide_eq_decide.mpr
      constructor
      · intro hlookup
        have hid' := hc.entry e' he' header hlookup
        exact inj_on_of_nodup_map hc.ids he' he (Option.some.inj (hid'.symm.trans hid))
      · rintro rfl
        rw [(pointer_iff hc hid he).mp rfl, InlineHeader.staticLookup_key]
    have hcount : m.headers.count e = 1 := count_eq_one_of_mem hc.ids.of_map he
    rw [hfilter, filter_eq, hcount]
    rfl

end

theorem iterateFrom_continue {σ : Type} (f : HeaderString × HeaderString → σ → σ)
    (es : List HeaderEntry) (context : σ) :
    iterateFrom (fun e context => (f e context, .continue)) es context =
      (es.map fun e => (e.key, e.value)).foldl (fun context e => f e context) context := by
  induction es generalizing context with
  | nil => rfl
  | cons e es ih => exact ih _

/-- The map shows what the multimap holds, and each inline pointer points to the one entry of
its header, or is null if there is no such entry. -/
structure Simulates (m : HeaderMap) (l : Multimap) : Prop where
  slot : ∀ header, m.inlineHeaders header ≠ none ↔ (m.entriesOf header).length = 1
  points : ∀ header id, m.inlineHeaders header = some id →
    ∃ e, m.entriesOf header = [e] ∧ e.id = id ∧ m.inlineEntry header = some e
  get : ∀ key, (m.get key).map (fun e => (e.key, e.value)) = l.get (cStr key.get)
  iterate : ∀ (σ : Type) (f : HeaderString × HeaderString → σ → σ) (context : σ),
    m.iterate (fun e context => (f e context, .continue)) context =
      l.foldl (fun context e => f e context) context
  once : ∀ header : InlineHeader, (l.filter fun e => e.1.cStr = header.key).length ≤ 1

theorem simulates_entries (hc : m.Consistent) : m.Simulates m.entries where
  slot := by
    intro header
    rw [entriesOf_eq hc, ne_eq, ← value_eq_none_iff hc, value]
    cases m.inlineEntry header <;> simp
  points := by
    intro header id hid
    obtain ⟨e, hentry, heid, -⟩ := inlineEntry_of_pointer hc hid
    refine ⟨e, ?_, heid, hentry⟩
    rw [entriesOf_eq hc, hentry]
    rfl
  get := fun key => (get_entries m (cStr key.get)).symm
  iterate := fun _ f context => iterateFrom_continue f m.headers context
  once := by
    intro header
    have hsub : (m.headers.filter fun e => e.key.cStr = header.key).Sublist (m.entriesOf header) := by
      apply monotone_filter_right
      intro e he
      rw [of_decide_eq_true he, InlineHeader.staticLookup_key]
      exact decide_eq_true rfl
    have hlen := hsub.length_le
    rw [entriesOf_eq hc] at hlen
    rw [entries, filter_map, length_map]
    exact hlen.trans (by cases m.inlineEntry header <;> simp)

/-- Whatever is done with a header map, it is one map: the list and the inline pointers agree,
and it behaves as the ordered multimap to which the same is done. -/
theorem headerMap_simulates (ops : List HeaderOp) :
    (ops.foldl HeaderMap.apply new).Simulates (ops.foldl Multimap.apply []) := by
  have hrun : ∀ (ops : List HeaderOp) (m : HeaderMap), m.Consistent →
      (ops.foldl HeaderMap.apply m).Consistent ∧
        (ops.foldl HeaderMap.apply m).entries = ops.foldl Multimap.apply m.entries := by
    intro ops
    induction ops with
    | nil => exact fun m hc => ⟨hc, rfl⟩
    | cons op ops ih =>
      intro m hc
      rw [foldl_cons, foldl_cons, ← entries_apply hc op]
      exact ih (m.apply op) (consistent_apply hc op)
  obtain ⟨hc, hentries⟩ := hrun ops new consistent_new
  rw [show ([] : Multimap) = new.entries from rfl, ← hentries]
  exact simulates_entries hc

end HeaderMap

end Meliproxy.Envoy.Http
