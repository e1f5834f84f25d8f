import Meliproxy.Envoy.Http.HeaderMap

/-!
# The invariant of the header map

`Consistent` says that the list and the inline pointers agree. Over it, `value` behaves as
a finite map from the inline headers, and `Within` bounds what a group of operations can
change: the inline headers it names, and no other header that was not there before.
-/

namespace Meliproxy.Envoy.Http

open Lib List

namespace InlineHeader

theorem mem_all (header : InlineHeader) : header ∈ all := by
  cases header <;> decide

theorem key_all : ∀ header ∈ all, staticLookup header.key = some header ∧ 0 ∉ header.key := by
  decide +kernel

theorem staticLookup_key (header : InlineHeader) : staticLookup header.key = some header :=
  (key_all header (mem_all header)).1

theorem cStr_key (header : InlineHeader) : cStr header.key = header.key :=
  cStr_eq_self (key_all header (mem_all header)).2

theorem key_injective {header header' : InlineHeader} (h : header.key = header'.key) :
    header = header' := by
  have hlookup := staticLookup_key header
  rw [h, staticLookup_key header'] at hlookup
  exact (Option.some.inj hlookup).symm

end InlineHeader

open InlineHeader

namespace HeaderMap

variable {m m' m'' : HeaderMap} {header header' : InlineHeader}

structure Consistent (m : HeaderMap) : Prop where
  ids : (m.headers.map HeaderEntry.id).Nodup
  fresh : ∀ e ∈ m.headers, e.id < m.nextId
  pointer : ∀ header id, m.inlineHeaders header = some id →
    ∃ e ∈ m.headers, e.id = id ∧ e.key.cStr = header.key
  entry : ∀ e ∈ m.headers, ∀ header, staticLookup e.key.cStr = some header →
    m.inlineHeaders header = some e.id

def HasKey (m : HeaderMap) (key : Bytes) : Prop := ∃ e ∈ m.headers, e.key.cStr = key

variable {e : HeaderEntry}

theorem find_id {l : List HeaderEntry} (hids : (l.map HeaderEntry.id).Nodup) (he : e ∈ l) :
    (l.find? fun e' => e'.id = e.id) = some e := by
  cases hfind : l.find? fun e' => e'.id = e.id with
  | none => exact absurd (find?_eq_none.mp hfind e he) (by simp)
  | some e' =>
    have hid : e'.id = e.id := by simpa using find?_some hfind
    exact congrArg some (inj_on_of_nodup_map hids (mem_of_find?_eq_some hfind) he hid)

theorem consistent_new : new.Consistent := by
  refine ⟨nodup_nil, ?_, ?_, ?_⟩
  · intro e he
    cases he
  · intro header id h
    cases h
  · intro e he
    cases he

theorem not_hasKey_remove {key : LowerCaseString} (hnone : staticLookup (cStr key.get) = none) :
    ¬ (m.remove key).HasKey (cStr key.get) := by
  unfold remove
  rw [hnone]
  rintro ⟨e, he, hkey⟩
  simpa [hkey] using (mem_filter.mp he).2

variable {id : Nat} {key : Bytes} {f : HeaderString → HeaderString}

section

variable (hc : m.Consistent)

include hc

theorem inlineEntry_eq_some :
    m.inlineEntry header = some e ↔ e ∈ m.headers ∧ m.inlineHeaders header = some e.id := by
  unfold inlineEntry
  rw [Option.bind_eq_some_iff]
  constructor
  · rintro ⟨id, hid, hfind⟩
    have heq : e.id = id := by simpa using find?_some hfind
    exact ⟨mem_of_find?_eq_some hfind, heq ▸ hid⟩
  · rintro ⟨he, hid⟩
    exact ⟨e.id, hid, find_id hc.ids he⟩

theorem inlineEntry_of_pointer (h : m.inlineHeaders header = some id) :
    ∃ e, m.inlineEntry header = some e ∧ e.id = id ∧ e.key.cStr = header.key := by
  obtain ⟨e, he, rfl, hkey⟩ := hc.pointer header id h
  exact ⟨e, (inlineEntry_eq_some hc).mpr ⟨he, h⟩, rfl, hkey⟩

theorem value_eq_none_iff : m.value header = none ↔ m.inlineHeaders header = none := by
  unfold value
  constructor
  · intro h
    cases hid : m.inlineHeaders header with
    | none => rfl
    | some id =>
      obtain ⟨e, he, -⟩ := inlineEntry_of_pointer hc hid
      simp [he] at h
  · intro h
    simp [inlineEntry, h]

theorem hasKey_iff : m.HasKey header.key ↔ m.value header ≠ none := by
  rw [ne_eq, value_eq_none_iff hc]
  constructor
  · rintro ⟨e, he, hkey⟩ hnone
    have hlookup : staticLookup e.key.cStr = some header := by rw [hkey, staticLookup_key]
    rw [hc.entry e he header hlookup] at hnone
    cases hnone
  · intro h
    obtain ⟨id, hid⟩ := Option.ne_none_iff_exists'.mp h
    obtain ⟨e, he, -, hkey⟩ := hc.pointer header id hid
    exact ⟨e, he, hkey⟩

theorem pointer_injective (h : m.inlineHeaders header = some id)
    (h' : m.inlineHeaders header' = some id) : header = header' := by
  obtain ⟨e, he, hid, hkey⟩ := hc.pointer header id h
  obtain ⟨e', he', hid', hkey'⟩ := hc.pointer header' id h'
  obtain rfl := inj_on_of_nodup_map hc.ids he he' (hid.trans hid'.symm)
  exact key_injective (hkey.symm.trans hkey')

theorem nodup_emplace (key value : HeaderString) :
    ((m.emplace key value).headers.map HeaderEntry.id).Nodup := by
  simp only [emplace, map_append, map_cons, map_nil]
  refine List.Nodup.append hc.ids (nodup_singleton _) (disjoint_singleton.mpr ?_)
  intro h
  obtain ⟨e, he, hid⟩ := mem_map.mp h
  have := hc.fresh e he
  omega

theorem fresh_emplace (key value : HeaderString) :
    ∀ e ∈ (m.emplace key value).headers, e.id < (m.emplace key value).nextId := by
  intro e he
  simp only [emplace] at he ⊢
  rcases mem_append.mp he with he | he
  · have := hc.fresh e he
    omega
  · obtain rfl := mem_singleton.mp he
    exact Nat.lt_succ_self _

theorem consistent_emplace {key : HeaderString} (value : HeaderString)
    (hkey : staticLookup key.cStr = none) : (m.emplace key value).Consistent := by
  refine ⟨nodup_emplace hc key value, fresh_emplace hc key value, ?_, ?_⟩
  · intro header id h
    obtain ⟨e, he, hid, hkey⟩ := hc.pointer header id h
    exact ⟨e, mem_append_left _ he, hid, hkey⟩
  · intro e he header hlookup
    rcases mem_append.mp he with he | he
    · exact hc.entry e he header hlookup
    · obtain rfl := mem_singleton.mp he
      simp [hkey] at hlookup

theorem consistent_createInline (hnone : m.inlineHeaders header = none)
    (value : HeaderString) : (m.createInline header value).Consistent := by
  have hkey : (⟨.reference, header.key⟩ : HeaderString).cStr = header.key := cStr_key header
  refine ⟨nodup_emplace hc _ value, fresh_emplace hc _ value, ?_, ?_⟩
  · intro header' id h
    simp only [createInline, setInline] at h
    split at h
    · rename_i heq
      cases h
      exact ⟨⟨m.nextId, ⟨.reference, header.key⟩, value⟩, mem_append_right _ mem_cons_self,
        rfl, heq ▸ hkey⟩
    · obtain ⟨e, he, hid, hkey⟩ := hc.pointer header' id h
      exact ⟨e, mem_append_left _ he, hid, hkey⟩
  · intro e he header' hlookup
    simp only [createInline, setInline]
    rcases mem_append.mp he with he | he
    · have hpointer := hc.entry e he header' hlookup
      rw [if_neg]
      · exact hpointer
      · rintro rfl
        rw [hnone] at hpointer
        cases hpointer
    · obtain rfl := mem_singleton.mp he
      simp only [hkey, staticLookup_key] at hlookup
      cases hlookup
      rw [if_pos rfl]

theorem value_createInline (hnone : m.inlineHeaders header = none)
    (value : HeaderString) : (m.createInline header value).value header = some value := by
  have hentry : (m.createInline header value).inlineEntry header =
      some ⟨m.nextId, ⟨.reference, header.key⟩, value⟩ := by
    rw [inlineEntry_eq_some (consistent_createInline hc hnone value)]
    refine ⟨mem_append_right _ mem_cons_self, ?_⟩
    simp [createInline, setInline]
  rw [HeaderMap.value, hentry]
  rfl

theorem value_congr (hc' : m'.Consistent)
    (hpointer : m'.inlineHeaders header = m.inlineHeaders header)
    (hentry : ∀ e ∈ m.headers, m.inlineHeaders header = some e.id → e ∈ m'.headers) :
    m'.value header = m.value header := by
  cases hid : m.inlineHeaders header with
  | none =>
    rw [(value_eq_none_iff hc).mpr hid, value_eq_none_iff hc', hpointer, hid]
  | some id =>
    obtain ⟨e, he, rfl, -⟩ := inlineEntry_of_pointer hc hid
    have hmem := ((inlineEntry_eq_some hc).mp he).1
    have he' : m'.inlineEntry header = some e :=
      (inlineEntry_eq_some hc').mpr ⟨hentry e hmem hid, hpointer.trans hid⟩
    rw [value, value, he, he']

theorem value_createInline_of_ne (hnone : m.inlineHeaders header = none)
    (value : HeaderString) (hne : header' ≠ header) :
    (m.createInline header value).value header' = m.value header' := by
  refine value_congr hc (consistent_createInline hc hnone value) ?_ ?_
  · simp [createInline, setInline, emplace, hne]
  · intro e he _
    exact mem_append_left _ he

theorem consistent_maybeCreateInline (header : InlineHeader)
    (value : HeaderString) : (m.maybeCreateInline header value).Consistent := by
  unfold maybeCreateInline
  split
  · exact hc
  · rename_i hnone
    exact consistent_createInline hc hnone value

theorem value_maybeCreateInline (header : InlineHeader) (value : HeaderString) :
    (m.maybeCreateInline header value).value header = some ((m.value header).getD value) := by
  unfold maybeCreateInline
  split
  · rename_i id hid
    obtain ⟨e, he, -⟩ := inlineEntry_of_pointer hc hid
    simp [HeaderMap.value, he]
  · rename_i hnone
    rw [value_createInline hc hnone, (value_eq_none_iff hc).mpr hnone]
    rfl

theorem value_maybeCreateInline_of_ne (value : HeaderString) (hne : header' ≠ header) :
    (m.maybeCreateInline header value).value header' = m.value header' := by
  unfold maybeCreateInline
  split
  · rfl
  · rename_i hnone
    exact value_createInline_of_ne hc hnone value hne

theorem consistent_insertByKey (key value : HeaderString) :
    (m.insertByKey key value).Consistent := by
  unfold insertByKey
  split
  · exact consistent_maybeCreateInline hc _ value
  · rename_i hkey
    exact consistent_emplace hc value hkey

omit hc in
theorem consistent_ofHeaders (headers : List (HeaderString × HeaderString)) :
    (ofHeaders headers).Consistent := by
  have hfold : ∀ m : HeaderMap, m.Consistent →
      (headers.foldl (fun m h => m.addViaMove h.1 h.2) m).Consistent := by
    induction headers with
    | nil => exact fun m hc => hc
    | cons h headers ih => exact fun m hc => ih _ (consistent_insertByKey hc h.1 h.2)
  exact hfold new consistent_new

omit hc in
theorem mem_modifyInline
    (he : e ∈ m.headers.map fun e => if e.id = id then { e with value := f e.value } else e) :
    ∃ e₀ ∈ m.headers, e.id = e₀.id ∧ e.key = e₀.key := by
  obtain ⟨e₀, he₀, rfl⟩ := mem_map.mp he
  refine ⟨e₀, he₀, ?_⟩
  split <;> exact ⟨rfl, rfl⟩

theorem consistent_modifyInline (header : InlineHeader)
    (f : HeaderString → HeaderString) : (m.modifyInline header f).Consistent := by
  unfold modifyInline
  split
  · rename_i id hid
    refine ⟨?_, ?_, ?_, ?_⟩
    · have hsame : (m.headers.map fun e => if e.id = id then { e with value := f e.value } else e).map
          HeaderEntry.id = m.headers.map HeaderEntry.id := by
        rw [map_map]
        apply map_congr_left
        intro e _
        simp only [Function.comp_apply]
        split <;> rfl
      rw [hsame]
      exact hc.ids
    · intro e he
      obtain ⟨e₀, he₀, hid₀, -⟩ := mem_modifyInline he
      rw [hid₀]
      exact hc.fresh e₀ he₀
    · intro header' id' h
      obtain ⟨e, he, hid', hkey⟩ := hc.pointer header' id' h
      refine ⟨_, mem_map_of_mem he, ?_, ?_⟩ <;> split <;> assumption
    · intro e he header' hlookup
      obtain ⟨e₀, he₀, hid₀, hkey₀⟩ := mem_modifyInline he
      rw [hid₀]
      rw [hkey₀] at hlookup
      exact hc.entry e₀ he₀ header' hlookup
  · exact hc

theorem value_modifyInline (header : InlineHeader) (f : HeaderString → HeaderString) :
    (m.modifyInline header f).value header = (m.value header).map f := by
  cases hid : m.inlineHeaders header with
  | none =>
    have hsame : m.modifyInline header f = m := by simp [modifyInline, hid]
    rw [hsame, (value_eq_none_iff hc).mpr hid]
    rfl
  | some id =>
    obtain ⟨e, he, rfl, -⟩ := inlineEntry_of_pointer hc hid
    have hmem := ((inlineEntry_eq_some hc).mp he).1
    have he' : (m.modifyInline header f).inlineEntry header = some { e with value := f e.value } := by
      rw [inlineEntry_eq_some (consistent_modifyInline hc header f)]
      simp only [modifyInline, hid]
      refine ⟨mem_map.mpr ⟨e, hmem, ?_⟩, trivial⟩
      rw [if_pos rfl]
    rw [value, value, he, he']
    rfl

theorem value_modifyInline_of_ne (f : HeaderString → HeaderString)
    (hne : header' ≠ header) : (m.modifyInline header f).value header' = m.value header' := by
  refine value_congr hc (consistent_modifyInline hc header f) ?_ ?_
  · unfold modifyInline
    split <;> rfl
  · intro e he hid'
    unfold modifyInline
    split
    · rename_i id hid
      refine mem_map.mpr ⟨e, he, if_neg ?_⟩
      rintro rfl
      exact hne (pointer_injective hc hid' hid)
    · exact he

theorem consistent_insertInline (header : InlineHeader)
    (f : HeaderString → HeaderString) : (m.insertInline header f).Consistent :=
  consistent_modifyInline (consistent_maybeCreateInline hc header .new) header f

theorem value_insertInline (header : InlineHeader) (f : HeaderString → HeaderString) :
    (m.insertInline header f).value header = some (f ((m.value header).getD .new)) := by
  rw [insertInline, value_modifyInline (consistent_maybeCreateInline hc header .new),
    value_maybeCreateInline hc]
  rfl

theorem value_insertInline_of_ne (f : HeaderString → HeaderString)
    (hne : header' ≠ header) : (m.insertInline header f).value header' = m.value header' := by
  rw [insertInline, value_modifyInline_of_ne (consistent_maybeCreateInline hc header .new) f hne,
    value_maybeCreateInline_of_ne hc .new hne]

theorem consistent_filter {p : HeaderEntry → Bool}
    {pointers : InlineHeader → Option Nat} (hpointer : ∀ header id, pointers header = some id →
      m.inlineHeaders header = some id ∧ ∀ e ∈ m.headers, e.id = id → p e = true)
    (hentry : ∀ e ∈ m.headers, p e = true → ∀ header, m.inlineHeaders header = some e.id →
      pointers header = some e.id) :
    ({ m with headers := m.headers.filter p, inlineHeaders := pointers } : HeaderMap).Consistent := by
  refine ⟨hc.ids.sublist (filter_sublist.map _), ?_, ?_, ?_⟩
  · intro e he
    exact hc.fresh e (mem_filter.mp he).1
  · intro header id h
    obtain ⟨hid, hp⟩ := hpointer header id h
    obtain ⟨e, he, heid, hkey⟩ := hc.pointer header id hid
    exact ⟨e, mem_filter.mpr ⟨he, hp e he heid⟩, heid, hkey⟩
  · intro e he header hlookup
    obtain ⟨he, hp⟩ := mem_filter.mp he
    exact hentry e he hp header (hc.entry e he header hlookup)

theorem consistent_removeInline (header : InlineHeader) : (m.removeInline header).Consistent := by
  unfold removeInline
  split
  · rename_i id hid
    refine consistent_filter hc ?_ ?_
    · intro header' id' h
      simp only [setInline] at h
      split at h
      · cases h
      · rename_i hne
        refine ⟨h, ?_⟩
        intro e _ heid
        have hids : id' ≠ id := by
          rintro rfl
          exact hne (pointer_injective hc h hid)
        simpa [heid] using hids
    · intro e he hp header' h
      have hids : e.id ≠ id := by simpa using hp
      simp only [setInline]
      rw [if_neg]
      · exact h
      · rintro rfl
        exact hids (Option.some.inj (h.symm.trans hid))
  · exact hc

theorem value_removeInline (header : InlineHeader) :
    (m.removeInline header).value header = none := by
  rw [value_eq_none_iff (consistent_removeInline hc header)]
  unfold removeInline
  split
  · exact if_pos rfl
  · assumption

theorem value_removeInline_of_ne (hne : header' ≠ header) :
    (m.removeInline header).value header' = m.value header' := by
  refine value_congr hc (consistent_removeInline hc header) ?_ ?_
  · unfold removeInline
    split
    · exact if_neg hne
    · rfl
  · intro e he hid'
    unfold removeInline
    split
    · rename_i id hid
      refine mem_filter.mpr ⟨he, ?_⟩
      have hids : e.id ≠ id := by
        rintro rfl
        exact hne (pointer_injective hc hid' hid)
      simpa using hids
    · exact he

theorem key_ne_of_pointer (hnone : staticLookup key = none) (he : e ∈ m.headers)
    (hid : m.inlineHeaders header = some e.id) : e.key.cStr ≠ key := by
  obtain ⟨e', he', hid', hkey'⟩ := hc.pointer header e.id hid
  obtain rfl := inj_on_of_nodup_map hc.ids he' he hid'
  rintro rfl
  rw [hkey', staticLookup_key] at hnone
  cases hnone

theorem consistent_remove (key : LowerCaseString) : (m.remove key).Consistent := by
  unfold remove
  split
  · exact consistent_removeInline hc _
  · rename_i hnone
    refine consistent_filter hc ?_ ?_
    · intro header id h
      refine ⟨h, ?_⟩
      rintro e he rfl
      simpa using key_ne_of_pointer hc hnone he h
    · intro e _ _ header h
      exact h

theorem value_remove {key : LowerCaseString}
    (hlookup : staticLookup (cStr key.get) = some header) : (m.remove key).value header = none := by
  unfold remove
  rw [hlookup]
  exact value_removeInline hc header

theorem value_remove_of_ne {key : LowerCaseString}
    (hne : staticLookup (cStr key.get) ≠ some header) : (m.remove key).value header = m.value header := by
  cases hlookup : staticLookup (cStr key.get) with
  | some header' =>
    have hremove : m.remove key = m.removeInline header' := by simp [remove, hlookup]
    rw [hremove]
    apply value_removeInline_of_ne hc
    rintro rfl
    exact hne hlookup
  | none =>
    refine value_congr hc (consistent_remove hc key) ?_ ?_
    · simp [remove, hlookup]
    · intro e he hid
      simp only [remove, hlookup]
      refine mem_filter.mpr ⟨he, ?_⟩
      simpa using key_ne_of_pointer hc hlookup he hid

end

structure Within (changed : List InlineHeader) (m m' : HeaderMap) : Prop where
  consistent : m'.Consistent
  value : ∀ header, header ∉ changed → m'.value header = m.value header
  other : ∀ key, staticLookup key = none → m'.HasKey key → m.HasKey key

theorem Within.rfl (hc : m.Consistent) : Within [] m m :=
  ⟨hc, fun _ _ => Eq.refl _, fun _ _ h => h⟩

variable {changed changed' : List InlineHeader}

theorem Within.trans (h : Within changed m m') (h' : Within changed' m' m'') :
    Within (changed ++ changed') m m'' := by
  refine ⟨h'.consistent, ?_, ?_⟩
  · intro header hheader
    rw [mem_append, not_or] at hheader
    rw [h'.value header hheader.2, h.value header hheader.1]
  · intro key hkey hhas
    exact h.other key hkey (h'.other key hkey hhas)

theorem Within.mono (h : Within changed m m') (hsub : changed ⊆ changed') : Within changed' m m' :=
  ⟨h.consistent, fun header hheader => h.value header fun hmem => hheader (hsub hmem), h.other⟩

theorem hasKey_maybeCreateInline (hkey : staticLookup key = none) {value : HeaderString}
    (h : (m.maybeCreateInline header value).HasKey key) : m.HasKey key := by
  unfold maybeCreateInline at h
  split at h
  · exact h
  · obtain ⟨e, he, hek⟩ := h
    rcases mem_append.mp he with he | he
    · exact ⟨e, he, hek⟩
    · obtain rfl := mem_singleton.mp he
      rw [← hek] at hkey
      simp [HeaderString.cStr, cStr_key, staticLookup_key] at hkey

theorem hasKey_modifyInline (h : (m.modifyInline header f).HasKey key) : m.HasKey key := by
  unfold modifyInline at h
  split at h
  · obtain ⟨e, he, hek⟩ := h
    obtain ⟨e₀, he₀, -, hkey₀⟩ := mem_modifyInline he
    exact ⟨e₀, he₀, hkey₀ ▸ hek⟩
  · exact h

theorem within_insertInline (hc : m.Consistent) (header : InlineHeader)
    (f : HeaderString → HeaderString) : Within [header] m (m.insertInline header f) := by
  refine ⟨consistent_insertInline hc header f, ?_, ?_⟩
  · intro header' hne
    exact value_insertInline_of_ne hc f (mem_singleton.not.mp hne)
  · intro key hkey hhas
    exact hasKey_maybeCreateInline hkey (hasKey_modifyInline hhas)

theorem within_modifyInline (hc : m.Consistent) (header : InlineHeader)
    (f : HeaderString → HeaderString) : Within [header] m (m.modifyInline header f) := by
  refine ⟨consistent_modifyInline hc header f, ?_, ?_⟩
  · intro header' hne
    exact value_modifyInline_of_ne hc f (mem_singleton.not.mp hne)
  · intro key _ hhas
    exact hasKey_modifyInline hhas

theorem within_removeInline (hc : m.Consistent) (header : InlineHeader) :
    Within [header] m (m.removeInline header) := by
  refine ⟨consistent_removeInline hc header, ?_, ?_⟩
  · intro header' hne
    exact value_removeInline_of_ne hc (mem_singleton.not.mp hne)
  · rintro key - ⟨e, he, hkey⟩
    unfold removeInline at he
    split at he
    · exact ⟨e, (mem_filter.mp he).1, hkey⟩
    · exact ⟨e, he, hkey⟩

end HeaderMap

end Meliproxy.Envoy.Http
