import Mathlib.Data.List.Infix
import Mathlib.Tactic.Ring

/-!
# Tables of suffixes by length

Keys are kept in buckets by their length, the longest first, and a bucket keeps the first
value that comes with a key. `find` cuts a suffix of each of these lengths off a text and
looks it up; it finds the longest key that is a proper suffix of the text.
-/

namespace Lib.SuffixTable

open List

variable {α β : Type}

theorem drop_suffix {text key : List α} (hsuffix : key <:+ text) :
    text.drop (text.length - key.length) = key := (suffix_iff_eq_drop.mp hsuffix).symm

theorem length_drop_of_lt {text : List α} {n : Nat} (h : n ≤ text.length) :
    (text.drop (text.length - n)).length = n := by
  rw [length_drop]
  omega

theorem eq_of_suffix {text key : List α} (hsuffix : key <:+ text) (h : text.length ≤ key.length) :
    key = text := hsuffix.eq_of_length_le h

variable [DecidableEq α]

def emplace (bucket : List (List α × β)) (key : List α) (value : β) : List (List α × β) :=
  if (bucket.lookup key).isSome then bucket else bucket ++ [(key, value)]

def insert (key : List α) (value : β) : List (Nat × List (List α × β)) →
    List (Nat × List (List α × β))
  | [] => [(key.length, [(key, value)])]
  | (length, bucket) :: table =>
    if length = key.length then (length, emplace bucket key value) :: table
    else if length < key.length then (key.length, [(key, value)]) :: (length, bucket) :: table
    else (length, bucket) :: insert key value table

def find (text : List α) : List (Nat × List (List α × β)) → Option β
  | [] => none
  | (length, bucket) :: table =>
    if text.length ≤ length then find text table
    else
      match bucket.lookup (text.drop (text.length - length)) with
      | some value => some value
      | none => find text table

variable (entries : List (List α × β))

/-- The longest of the keys that are proper suffixes of a text, with its first value. -/
structure Longest (text key : List α) (value : β) : Prop where
  first : entries.lookup key = some value
  suffix : key <:+ text
  proper : key ≠ text
  longest : ∀ e ∈ entries, e.1 <:+ text → e.1 ≠ text → e.1.length ≤ key.length

/-- The table holds these entries, if they have come in this order. -/
structure Holds (table : List (Nat × List (List α × β))) : Prop where
  sorted : table.Pairwise fun b b' => b'.1 < b.1
  bucket : ∀ b ∈ table, ∀ key, b.2.lookup key = if key.length = b.1 then entries.lookup key else none
  complete : ∀ e ∈ entries, ∃ b ∈ table, b.1 = e.1.length

theorem lookup_snoc (key key' : List α) (value : β) :
    (entries ++ [(key, value)]).lookup key' =
      (entries.lookup key').or (if key' = key then some value else none) := by
  rw [lookup_append]
  congr 1
  by_cases h : key' = key
  · simp [h]
  · have h' : (key' == key) = false := by simpa using h
    simp [lookup_cons, h', h]

theorem lookup_emplace (bucket : List (List α × β)) (key key' : List α) (value : β) :
    (emplace bucket key value).lookup key' =
      (bucket.lookup key').or (if key' = key then some value else none) := by
  unfold emplace
  split
  · rename_i hsome
    by_cases h : key' = key
    · obtain ⟨v, hv⟩ := Option.isSome_iff_exists.mp hsome
      simp [h, hv]
    · simp [h]
  · exact lookup_snoc bucket key key' value

theorem holds_nil : Holds ([] : List (List α × β)) [] :=
  ⟨List.Pairwise.nil, fun _ h => absurd h not_mem_nil, fun _ h => absurd h not_mem_nil⟩

variable {table : List (Nat × List (List α × β))} {value : β} {key : List α}

variable {b : Nat × List (List α × β)}

theorem mem_insert_length (hb : b ∈ insert key value table) :
    b.1 = key.length ∨ ∃ b' ∈ table, b'.1 = b.1 := by
  induction table with
  | nil =>
    obtain rfl := mem_singleton.mp hb
    exact .inl rfl
  | cons c table ih =>
    simp only [insert] at hb
    split at hb
    · rcases mem_cons.mp hb with rfl | hb
      · exact .inr ⟨c, mem_cons_self, rfl⟩
      · exact .inr ⟨b, mem_cons_of_mem c hb, rfl⟩
    · split at hb
      · rcases mem_cons.mp hb with rfl | hb
        · exact .inl rfl
        · exact .inr ⟨b, hb, rfl⟩
      · rcases mem_cons.mp hb with rfl | hb
        · exact .inr ⟨c, mem_cons_self, rfl⟩
        · rcases ih hb with h | ⟨b', hb', h⟩
          · exact .inl h
          · exact .inr ⟨b', mem_cons_of_mem c hb', h⟩

theorem sorted_insert (key : List α) (value : β) (hs : table.Pairwise fun b b' => b'.1 < b.1) :
    (insert key value table).Pairwise fun b b' => b'.1 < b.1 := by
  induction table with
  | nil => exact pairwise_singleton _ _
  | cons c table ih =>
    obtain ⟨hhead, htail⟩ := pairwise_cons.mp hs
    simp only [insert]
    split
    · exact pairwise_cons.mpr ⟨hhead, htail⟩
    · split
      · rename_i hlt
        refine pairwise_cons.mpr ⟨?_, hs⟩
        intro b hb
        rcases mem_cons.mp hb with rfl | hb
        · exact hlt
        · have := hhead b hb
          simp only at hlt ⊢
          omega
      · rename_i hne hge
        refine pairwise_cons.mpr ⟨?_, ih htail⟩
        intro b hb
        rcases mem_insert_length hb with h | ⟨b', hb', h⟩
        · simp only at hne hge ⊢
          omega
        · have := hhead b' hb'
          omega

theorem mem_insert_cases (hs : table.Pairwise fun b b' => b'.1 < b.1)
    (hb : b ∈ insert key value table) : (b ∈ table ∧ b.1 ≠ key.length) ∨
    (∃ bucket, (key.length, bucket) ∈ table ∧ b = (key.length, emplace bucket key value)) ∨
    (b = (key.length, [(key, value)]) ∧ ∀ b' ∈ table, b'.1 ≠ key.length) := by
  induction table with
  | nil =>
    refine .inr (.inr ⟨mem_singleton.mp hb, ?_⟩)
    intro b' hb'
    cases hb'
  | cons c table ih =>
    obtain ⟨hhead, htail⟩ := pairwise_cons.mp hs
    simp only [insert] at hb
    split at hb
    · rename_i heq
      rcases mem_cons.mp hb with rfl | hb
      · refine .inr (.inl ⟨c.2, ?_, by rw [heq]⟩)
        rw [← heq]
        exact mem_cons_self
      · have := hhead b hb
        exact .inl ⟨mem_cons_of_mem c hb, by omega⟩
    · rename_i hne
      split at hb
      · rename_i hlt
        have hother : ∀ b' ∈ c :: table, b'.1 ≠ key.length := by
          intro b' hb'
          rcases mem_cons.mp hb' with rfl | hb'
          · exact hne
          · have := hhead b' hb'
            omega
        rcases mem_cons.mp hb with rfl | hb
        · exact .inr (.inr ⟨rfl, hother⟩)
        · exact .inl ⟨hb, hother b hb⟩
      · rcases mem_cons.mp hb with rfl | hb
        · exact .inl ⟨mem_cons_self, hne⟩
        · rcases ih htail hb with ⟨hmem, hlength⟩ | ⟨bucket, hmem, hbucket⟩ | ⟨hnew, hother⟩
          · exact .inl ⟨mem_cons_of_mem c hmem, hlength⟩
          · exact .inr (.inl ⟨bucket, mem_cons_of_mem c hmem, hbucket⟩)
          · refine .inr (.inr ⟨hnew, ?_⟩)
            intro b' hb'
            rcases mem_cons.mp hb' with rfl | hb'
            · exact hne
            · exact hother b' hb'

theorem lengths_insert {n : Nat}
    (hn : n = key.length ∨ ∃ b ∈ table, b.1 = n) : ∃ b ∈ insert key value table, b.1 = n := by
  induction table with
  | nil =>
    rcases hn with rfl | ⟨b, hb, -⟩
    · exact ⟨_, mem_cons_self, rfl⟩
    · cases hb
  | cons c table ih =>
    simp only [insert]
    split
    · rename_i heq
      rcases hn with rfl | ⟨b, hb, rfl⟩
      · exact ⟨_, mem_cons_self, heq⟩
      · rcases mem_cons.mp hb with rfl | hb
        · exact ⟨_, mem_cons_self, rfl⟩
        · exact ⟨b, mem_cons_of_mem _ hb, rfl⟩
    · split
      · rcases hn with rfl | ⟨b, hb, rfl⟩
        · exact ⟨_, mem_cons_self, rfl⟩
        · exact ⟨b, mem_cons_of_mem _ hb, rfl⟩
      · rcases hn with hn | ⟨b, hb, rfl⟩
        · obtain ⟨b, hb, h⟩ := ih (.inl hn)
          exact ⟨b, mem_cons_of_mem _ hb, h⟩
        · rcases mem_cons.mp hb with rfl | hb
          · exact ⟨_, mem_cons_self, rfl⟩
          · obtain ⟨b', hb', h⟩ := ih (.inr ⟨b, hb, rfl⟩)
            exact ⟨b', mem_cons_of_mem _ hb', h⟩

variable {entries : List (List α × β)}

theorem mem_of_lookup (h : entries.lookup key = some value) : (key, value) ∈ entries := by
  obtain ⟨l, l', heq, -⟩ := lookup_eq_some_iff.mp h
  simp [heq]

theorem holds_insert (h : Holds entries table) (key : List α) (value : β) :
    Holds (entries ++ [(key, value)]) (insert key value table) := by
  refine ⟨sorted_insert key value h.sorted, ?_, ?_⟩
  · intro b hb key'
    rw [lookup_snoc]
    rcases mem_insert_cases h.sorted hb with ⟨hmem, hlength⟩ | ⟨bucket, hmem, rfl⟩ | ⟨rfl, hother⟩
    · rw [h.bucket b hmem]
      by_cases hk : key'.length = b.1
      · have hne : key' ≠ key := fun heq => hlength (heq ▸ hk).symm
        simp [hk, hne]
      · simp [hk]
    · have hbucket := h.bucket _ hmem key'
      simp only [lookup_emplace, hbucket]
      by_cases hk : key'.length = key.length
      · simp [hk]
      · have hne : key' ≠ key := fun heq => hk (heq ▸ rfl)
        simp [hk, hne]
    · have hnone : key'.length = key.length → entries.lookup key' = none := by
        intro hk
        cases hlookup : entries.lookup key' with
        | none => rfl
        | some v =>
          obtain ⟨b, hb, hlength⟩ := h.complete _ (mem_of_lookup hlookup)
          exact absurd (hlength.trans hk) (hother b hb)
      by_cases hk : key'.length = key.length
      · have hsingle := lookup_snoc ([] : List (List α × β)) key key' value
        simpa [hk, hnone hk] using hsingle
      · have hne : key' ≠ key := fun heq => hk (heq ▸ rfl)
        have hsingle := lookup_snoc ([] : List (List α × β)) key key' value
        simp [hk, hne] at hsingle ⊢
  · intro e he
    rcases mem_append.mp he with he | he
    · exact lengths_insert (.inr (h.complete e he))
    · obtain rfl := mem_singleton.mp he
      exact lengths_insert (.inl rfl)

theorem find_longest {text : List α}
    (hs : table.Pairwise fun b b' => b'.1 < b.1)
    (hb : ∀ b ∈ table, ∀ key, b.2.lookup key = if key.length = b.1 then entries.lookup key else none)
    (hrest : ∀ e ∈ entries, e.1 <:+ text → e.1 ≠ text → ∃ b ∈ table, b.1 = e.1.length) :
    (∀ value, find text table = some value → ∃ key, Longest entries text key value) ∧
    (find text table = none → ∀ e ∈ entries, e.1 <:+ text → e.1 = text) := by
  induction table with
  | nil =>
    refine ⟨?_, ?_⟩
    · intro value h
      cases h
    · intro _ e he hsuffix
      by_contra hne
      obtain ⟨b, hb, -⟩ := hrest e he hsuffix hne
      cases hb
  | cons c table ih =>
    obtain ⟨hhead, htail⟩ := pairwise_cons.mp hs
    have hb' : ∀ b ∈ table, ∀ key,
        b.2.lookup key = if key.length = b.1 then entries.lookup key else none :=
      fun b hmem => hb b (mem_cons_of_mem c hmem)
    simp only [find]
    split
    · rename_i hshort
      refine ih htail hb' ?_
      intro e he hsuffix hne
      obtain ⟨b, hmem, hlength⟩ := hrest e he hsuffix hne
      rcases mem_cons.mp hmem with rfl | hmem
      · exact absurd (eq_of_suffix hsuffix (hlength ▸ hshort)) hne
      · exact ⟨b, hmem, hlength⟩
    · rename_i hlong
      have hcut := length_drop_of_lt (Nat.le_of_lt (Nat.not_le.mp hlong))
      have hlookup := hb c mem_cons_self (text.drop (text.length - c.1))
      rw [if_pos hcut] at hlookup
      split
      · rename_i value hvalue
        refine ⟨?_, fun h => by cases h⟩
        intro value' h
        cases h
        refine ⟨text.drop (text.length - c.1), hlookup.symm.trans hvalue, List.drop_suffix _ _, ?_, ?_⟩
        · intro heq
          rw [heq] at hcut
          omega
        · intro e he hsuffix hne
          obtain ⟨b, hmem, hlength⟩ := hrest e he hsuffix hne
          rw [hcut]
          rcases mem_cons.mp hmem with rfl | hmem
          · omega
          · have := hhead b hmem
            omega
      · rename_i hnone
        refine ih htail hb' ?_
        intro e he hsuffix hne
        obtain ⟨b, hmem, hlength⟩ := hrest e he hsuffix hne
        rcases mem_cons.mp hmem with rfl | hmem
        · have hdrop := drop_suffix hsuffix
          rw [← hlength] at hdrop
          rw [hnone, hdrop] at hlookup
          have habsent := List.lookup_eq_none_iff.mp hlookup.symm e he
          simp at habsent
        · exact ⟨b, hmem, hlength⟩

section Find
variable {entries : List (List α × β)} {table : List (Nat × List (List α × β))} {text : List α}

theorem longest_of_find (h : Holds entries table) (hfind : find text table = some value) :
    ∃ key, Longest entries text key value :=
  (find_longest h.sorted h.bucket fun e he _ _ => h.complete e he).1 value hfind

theorem eq_of_find_none (h : Holds entries table) (hfind : find text table = none) :
    ∀ e ∈ entries, e.1 <:+ text → e.1 = text :=
  (find_longest h.sorted h.bucket fun e he _ _ => h.complete e he).2 hfind

theorem Longest.unique {key key' : List α} {value value' : β} (h : Longest entries text key value)
    (h' : Longest entries text key' value') : key = key' ∧ value = value' := by
  have hle := h.longest _ (mem_of_lookup h'.first) h'.suffix h'.proper
  have hge := h'.longest _ (mem_of_lookup h.first) h.suffix h.proper
  have hkey : key = key' := by
    rw [← drop_suffix h.suffix, ← drop_suffix h'.suffix, Nat.le_antisymm hge hle]
  refine ⟨hkey, ?_⟩
  rw [hkey] at h
  exact Option.some.inj (h.first.symm.trans h'.first)

theorem find_eq_some_iff (h : Holds entries table) (value : β) :
    find text table = some value ↔ ∃ key, Longest entries text key value := by
  constructor
  · exact longest_of_find h
  · rintro ⟨key, hkey⟩
    cases hfind : find text table with
    | none => exact absurd (eq_of_find_none h hfind _ (mem_of_lookup hkey.first) hkey.suffix) hkey.proper
    | some value' =>
      obtain ⟨key', hkey'⟩ := longest_of_find h hfind
      rw [(hkey.unique hkey').2]

end Find

end Lib.SuffixTable
