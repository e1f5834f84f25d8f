import Meliproxy.Envoy.Http.Http1Pool

/-!
# The requests and the clients of the HTTP/1 pool

The invariant of the pool has two halves that share no field. `Requests` is about the requests
that wait and the outcomes of the others, `Clients` about the lists the clients are in.
-/

namespace Meliproxy.Envoy.Http.Http1

open Lib List

variable (outcomes : List (Nat × Outcome))

def readied : List Nat :=
  (outcomes.filter fun o => o.2 = .onPoolReady).map Prod.fst

def outcomesOf (request : Nat) : List (Nat × Outcome) :=
  outcomes.filter fun o => o.1 = request

/-- `waiting` are the requests without an outcome, the newest first. -/
structure Requests (waiting : List Nat) (resource made : Nat)
    (outcomes : List (Nat × Outcome)) : Prop where
  counted : resource = waiting.length
  newest_first : waiting.Pairwise (· > ·)
  lt_made : ∀ r ∈ waiting, r < made
  count : ∀ r, (outcomesOf outcomes r).length = if r < made ∧ r ∉ waiting then 1 else 0
  in_order : (readied outcomes).Pairwise (· < ·)
  before : ∀ a ∈ readied outcomes, a < made ∧ ∀ b ∈ waiting, a < b

variable {waiting : List Nat} {resource made r : Nat} {outcomes : List (Nat × Outcome)}

theorem outcomesOf_concat (r : Nat) (o : Nat × Outcome) : (outcomesOf (outcomes ++ [o]) r).length =
      (outcomesOf outcomes r).length + if o.1 = r then 1 else 0 := by
  unfold outcomesOf
  by_cases ho : o.1 = r <;> simp [filter_append, ho]

theorem readied_concat_other {o : Outcome} (ho : o ≠ .onPoolReady) :
    readied (outcomes ++ [(r, o)]) = readied outcomes := by
  simp [readied, filter_append, ho]

theorem readied_concat_ready :
    readied (outcomes ++ [(r, .onPoolReady)]) = readied outcomes ++ [r] := by
  simp [readied, filter_append]

namespace Requests

section

variable (h : Requests waiting resource made outcomes)
include h

theorem nodup : waiting.Nodup :=
  h.newest_first.imp fun hlt => Nat.ne_of_gt hlt

theorem at_once (o : Outcome) (hready : o = .onPoolReady → waiting = []) :
    Requests waiting resource (made + 1) (outcomes ++ [(made, o)]) := by
  constructor
  case counted => exact h.counted
  case newest_first => exact h.newest_first
  case lt_made =>
    intro r hr
    have := h.lt_made r hr
    omega
  case count =>
    intro r
    rw [outcomesOf_concat, h.count r]
    by_cases hr : made = r
    · subst hr
      have hnot : made ∉ waiting := fun hmem => Nat.lt_irrefl _ (h.lt_made made hmem)
      rw [if_neg (by omega), if_pos rfl, if_pos ⟨by omega, hnot⟩]
    · have hiff : r < made + 1 ↔ r < made := by omega
      simp [hiff, if_neg hr]
  case in_order =>
    by_cases ho : o = .onPoolReady
    · subst ho
      rw [readied_concat_ready, pairwise_append]
      refine ⟨h.in_order, pairwise_singleton _ _, ?_⟩
      intro a ha b hb
      obtain rfl := mem_singleton.mp hb
      exact (h.before a ha).1
    · rw [readied_concat_other ho]
      exact h.in_order
  case before =>
    intro a ha
    by_cases ho : o = .onPoolReady
    · subst ho
      rw [readied_concat_ready] at ha
      rw [hready rfl]
      refine ⟨?_, by simp⟩
      rcases mem_append.mp ha with ha | ha
      · have := (h.before a ha).1
        omega
      · rw [mem_singleton.mp ha]
        omega
    · rw [readied_concat_other ho] at ha
      obtain ⟨hlt, hb⟩ := h.before a ha
      exact ⟨by omega, hb⟩

theorem wait : Requests (made :: waiting) (resource + 1) (made + 1) outcomes := by
  constructor
  case counted => rw [h.counted, length_cons]
  case newest_first => exact pairwise_cons.mpr ⟨fun r hr => h.lt_made r hr, h.newest_first⟩
  case lt_made =>
    intro r hr
    rcases mem_cons.mp hr with rfl | hr
    · omega
    · have := h.lt_made r hr
      omega
  case count =>
    intro r
    rw [h.count r]
    by_cases hr : r = made
    · subst hr
      rw [if_neg (by omega), if_neg (by simp)]
    · have hiff : r < made + 1 ↔ r < made := by omega
      simp [hiff, hr]
  case in_order => exact h.in_order
  case before =>
    intro a ha
    obtain ⟨hlt, hb⟩ := h.before a ha
    refine ⟨by omega, ?_⟩
    intro b hmem
    rcases mem_cons.mp hmem with rfl | hmem
    · exact hlt
    · exact hb b hmem

theorem resource_pos (hr : r ∈ waiting) : resource ≠ 0 := by
  rw [h.counted]
  exact Nat.ne_of_gt (length_pos_of_mem hr)

theorem settle (hr : r ∈ waiting) (o : Outcome) (hready : o = .onPoolReady → ∀ b ∈ waiting, r ≤ b) :
    Requests (waiting.erase r) (resource - 1) made (outcomes ++ [(r, o)]) := by
  have hmem : ∀ b, b ∈ waiting.erase r ↔ b ≠ r ∧ b ∈ waiting := fun b => h.nodup.mem_erase_iff
  constructor
  case counted => rw [h.counted, length_erase_of_mem hr]
  case newest_first => exact h.newest_first.sublist erase_sublist
  case lt_made =>
    intro b hb
    exact h.lt_made b ((hmem b).mp hb).2
  case count =>
    intro b
    rw [outcomesOf_concat, h.count b]
    have hlt := h.lt_made r hr
    by_cases hb : r = b
    · subst hb
      simp [hr, hlt, hmem]
    · have hb' : b ≠ r := fun he => hb he.symm
      simp [hb, hb', hmem]
  case in_order =>
    by_cases ho : o = .onPoolReady
    · subst ho
      rw [readied_concat_ready, pairwise_append]
      refine ⟨h.in_order, pairwise_singleton _ _, ?_⟩
      intro a ha b hb
      obtain rfl := mem_singleton.mp hb
      exact (h.before a ha).2 b hr
    · rw [readied_concat_other ho]
      exact h.in_order
  case before =>
    intro a ha
    by_cases ho : o = .onPoolReady
    · subst ho
      rw [readied_concat_ready] at ha
      rcases mem_append.mp ha with ha | ha
      · obtain ⟨hlt, hb⟩ := h.before a ha
        exact ⟨hlt, fun b hmem' => hb b ((hmem b).mp hmem').2⟩
      · rw [mem_singleton.mp ha]
        refine ⟨h.lt_made r hr, ?_⟩
        intro b hb
        obtain ⟨hne, hb⟩ := (hmem b).mp hb
        have := hready rfl b hb
        omega
    · rw [readied_concat_other ho] at ha
      obtain ⟨hlt, hb⟩ := h.before a ha
      exact ⟨hlt, fun b hmem' => hb b ((hmem b).mp hmem').2⟩

end

end Requests

def ActiveClient.Idle (c : ActiveClient) : Prop :=
  c.closed = false ∧ c.streamWrapper = none ∧ c.connectTimer = false

def ActiveClient.Busy (c : ActiveClient) : Prop :=
  c.closed = false ∧ (c.streamWrapper.isSome = true ↔ c.connectTimer = false)

structure Clients (clients : Nat → ActiveClient) (created : Nat)
    (ready busy deferred : List Nat) (connections : Nat) : Prop where
  nodup : (ready ++ busy ++ deferred).Nodup
  lt_created : ∀ id ∈ ready ++ busy ++ deferred, id < created
  ready_idle : ∀ id ∈ ready, (clients id).Idle
  busy_busy : ∀ id ∈ busy, (clients id).Busy
  deferred_closed : ∀ id ∈ deferred, (clients id).closed = true
  listed : ∀ id < created, (clients id).closed = false → id ∈ ready ∨ id ∈ busy
  counted : connections = (ready ++ busy ++ deferred).length

section Lists

variable {id : Nat} {ready busy deferred : List Nat}

theorem perm_busy_deferred (h : id ∈ busy) :
    (ready ++ busy.erase id ++ id :: deferred).Perm (ready ++ busy ++ deferred) := by
  have hbusy := ((perm_cons_erase h).symm.append_left ready).append_right deferred
  exact perm_middle.trans ((perm_middle.symm.append_right deferred).trans hbusy)

theorem perm_ready_deferred (h : id ∈ ready) :
    (ready.erase id ++ busy ++ id :: deferred).Perm (ready ++ busy ++ deferred) :=
  perm_middle.trans (((perm_cons_erase h).symm.append_right busy).append_right deferred)

theorem perm_busy_ready (h : id ∈ busy) :
    (id :: ready ++ busy.erase id ++ deferred).Perm (ready ++ busy ++ deferred) :=
  (perm_middle.symm.trans ((perm_cons_erase h).symm.append_left ready)).append_right
    deferred

theorem perm_ready_busy :
    (ready ++ id :: busy ++ deferred).Perm (id :: ready ++ busy ++ deferred) :=
  perm_middle.append_right deferred

end Lists

namespace Clients

variable {clients clients' : Nat → ActiveClient} {created connections id : Nat}
  {ready ready' busy busy' deferred deferred' : List Nat}
  (h : Clients clients created ready busy deferred connections)

include h

theorem move (id : Nat) (hperm : (ready' ++ busy' ++ deferred').Perm (ready ++ busy ++ deferred))
    (hsame : ∀ k, k ≠ id → clients' k = clients k) (hlists : ∀ k, k ≠ id →
      (k ∈ ready' ↔ k ∈ ready) ∧ (k ∈ busy' ↔ k ∈ busy) ∧ (k ∈ deferred' ↔ k ∈ deferred))
    (hready : id ∈ ready' → (clients' id).Idle) (hbusy : id ∈ busy' → (clients' id).Busy)
    (hdeferred : id ∈ deferred' → (clients' id).closed = true)
    (hlisted : id < created → (clients' id).closed = false → id ∈ ready' ∨ id ∈ busy') :
    Clients clients' created ready' busy' deferred' connections := by
  constructor
  case nodup => exact hperm.nodup_iff.mpr h.nodup
  case lt_created =>
    intro k hk
    exact h.lt_created k (hperm.mem_iff.mp hk)
  case ready_idle =>
    intro k hk
    by_cases hki : k = id
    · subst hki
      exact hready hk
    · rw [hsame k hki]
      exact h.ready_idle k ((hlists k hki).1.mp hk)
  case busy_busy =>
    intro k hk
    by_cases hki : k = id
    · subst hki
      exact hbusy hk
    · rw [hsame k hki]
      exact h.busy_busy k ((hlists k hki).2.1.mp hk)
  case deferred_closed =>
    intro k hk
    by_cases hki : k = id
    · subst hki
      exact hdeferred hk
    · rw [hsame k hki]
      exact h.deferred_closed k ((hlists k hki).2.2.mp hk)
  case listed =>
    intro k hk hc
    by_cases hki : k = id
    · subst hki
      exact hlisted hk hc
    · rw [hsame k hki] at hc
      rw [(hlists k hki).1, (hlists k hki).2.1]
      exact h.listed k hk hc
  case counted =>
    rw [hperm.length_eq]
    exact h.counted

theorem ready_disjoint (hid : id ∈ ready) : id ∉ busy ∧ id ∉ deferred := by
  have hn := h.nodup
  rw [append_assoc, List.nodup_append] at hn
  have hd := hn.2.2
  constructor
  · intro hb
    exact hd id hid id (mem_append_left _ hb) rfl
  · intro hdef
    exact hd id hid id (mem_append_right _ hdef) rfl

theorem busy_disjoint (hid : id ∈ busy) : id ∉ ready ∧ id ∉ deferred := by
  have hn := h.nodup
  rw [List.nodup_append] at hn
  constructor
  · intro hr
    have hrb := (List.nodup_append.mp hn.1).2.2
    exact hrb id hr id hid rfl
  · intro hdef
    exact hn.2.2 id (mem_append_right _ hid) id hdef rfl

theorem busy_nodup : busy.Nodup :=
  (List.nodup_append.mp (List.nodup_append.mp h.nodup).1).2.1

theorem ready_nodup : ready.Nodup :=
  (List.nodup_append.mp (List.nodup_append.mp h.nodup).1).1

theorem lose_busy (hid : id ∈ busy) (hsame : ∀ k, k ≠ id → clients' k = clients k)
    (hc : (clients' id).closed = true) :
    Clients clients' created ready (busy.erase id) (id :: deferred) connections := by
  obtain ⟨hr, -⟩ := h.busy_disjoint hid
  refine h.move id (perm_busy_deferred hid) hsame ?_ ?_ ?_ (fun _ => hc) ?_
  · intro k hk
    exact ⟨Iff.rfl, by simp [h.busy_nodup.mem_erase_iff, hk], by simp [hk]⟩
  · intro hr'
    exact absurd hr' hr
  · intro hb
    exact absurd hb (List.Nodup.not_mem_erase h.busy_nodup)
  · intro _ hopen
    cases hopen.symm.trans hc

theorem lose_ready (hid : id ∈ ready) (hsame : ∀ k, k ≠ id → clients' k = clients k)
    (hc : (clients' id).closed = true) :
    Clients clients' created (ready.erase id) busy (id :: deferred) connections := by
  obtain ⟨hb, -⟩ := h.ready_disjoint hid
  refine h.move id (perm_ready_deferred hid) hsame ?_ ?_ ?_ (fun _ => hc) ?_
  · intro k hk
    exact ⟨by simp [h.ready_nodup.mem_erase_iff, hk], Iff.rfl, by simp [hk]⟩
  · intro hr
    exact absurd hr (List.Nodup.not_mem_erase h.ready_nodup)
  · intro hb'
    exact absurd hb' hb
  · intro _ hopen
    cases hopen.symm.trans hc

theorem keep_busy (hid : id ∈ busy) (hsame : ∀ k, k ≠ id → clients' k = clients k)
    (hc : (clients' id).Busy) : Clients clients' created ready busy deferred connections := by
  obtain ⟨hr, hd⟩ := h.busy_disjoint hid
  refine h.move id (List.Perm.refl _) hsame (fun _ _ => ⟨Iff.rfl, Iff.rfl, Iff.rfl⟩) ?_
    (fun _ => hc) ?_ (fun _ _ => .inr hid)
  · intro hr'
    exact absurd hr' hr
  · intro hd'
    exact absurd hd' hd

theorem busy_to_ready (hid : id ∈ busy) (hsame : ∀ k, k ≠ id → clients' k = clients k)
    (hc : (clients' id).Idle) :
    Clients clients' created (id :: ready) (busy.erase id) deferred connections := by
  obtain ⟨-, hd⟩ := h.busy_disjoint hid
  refine h.move id (perm_busy_ready hid) hsame ?_ (fun _ => hc) ?_ ?_
    (fun _ _ => .inl mem_cons_self)
  · intro k hk
    exact ⟨by simp [hk], by simp [h.busy_nodup.mem_erase_iff, hk], Iff.rfl⟩
  · intro hb
    exact absurd hb (List.Nodup.not_mem_erase h.busy_nodup)
  · intro hd'
    exact absurd hd' hd

omit h in
theorem ready_to_busy (h : Clients clients created (id :: ready) busy deferred connections)
    (hsame : ∀ k, k ≠ id → clients' k = clients k) (hc : (clients' id).Busy) :
    Clients clients' created ready (id :: busy) deferred connections := by
  obtain ⟨-, hd⟩ := h.ready_disjoint mem_cons_self
  have hr : id ∉ ready := (nodup_cons.mp h.ready_nodup).1
  refine h.move id perm_ready_busy hsame ?_ ?_ (fun _ => hc) ?_
    (fun _ _ => .inr mem_cons_self)
  · intro k hk
    exact ⟨by simp [hk], by simp [hk], Iff.rfl⟩
  · intro hr'
    exact absurd hr' hr
  · intro hd'
    exact absurd hd' hd

theorem connect {c : ActiveClient} (hc : c.Busy) :
    Clients (Function.update clients created c) (created + 1) ready (created :: busy) deferred
      (connections + 1) := by
  have hfresh : ∀ k ∈ ready ++ busy ++ deferred, k ≠ created :=
    fun k hk => Nat.ne_of_lt (h.lt_created k hk)
  have hperm : (ready ++ created :: busy ++ deferred).Perm
      (created :: (ready ++ busy ++ deferred)) := perm_ready_busy
  have hsame : ∀ k, k ≠ created → Function.update clients created c k = clients k :=
    fun k hk => Function.update_of_ne hk c clients
  constructor
  case nodup =>
    rw [hperm.nodup_iff, nodup_cons]
    exact ⟨fun hmem => hfresh created hmem rfl, h.nodup⟩
  case lt_created =>
    intro k hk
    rcases mem_cons.mp (hperm.mem_iff.mp hk) with rfl | hk
    · omega
    · have := h.lt_created k hk
      omega
  case ready_idle =>
    intro k hk
    rw [hsame k (hfresh k (by simp [hk]))]
    exact h.ready_idle k hk
  case busy_busy =>
    intro k hk
    rcases mem_cons.mp hk with rfl | hk
    · rw [Function.update_self]
      exact hc
    · rw [hsame k (hfresh k (by simp [hk]))]
      exact h.busy_busy k hk
  case deferred_closed =>
    intro k hk
    rw [hsame k (hfresh k (by simp [hk]))]
    exact h.deferred_closed k hk
  case listed =>
    intro k hk hopen
    by_cases hkc : k = created
    · subst hkc
      exact .inr mem_cons_self
    · rw [hsame k hkc] at hopen
      rcases h.listed k (by omega) hopen with hr | hb
      · exact .inl hr
      · exact .inr (mem_cons_of_mem _ hb)
  case counted =>
    rw [hperm.length_eq, length_cons, h.counted]

theorem clear : Clients clients created ready busy [] (connections - deferred.length) := by
  have hsub : (ready ++ busy ++ []).Sublist (ready ++ busy ++ deferred) := by
    rw [append_nil]
    exact sublist_append_left _ _
  refine ⟨h.nodup.sublist hsub, ?_, h.ready_idle, h.busy_busy, by simp, h.listed, ?_⟩
  · intro k hk
    exact h.lt_created k (hsub.mem hk)
  · have hcounted := h.counted
    simp only [length_append, length_nil] at hcounted ⊢
    omega

end Clients

end Meliproxy.Envoy.Http.Http1
