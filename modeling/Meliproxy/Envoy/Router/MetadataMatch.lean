import Meliproxy.Envoy.Config.Metadata
import Meliproxy.Lib.Sort

/-!
# The metadata match criteria of a route

`MetadataMatchCriteriaImpl` of `router/config_impl.cc`. A weighted cluster merges its criteria into
those of its route.
-/

namespace Meliproxy.Envoy.Router

open Lib List Config

abbrev MetadataMatchCriterion := Bytes × Value

/-- `parent` stands for the map of the places that the names of the parent have. -/
def addMatch (parent : List MetadataMatchCriterion) (v : List MetadataMatchCriterion)
    (field : Bytes × Value) : List MetadataMatchCriterion :=
  match parent.findIdx? fun criterion => criterion.1 == field.1 with
  | some i => v.set i field
  | none => v ++ [field]

def extractMetadataMatchCriteria (parent : Option (List MetadataMatchCriterion))
    (fields : Struct) : List MetadataMatchCriterion :=
  let v := parent.getD []
  sortBy Prod.fst (fields.foldl (addMatch v) v)

/-- The criteria of a route, and those merged into others. The names of a struct differ. -/
inductive MatchCriteria : List MetadataMatchCriterion → Prop where
  | create {fields : Struct} : (fields.map Prod.fst).Nodup →
      MatchCriteria (extractMetadataMatchCriteria none fields)
  | mergeMatchCriteria {parent : List MetadataMatchCriterion} {fields : Struct} :
      MatchCriteria parent → (fields.map Prod.fst).Nodup →
      MatchCriteria (extractMetadataMatchCriteria (some parent) fields)

variable {parent v : List MetadataMatchCriterion} {fields : Struct}

theorem names_addMatch {added : List Bytes} (field : Bytes × Value)
    (h : v.map Prod.fst = parent.map Prod.fst ++ added) :
    (addMatch parent v field).map Prod.fst = parent.map Prod.fst ++ added ∨
      field.1 ∉ parent.map Prod.fst ∧
        (addMatch parent v field).map Prod.fst = parent.map Prod.fst ++ (added ++ [field.1]) := by
  unfold addMatch
  split
  · rename_i i hfound
    obtain ⟨hi, hname, -⟩ := findIdx?_eq_some_iff_getElem.mp hfound
    left
    rw [map_set, h]
    refine ext_getElem (by rw [length_set]) fun j hj hj' => ?_
    rw [getElem_set]
    split
    · rename_i heq
      subst heq
      rw [getElem_append_left (by simpa using hi), getElem_map]
      exact (beq_iff_eq.mp hname).symm
    · rfl
  · rename_i hnone
    right
    refine ⟨fun hmem => ?_, by rw [map_append, h, append_assoc]; rfl⟩
    obtain ⟨criterion, hcriterion, hname⟩ := mem_map.mp hmem
    have := findIdx?_eq_none_iff.mp hnone criterion hcriterion
    rw [hname, beq_self_eq_true] at this
    cases this

theorem nodup_fold {added : List Bytes} (hfields : (fields.map Prod.fst).Nodup)
    (hv : v.map Prod.fst = parent.map Prod.fst ++ added)
    (hnodup : (parent.map Prod.fst ++ added).Nodup)
    (hnew : ∀ name ∈ fields.map Prod.fst, name ∉ added) :
    ((fields.foldl (addMatch parent) v).map Prod.fst).Nodup := by
  induction fields generalizing v added with
  | nil => rwa [foldl_nil, hv]
  | cons field fields ih =>
    rw [map_cons, nodup_cons] at hfields
    rw [map_cons, forall_mem_cons] at hnew
    rw [foldl_cons]
    rcases names_addMatch field hv with hsame | ⟨hparent, hlast⟩
    · exact ih hfields.2 hsame hnodup hnew.2
    · refine ih hfields.2 hlast ?_ fun name hname hadded => ?_
      · rw [← append_assoc, List.nodup_append]
        refine ⟨hnodup, nodup_singleton _, fun a ha b hb heq => ?_⟩
        rw [mem_singleton.mp hb] at heq
        subst heq
        exact (mem_append.mp ha).elim hparent hnew.1
      · rcases mem_append.mp hadded with hadded | hadded
        · exact hnew.2 name hname hadded
        · rw [mem_singleton.mp hadded] at hname
          exact hfields.1 hname

theorem sorted_extract {parent : List MetadataMatchCriterion} {fields : Struct}
    (hparent : (parent.map Prod.fst).Nodup) (hfields : (fields.map Prod.fst).Nodup) :
    ((sortBy Prod.fst (fields.foldl (addMatch parent) parent)).map Prod.fst).Pairwise (· < ·) :=
  pairwise_lt_sortBy Prod.fst (nodup_fold hfields (append_nil (parent.map Prod.fst)).symm
    (by rwa [append_nil]) fun _ _ => not_mem_nil)

/-- The criteria come in the order of their names, which differ. -/
theorem MatchCriteria.sorted {criteria : List MetadataMatchCriterion} (h : MatchCriteria criteria) :
    (criteria.map Prod.fst).Pairwise (· < ·) := by
  induction h with
  | create hfields => exact sorted_extract nodup_nil hfields
  | mergeMatchCriteria hparent hfields ih => exact sorted_extract (ih.imp Std.ne_of_lt) hfields

end Meliproxy.Envoy.Router
