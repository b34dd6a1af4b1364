import Winners.Proofs.Draws.Distinct
import Winners.Proofs.Tracker.Members

set_option autoImplicit false

/-! # The size of a vertex subset

Toggling a vertex changes the size by one. As long as the arrays are in order, the sizes of both add
up to the number of vertices, so there is a vertex to add below the full size and one to remove
above zero. A subset drawn at random has the size that was asked for, because random indices are
distinct.
-/

namespace Winners

theorem size_swapRemove {α : Type} (xs : Array α) (position : Nat) :
    (swapRemove xs position).size = xs.size - 1 := by
  unfold swapRemove
  split
  · next hback =>
      rw [Array.back?_eq_none_iff.mp hback]
      rfl
  · rw [Array.size_pop, Array.size_setIfInBounds]

namespace VertexSubset

variable {n : Nat} {G : Graph n} {S : VertexSubset G}

theorem size_toggle_of_member {v : Fin n} (hv : S.member.get v = true) :
    (S.toggle v).size = S.size - 1 := by
  unfold size
  rw [toggle_sides, hv]
  exact size_swapRemove _ _

theorem size_toggle_of_not_member {v : Fin n} (hv : S.member.get v = false) :
    (S.toggle v).size = S.size + 1 := by
  unfold size
  rw [toggle_sides, hv]
  exact Array.size_push _

namespace Arranged

theorem size_add_size_outside (h : S.Arranged) : S.size + S.sides.outside.size = n := by
  calc S.size + S.sides.outside.size
      = (S.sides.inside ++ S.sides.outside).toList.length := by simp [size]
    _ = n := by rw [h.perm_finRange.length_eq, List.length_finRange]

theorem size_le (h : S.Arranged) : S.size ≤ n := by
  have := h.size_add_size_outside
  omega

theorem size_pos (h : S.Arranged) {v : Fin n} (hv : S.member.get v = true) : 0 < S.size :=
  Nat.zero_lt_of_lt (h.inside.slot_lt hv)

theorem size_lt (h : S.Arranged) {v : Fin n} (hv : S.member.get v = false) : S.size < n := by
  have hslot := h.outside.slot_lt (by simpa using hv)
  have hsum := h.size_add_size_outside
  omega

theorem member_of_random (h : S.Arranged) {draws : Draws} {v : Fin n}
    (hv : (S.randomMember.run draws).1 = some v) : S.member.get v = true :=
  h.inside.of_entry hv

theorem not_member_of_random (h : S.Arranged) {draws : Draws} {v : Fin n}
    (hv : (S.randomNonMember.run draws).1 = some v) : S.member.get v = false :=
  Bool.eq_false_iff.mpr (h.outside.of_entry hv)

/-- Below the full size there is a vertex to add. -/
theorem exists_randomNonMember (h : S.Arranged) (hsize : S.size < n) (draws : Draws) :
    ∃ v, (S.randomNonMember.run draws).1 = some v := by
  rw [← Option.isSome_iff_exists, Option.isSome_iff_ne_none]
  intro hnone
  have houtside : S.sides.outside = #[] :=
    Array.eq_empty_iff_forall_not_mem.mpr (Sampler.entry_eq_none_iff.mp hnone)
  have hsum := h.size_add_size_outside
  rw [houtside, Array.size_empty] at hsum
  omega

/-- Above zero there is a vertex to remove. -/
theorem exists_randomMember (hsize : 0 < S.size) (draws : Draws) :
    ∃ v, (S.randomMember.run draws).1 = some v := by
  rw [← Option.isSome_iff_exists, Option.isSome_iff_ne_none]
  intro hnone
  exact Sampler.entry_eq_none_iff.mp hnone _ (Array.getElem_mem hsize)

end Arranged

/-! ## New subsets -/

/-- Distinct vertices make a subset of as many members. -/
theorem size_ofVertices {vertices : List (Fin n)} (hdistinct : vertices.Nodup) :
    (ofVertices G vertices).size = vertices.length := by
  have harranged : (ofVertices G vertices).Arranged := (exact_ofMembers G _).sides
  have hmember : ∀ v, (ofVertices G vertices).member.get v = decide (v ∈ vertices) := by
    intro v
    refine (Patch.get_patch (fun _ _ => true) hdistinct _ v).trans ?_
    rw [Patch.get_replicate]
    by_cases hv : v ∈ vertices <;> simp [hv]
  have hperm : ((List.finRange n).filter (· ∈ vertices)).Perm vertices := by
    apply (List.perm_ext_iff_of_nodup ((List.nodup_finRange n).filter _) hdistinct).mpr
    intro v
    simp
  calc (ofVertices G vertices).size
      = (List.finRange n).countP (ofVertices G vertices).member.get := harranged.size_eq
    _ = ((List.finRange n).filter (· ∈ vertices)).length := by
        rw [List.countP_eq_length_filter, funext hmember]
    _ = vertices.length := hperm.length_eq

variable {choose : Sampler.IndexChoice}

theorem exists_random (choose : Sampler.IndexChoice) {size : Nat} (h : size ≤ n) :
    ∃ sampler, random G size choose = .ok sampler := by
  unfold random
  rw [if_neg (Nat.not_lt.mpr h)]
  exact ⟨_, rfl⟩

/-- **A random subset has the size asked for.** -/
theorem size_random (hchoose : choose.Distinct) {size : Nat} {sampler : Sampler (VertexSubset G)}
    (h : random G size choose = .ok sampler) (draws : Draws) :
    (sampler.run draws).1.size = size := by
  unfold random at h
  split at h
  · cases h
  · next hle =>
      cases h
      obtain ⟨hdistinct, hlength⟩ := hchoose (Nat.not_lt.mp hle) draws
      rw [Sampler.run_bind, Sampler.run_pure]
      exact (size_ofVertices hdistinct).trans hlength

/-- A subset with exact caches and a number of members. -/
structure OfSize (size : Nat) (S : VertexSubset G) : Prop where
  exact : S.Exact
  size_eq : S.size = size

theorem OfSize.length_members {size : Nat} (h : S.OfSize size) : S.members.length = size :=
  (Arranged.length_members h.exact.sides).trans h.size_eq

theorem ofSize_random (hchoose : choose.Distinct) {size : Nat}
    {sampler : Sampler (VertexSubset G)} (h : random G size choose = .ok sampler) (draws : Draws) :
    OfSize size (sampler.run draws).1 :=
  ⟨(Fresh.random h draws).exact, size_random hchoose h draws⟩

end VertexSubset

end Winners
