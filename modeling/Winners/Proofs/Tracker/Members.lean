import Winners.Proofs.Graph.Independent
import Winners.Proofs.Tracker.VertexSubset

set_option autoImplicit false

/-! # What the two arrays of a vertex subset are good for

The invariant of the arrays, `Sides.Holds`, needs nothing from the graph: toggling a vertex keeps
it, so every call does, and rebuilding a subset restores it from the members alone. From it follows
what is read off the arrays: together they list every vertex once, the size is the number of
members, the sorted list of the members is that of the inside array, and a random entry is on the
right side (`subset_arrays_exact`). With exact caches, the test of the sorted list for independence
is the question whether there are edges inside (`isIndependent_members_iff`).
-/

namespace Winners

/-! ## Random entries -/

namespace Sampler

variable {α : Type} {xs : Array α} {draws : Draws}

theorem mem_of_entry {a : α} (h : ((entry xs).run draws).1 = some a) : a ∈ xs := by
  unfold entry at h
  split at h
  · rw [run_bind, run_pure, Option.some.injEq] at h
    rw [← h]
    exact Array.getElem_mem _
  · cases h

theorem entry_eq_none_iff : ((entry xs).run draws).1 = none ↔ ∀ a, a ∉ xs := by
  unfold entry
  split
  · next hpos =>
      rw [run_bind, run_pure]
      constructor
      · intro h
        cases h
      · intro h
        exact absurd (Array.getElem_mem hpos) (h _)
  · next hzero =>
      have hempty : xs = #[] := Array.eq_empty_of_size_eq_zero (by omega)
      constructor
      · rintro - a
        rw [hempty]
        exact Array.not_mem_empty a
      · intro _
        rfl

end Sampler

/-! ## The arrays together -/

namespace Sides

variable {n : Nat} {s : Sides n} {member : Fin n → Prop}

/-- **The arrays list every vertex once.** -/
theorem Holds.perm_finRange (h : s.Holds member) :
    (s.inside ++ s.outside).toList.Perm (List.finRange n) := by
  have hapart : ∀ u ∈ s.inside.toList, ∀ v ∈ s.outside.toList, u ≠ v := by
    rintro u hu v hv rfl
    exact h.outside.mem_iff.mp (Array.mem_toList_iff.mp hv)
      (h.inside.mem_iff.mp (Array.mem_toList_iff.mp hu))
  rw [Array.toList_append]
  apply (List.perm_ext_iff_of_nodup
    (List.nodup_append.mpr ⟨h.inside.nodup, h.outside.nodup, hapart⟩) (List.nodup_finRange n)).mpr
  intro v
  rw [List.mem_append, Array.mem_toList_iff, Array.mem_toList_iff, h.inside.mem_iff,
    h.outside.mem_iff]
  exact iff_of_true (Classical.em (member v)) (List.mem_finRange v)

namespace Indexed

variable {xs : Array (Fin n)} {slot : Vector Nat n} {P : Fin n → Prop} {draws : Draws}

/-- A random entry has the property of the array. -/
theorem of_entry (h : Indexed xs slot P) {v : Fin n}
    (hv : ((Sampler.entry xs).run draws).1 = some v) : P v :=
  h.mem_iff.mp (Sampler.mem_of_entry hv)

theorem entry_eq_none_iff (h : Indexed xs slot P) :
    ((Sampler.entry xs).run draws).1 = none ↔ ∀ v, ¬P v :=
  Sampler.entry_eq_none_iff.trans (forall_congr' fun _ => not_congr h.mem_iff)

end Indexed

end Sides

namespace VertexSubset

variable {n : Nat} {G : Graph n} {S : VertexSubset G}

/-! ## What is read off the arrays -/

/-- The arrays hold the members and the other vertices, each at its slot. -/
abbrev Arranged (S : VertexSubset G) : Prop := S.sides.Holds fun v => S.member.get v = true

namespace Arranged

/-- Sorting the members loses none of the inside array. -/
theorem members_perm (h : S.Arranged) : S.members.Perm S.sides.inside.toList :=
  perm_ascending h.inside.nodup

theorem members_eq (h : S.Arranged) : S.members = (List.finRange n).filter S.member.get := by
  have hmembers : S.members.Pairwise (· < ·) := pairwise_ascending _
  have hfilter : ((List.finRange n).filter S.member.get).Pairwise (· < ·) :=
    (List.pairwise_lt_finRange n).filter _
  apply eq_of_ascending hmembers hfilter
  intro v
  rw [h.members_perm.mem_iff, Array.mem_toList_iff, h.inside.mem_iff, List.mem_filter]
  exact (and_iff_right (List.mem_finRange v)).symm

theorem length_members (h : S.Arranged) : S.members.length = S.size :=
  h.members_perm.length_eq.trans Array.length_toList

theorem size_eq (h : S.Arranged) : S.size = (List.finRange n).countP S.member.get := by
  rw [← h.length_members, h.members_eq, List.countP_eq_length_filter]

theorem getElem?_slot (h : S.Arranged) (v : Fin n) :
    (if S.member.get v then S.sides.inside else S.sides.outside)[S.sides.slot.get v]? =
      some v := by
  split
  · next hv => exact h.inside.getElem?_slot hv
  · next hv => exact h.outside.getElem?_slot hv

end Arranged

/-- **Mutations keep the arrays in order**, on any graph. -/
theorem kept_arranged : Tracker.Kept (Arranged (G := G)) := by
  intro S S' move undo hS h
  obtain ⟨v, -, -, rfl⟩ := Tracker.exists_of_applyAt (Tracker.mutate_eq_ok_iff.mp h)
  exact sides_toggle hS v

/-! ## Independent sets -/

theorem isIndependent_members_iff (hG : G.Simple) (hS : S.Exact) :
    G.isIndependent (S.members.map Fin.val) = true ↔ G.edgesWithin S.member.get = 0 := by
  rw [Graph.isIndependent_map_val, Graph.edgesWithin_eq_zero_iff hG]
  constructor
  · intro h u v hu hv hadj
    have hflip : S.members.Pairwise (flip fun u v => ¬G.Adjacent u v) :=
      h.imp fun hxy hyx => hxy (hG.adjacent_comm.mp hyx)
    exact List.Pairwise.forall_of_forall_of_flip (fun x _ => hG.loopless x) h hflip
      ((mem_members hS u).mpr hu) ((mem_members hS v).mpr hv) hadj
  · intro h
    apply List.Pairwise.imp_of_mem (R := (· < ·))
    · intro u v hu hv _
      exact h u v ((mem_members hS u).mp hu) ((mem_members hS v).mp hv)
    · exact pairwise_ascending _

/-! ## Subsets that calls lead to -/

/-- The subsets that calls and rebuilding lead to, from those that can be made. -/
inductive Evolved : VertexSubset G → Prop
  | fresh {S : VertexSubset G} (h : S.Fresh) : Evolved S
  | call {S : VertexSubset G} (h : Evolved S) (c : Call) : Evolved (S.call c)
  | rebuild {S : VertexSubset G} (h : Evolved S) : Evolved (Tracker.rebuild S)

theorem Evolved.arranged (h : S.Evolved) : S.Arranged := by
  induction h with
  | fresh h => exact h.exact.sides
  | call _ c ih => exact call_kept (P := Arranged) (fun _ v hS => sides_toggle hS v) ih c
  | @rebuild S _ _ => exact Sides.holds_ofMembers S.member

theorem Evolved.exact (hG : G.Simple) (h : S.Evolved) : S.Exact := by
  induction h with
  | fresh h => exact h.exact
  | call _ c ih => exact (call_spec hG ih c).1
  | @rebuild S _ _ => exact exact_ofMembers G S.member

end VertexSubset

open VertexSubset

/-- **The two arrays of a subset are exact after any calls and rebuildings**, on any graph. They
list every vertex once, the members inside and all others outside, each at its slot. So the size
is the number of members, `members` lists them strictly ascending, and whatever is drawn, a random
member is a member and a random non-member is none; there is no result only if there is no such
vertex. -/
theorem subset_arrays_exact {n : Nat} {G : Graph n} {S : VertexSubset G} (hS : S.Evolved) :
    (S.sides.inside ++ S.sides.outside).toList.Perm (List.finRange n) ∧
    (∀ v, v ∈ S.sides.inside ↔ S.member.get v = true) ∧
    (∀ v, v ∈ S.sides.outside ↔ S.member.get v = false) ∧
    (∀ v, (if S.member.get v then S.sides.inside else S.sides.outside)[S.sides.slot.get v]? =
      some v) ∧
    S.size = (List.finRange n).countP S.member.get ∧
    S.members.Perm S.sides.inside.toList ∧ S.members.Pairwise (· < ·) ∧
    S.members = (List.finRange n).filter S.member.get ∧
    (∀ draws v, (S.randomMember.run draws).1 = some v → S.member.get v = true) ∧
    (∀ draws, (S.randomMember.run draws).1 = none ↔ ∀ v, S.member.get v = false) ∧
    (∀ draws v, (S.randomNonMember.run draws).1 = some v → S.member.get v = false) ∧
    (∀ draws, (S.randomNonMember.run draws).1 = none ↔ ∀ v, S.member.get v = true) := by
  have h := hS.arranged
  have houtside : ∀ v, v ∈ S.sides.outside ↔ S.member.get v = false := by
    intro v
    rw [h.outside.mem_iff, Bool.not_eq_true]
  refine ⟨h.perm_finRange, fun v => h.inside.mem_iff, houtside, h.getElem?_slot, h.size_eq,
    h.members_perm, pairwise_ascending _, h.members_eq, ?_, ?_, ?_, ?_⟩
  · intro draws v hv
    exact h.inside.of_entry hv
  · intro draws
    refine h.inside.entry_eq_none_iff.trans ?_
    simp only [Bool.not_eq_true]
  · intro draws v hv
    exact Bool.eq_false_iff.mpr (h.outside.of_entry hv)
  · intro draws
    refine h.outside.entry_eq_none_iff.trans ?_
    simp only [not_not]

/-- A vertex enters, the set is rebuilt, two vertices are exchanged, and a member leaves that does
not stand last. -/
theorem subset_arrays_exact_pathStart :
    let S := ((Tracker.rebuild (pathStart.call (.mutate 2))).call (.swap 3 0)).call (.mutate 1)
    S.Evolved ∧ S.sides.inside = #[3, 2] ∧ S.sides.outside = #[0, 1] ∧
      (S.sides.inside ++ S.sides.outside).toList.Perm (List.finRange 4) ∧
      S.size = 2 ∧ S.members = [2, 3] ∧
      ∀ draws v, (S.randomMember.run draws).1 = some v → S.member.get v = true := by
  intro S
  have hlist : ofList (Graph.path 4) [0, 1] = .ok pathStart := by decide +kernel
  have hS : S.Evolved := .call (.call (.rebuild (.call (.fresh (.ofList hlist)) _)) _) _
  obtain ⟨hperm, -, -, -, hsize, -, -, hmembers, hrandom, -⟩ := subset_arrays_exact hS
  refine ⟨hS, by decide +kernel, by decide +kernel, hperm, ?_, ?_, hrandom⟩
  · exact hsize.trans (by decide +kernel)
  · exact hmembers.trans (by decide +kernel)

end Winners
