import Winners.Proofs.Walk.Journal
import Winners.Proofs.Walk.Size

set_option autoImplicit false

/-! # Walks that come from outside their bounds

A walk between bounds can start from a subset of any size. If the bounds are apart and the graph has
enough vertices for the upper one, there is always a vertex to add or to remove, so no step is
skipped. A vertex is added only below the upper bound and removed only above the lower one
(`SizeBounds.Moves`). Hence the distance of the size from the bounds, while it is not zero, counts
down by one in each step, and once it is zero it stays so (`bounded_walk_comes_into_bounds`).
-/

namespace Winners

/-! ## Sizes -/

namespace SizeBounds

/-- How far a size is from the bounds. -/
def distance (bounds : SizeBounds) (size : Nat) : Nat :=
  Max.max (bounds.min - size) (size - bounds.max)

/-- How a size may change in one step: a vertex is added below the upper bound, or one is removed
above the lower bound. -/
inductive Moves (bounds : SizeBounds) : Nat → Nat → Prop
  | add {size : Nat} (h : size < bounds.max) : Moves bounds size (size + 1)
  | remove {size : Nat} (h : bounds.min < size + 1) : Moves bounds (size + 1) size

variable {bounds : SizeBounds} {size size' : Nat}

theorem distance_eq_zero_iff :
    bounds.distance size = 0 ↔ bounds.min ≤ size ∧ size ≤ bounds.max := by
  unfold distance
  omega

namespace Moves

theorem by_one (h : bounds.Moves size size') : size' = size + 1 ∨ size' + 1 = size := by
  cases h with
  | add => exact Or.inl rfl
  | remove => exact Or.inr rfl

theorem up (h : bounds.Moves size size') (hlow : size < bounds.min) : size' = size + 1 := by
  cases h with
  | add => rfl
  | remove => omega

theorem down (h : bounds.Moves size size') (hhigh : bounds.max < size) : size' + 1 = size := by
  cases h with
  | add => omega
  | remove => rfl

/-- **A step leads towards the bounds**, and does not leave them. -/
theorem distance_le (h : bounds.Moves size size') :
    bounds.distance size' ≤ bounds.distance size - 1 := by
  have hle := bounds.min_le_max
  unfold distance
  cases h with
  | add => omega
  | remove => omega

end Moves

end SizeBounds

/-! ## Steps -/

section

variable {τ μ ν π ω : Type} [Tracker τ μ ν] {policy : Policy τ μ π} {onMutation : μ → τ → ω → ω}

namespace Walk

/-- A step of a legal policy makes the moves that are planned, and counts if there are any. -/
theorem step_of_legal (hlegal : policy.Legal) (onMutation : μ → τ → ω → ω) (walk : Walk τ π ω) :
    ∃ next, walk.step policy onMutation = (.ok !(walk.planned policy).isEmpty, next) ∧
      next.tracker = Tracker.replay walk.tracker (walk.planned policy) := by
  have hperform : (perform onMutation (walk.planned policy) walk.tracker walk.report).1 = .ok () :=
    perform_of_accepts onMutation walk.report (hlegal.plan walk.tracker walk.memory walk.draws)
  refine ⟨(walk.step policy onMutation).2, Prod.ext ?_ rfl, hlegal.tracker_step onMutation walk⟩
  rw [result_step, hperform]
  rfl

/-- A walk goes on with one more step. -/
theorem mix_concat {steps : Nat} : ∀ {walk last next : Walk τ π ω} {made : Nat} {moved : Bool},
    walk.mix policy onMutation steps = (.ok made, last) →
    last.step policy onMutation = (.ok moved, next) →
    walk.mix policy onMutation (steps + 1) = (.ok (made + if moved then 1 else 0), next) := by
  induction steps with
  | zero =>
      intro walk last next made moved hmix hstep
      cases hmix
      rw [mix_succ_of_step hstep]
      cases moved <;> rfl
  | succ steps ih =>
      intro walk last next made moved hmix hstep
      rcases hfirst : walk.step policy onMutation with ⟨_ | moved', walk'⟩
      · rw [mix_succ_of_refused hfirst] at hmix
        cases hmix
      · rw [mix_succ_of_step hfirst] at hmix
        obtain ⟨hmade, hlast⟩ := Prod.mk.inj hmix
        obtain ⟨later, hlater, rfl⟩ := map_eq_ok.mp hmade
        have hrest : walk'.mix policy onMutation steps = (.ok later, last) :=
          Prod.ext hlater hlast
        rw [mix_succ_of_step hfirst, ih hrest hstep]
        exact congrArg (fun total => (Except.ok total, next)) (Nat.add_assoc _ _ _).symm

end Walk

end

open VertexSubset

variable {n : Nat} {G : Graph n} {π ω : Type} {bounds : SizeBounds}

/-- What a walk plans for a step between bounds that are apart is one vertex, to be added below the
upper bound or removed above the lower one. -/
theorem Policy.exists_plan_boundedSize (hapart : bounds.min < bounds.max) (hroom : bounds.max ≤ n)
    {S : VertexSubset G} (hS : S.Arranged) (memory : π) (draws : Draws) :
    ∃ v : Fin n, (((boundedSize bounds).plan S memory).run draws).1.1 = [v.val] ∧
      bounds.Moves S.size (S.toggle v).size := by
  rw [plan_boundedSize]
  cases hadd : ((adding bounds S).run draws).1 with
  | true =>
      -- also a size at the lower bound is below the upper one
      have hsize : S.size < bounds.max := by
        rcases size_of_adding hadd with h | h
        · exact Nat.lt_of_le_of_lt h hapart
        · exact h
      obtain ⟨v, hv⟩ := hS.exists_randomNonMember (Nat.lt_of_lt_of_le hsize hroom)
        ((adding bounds S).run draws).2
      rw [if_pos rfl, hv]
      refine ⟨v, rfl, ?_⟩
      rw [size_toggle_of_not_member (hS.not_member_of_random hv)]
      exact .add hsize
  | false =>
      have hsize := size_of_not_adding hadd
      have hpos : 0 < S.size := Nat.zero_lt_of_lt hsize
      obtain ⟨v, hv⟩ := Arranged.exists_randomMember hpos ((adding bounds S).run draws).2
      rw [if_neg (by decide), hv]
      refine ⟨v, rfl, ?_⟩
      rw [size_toggle_of_member (hS.member_of_random hv)]
      obtain ⟨size, hsucc⟩ := Nat.exists_eq_add_one_of_ne_zero hpos.ne'
      rw [hsucc] at hsize ⊢
      exact .remove hsize

theorem Walk.exists_step_boundedSize (hapart : bounds.min < bounds.max) (hroom : bounds.max ≤ n)
    (onMutation : Nat → VertexSubset G → ω → ω) {walk : Walk (VertexSubset G) π ω}
    (hwalk : walk.tracker.Arranged) :
    ∃ next, walk.step (.boundedSize bounds) onMutation = (.ok true, next) ∧
      next.tracker.Arranged ∧ bounds.Moves walk.tracker.size next.tracker.size := by
  obtain ⟨v, hplan, hmoves⟩ :=
    Policy.exists_plan_boundedSize hapart hroom hwalk walk.memory walk.draws
  have hplanned : walk.planned (.boundedSize bounds) = [v.val] := hplan
  obtain ⟨next, hstep, hnext⟩ := step_of_legal (Policy.legal_boundedSize bounds) onMutation walk
  rw [hplanned] at hstep hnext
  have htoggled : next.tracker = walk.tracker.toggle v := hnext.trans (attempt_val walk.tracker v)
  exact ⟨next, hstep, htoggled ▸ sides_toggle hwalk v, htoggled ▸ hmoves⟩

/-! ## Whole walks -/

/-- Every step of the walk counts, and takes away one of the distance from the bounds. -/
theorem Walk.exists_mix_boundedSize (hapart : bounds.min < bounds.max) (hroom : bounds.max ≤ n)
    (onMutation : Nat → VertexSubset G → ω → ω) {walk : Walk (VertexSubset G) π ω}
    (hwalk : walk.tracker.Arranged) (steps : Nat) :
    ∃ last, walk.mix (.boundedSize bounds) onMutation steps = (.ok steps, last) ∧
      last.tracker.Arranged ∧
      bounds.distance last.tracker.size ≤ bounds.distance walk.tracker.size - steps := by
  induction steps with
  | zero => exact ⟨walk, rfl, hwalk, le_rfl⟩
  | succ steps ih =>
      obtain ⟨last, hmix, hlast, hdistance⟩ := ih
      obtain ⟨next, hstep, hnext, hmoves⟩ := exists_step_boundedSize hapart hroom onMutation hlast
      refine ⟨next, mix_concat hmix hstep, hnext, ?_⟩
      calc bounds.distance next.tracker.size
          ≤ bounds.distance last.tracker.size - 1 := hmoves.distance_le
        _ ≤ bounds.distance walk.tracker.size - steps - 1 := Nat.sub_le_sub_right hdistance 1
        _ = bounds.distance walk.tracker.size - (steps + 1) := Nat.sub_sub _ _ _

/-- The size of the subset after some steps of a walk between bounds. -/
def Walk.sizeAfter (bounds : SizeBounds) (onMutation : Nat → VertexSubset G → ω → ω)
    (walk : Walk (VertexSubset G) π ω) (steps : Nat) : Nat :=
  (walk.mix (.boundedSize bounds) onMutation steps).2.tracker.size

/-- **A walk that comes into its bounds and stays there.** -/
structure Walk.ComesIntoBounds (bounds : SizeBounds) (onMutation : Nat → VertexSubset G → ω → ω)
    (walk : Walk (VertexSubset G) π ω) : Prop where
  /-- No step is skipped. -/
  counts : ∀ i, (walk.mix (.boundedSize bounds) onMutation i).1 = .ok i
  /-- The next step goes on from the steps before it. -/
  goes_on : ∀ i, (walk.mix (.boundedSize bounds) onMutation i).2.step (.boundedSize bounds)
    onMutation = (.ok true, (walk.mix (.boundedSize bounds) onMutation (i + 1)).2)
  /-- It changes the size by one, ... -/
  by_one : ∀ i, walk.sizeAfter bounds onMutation (i + 1) = walk.sizeAfter bounds onMutation i + 1 ∨
    walk.sizeAfter bounds onMutation (i + 1) + 1 = walk.sizeAfter bounds onMutation i
  /-- ... upwards below the bounds ... -/
  up : ∀ i, walk.sizeAfter bounds onMutation i < bounds.min →
    walk.sizeAfter bounds onMutation (i + 1) = walk.sizeAfter bounds onMutation i + 1
  /-- ... and downwards above them. -/
  down : ∀ i, bounds.max < walk.sizeAfter bounds onMutation i →
    walk.sizeAfter bounds onMutation (i + 1) + 1 = walk.sizeAfter bounds onMutation i
  /-- After as many steps as the size was away from the bounds it is between them for good. -/
  inside : ∀ i, max (bounds.min - walk.tracker.size) (walk.tracker.size - bounds.max) ≤ i →
    bounds.min ≤ walk.sizeAfter bounds onMutation i ∧ walk.sizeAfter bounds onMutation i ≤ bounds.max

/-- **A walk between bounds that are apart comes into them and stays there**, whatever is drawn and
from a subset of any size, if the graph has enough vertices for the upper bound. -/
theorem bounded_walk_comes_into_bounds {n : Nat} {G : Graph n} {π ω : Type} {bounds : SizeBounds}
    (hapart : bounds.min < bounds.max) (hroom : bounds.max ≤ n)
    (onMutation : Nat → VertexSubset G → ω → ω) {walk : Walk (VertexSubset G) π ω}
    (hwalk : walk.tracker.Evolved) : walk.ComesIntoBounds bounds onMutation := by
  have hmix := Walk.exists_mix_boundedSize hapart hroom onMutation hwalk.arranged
  have hstep : ∀ i, (walk.mix (.boundedSize bounds) onMutation i).2.step (.boundedSize bounds)
        onMutation = (.ok true, (walk.mix (.boundedSize bounds) onMutation (i + 1)).2) ∧
      bounds.Moves (walk.sizeAfter bounds onMutation i)
        (walk.sizeAfter bounds onMutation (i + 1)) := by
    intro i
    obtain ⟨last, hlast, harranged, -⟩ := hmix i
    obtain ⟨next, hnext, -, hmoves⟩ :=
      Walk.exists_step_boundedSize hapart hroom onMutation harranged
    rw [Walk.sizeAfter, Walk.sizeAfter, hlast, Walk.mix_concat hlast hnext]
    exact ⟨hnext, hmoves⟩
  refine ⟨?_, fun i => (hstep i).1, fun i => (hstep i).2.by_one, fun i => (hstep i).2.up,
    fun i => (hstep i).2.down, ?_⟩
  · intro i
    obtain ⟨last, hlast, -, -⟩ := hmix i
    rw [hlast]
  · intro i hi
    obtain ⟨last, hlast, -, hdistance⟩ := hmix i
    rw [Walk.sizeAfter, hlast, ← SizeBounds.distance_eq_zero_iff]
    exact Nat.eq_zero_of_le_zero (hdistance.trans (Nat.sub_eq_zero_of_le hi).le)

/-- All four vertices of a path are two too many: two of them leave, and from then on there are one
or two. -/
theorem bounded_walk_comes_into_bounds_full :
    ∃ bounds S, SizeBounds.check 1 2 = .ok bounds ∧
      ofList (Graph.path 4) [0, 1, 2, 3] = .ok S ∧ S.Evolved ∧
      ∀ draws : Draws,
        let walk : Walk (VertexSubset (Graph.path 4)) Unit Unit := ⟨S, (), draws, ()⟩
        let size := walk.sizeAfter bounds fun _ _ report => report
        size 0 = 4 ∧ size 1 = 3 ∧ size 2 = 2 ∧ ∀ i, 2 ≤ i → 1 ≤ size i ∧ size i ≤ 2 := by
  have hS : ofList (Graph.path 4) [0, 1, 2, 3] = .ok (ofVertices (Graph.path 4) [0, 1, 2, 3]) := by
    decide +kernel
  have hevolved : (ofVertices (Graph.path 4) [0, 1, 2, 3]).Evolved := .fresh (.ofList hS)
  refine ⟨⟨1, 2, by decide⟩, _, rfl, hS, hevolved, ?_⟩
  intro draws walk size
  have hcomes : walk.ComesIntoBounds ⟨1, 2, by decide⟩ fun _ _ report => report :=
    bounded_walk_comes_into_bounds (by decide) (by decide) _ hevolved
  have hstart : size 0 = 4 := show (ofVertices (Graph.path 4) [0, 1, 2, 3]).size = 4 by
    decide +kernel
  have hfirst : size 1 + 1 = size 0 := hcomes.down 0 (show 2 < size 0 by omega)
  have hsecond : size 2 + 1 = size 1 := hcomes.down 1 (show 2 < size 1 by omega)
  refine ⟨hstart, by omega, by omega, ?_⟩
  intro i hi
  exact hcomes.inside i (show max (1 - size 0) (size 0 - 2) ≤ i by omega)

end Winners
