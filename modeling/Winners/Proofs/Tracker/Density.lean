import Winners.Proofs.Tracker.Descent
import Mathlib.Algebra.Order.Field.Rat
import Mathlib.Tactic.TFAE

set_option autoImplicit false

/-! # What the score of a vertex subset tells

The degrees of the members into their own set add up to twice the number of edges inside it, and
each of them is below the size, so there are no more edges inside than pairs of members
(`Exact.edgesWithin_le_pairs`). A sum of natural numbers is zero only if all of them are, so without
edges inside no member has anything to gain by leaving, and a descent towards few edges makes no
flip. All of this says that the set is independent (`Exact.independent_tfae`).

The density is the share of the pairs that are edges. There is a pair whenever a division is made,
and rounding the quotient does no harm at either end: it is not above one, and zero only for
independent sets.
-/

namespace Winners

namespace VertexSubset

open Descent

variable {n : Nat} {G : Graph n} {S : VertexSubset G}

/-! ## Pairs of members -/

/-- The number of pairs of members. -/
def pairs (S : VertexSubset G) : Nat := S.size * (S.size - 1) / 2

theorem pairs_pos (h : 1 < S.size) : 0 < S.pairs := by
  have htwo : 2 * 1 ≤ S.size * (S.size - 1) := Nat.mul_le_mul (by omega) (by omega)
  unfold pairs
  omega

theorem pairs_of_size_le_one (h : S.size ≤ 1) : S.pairs = 0 := by
  rw [pairs, Nat.sub_eq_zero_of_le h, Nat.mul_zero]

theorem Arranged.pairs_lt (h : S.Arranged) (hn : n < 2 ^ 64) : S.pairs < 2 ^ 128 := by
  have hsize := h.size_le
  have hlt : S.size * (S.size - 1) < 2 ^ 64 * 2 ^ 64 := Nat.mul_lt_mul'' (by omega) (by omega)
  unfold pairs
  omega

namespace Exact

/-! ## Degrees of the members -/

/-- A member has at most the other members for neighbours. -/
theorem internalDegree_lt_size (hG : G.Simple) (hS : S.Exact) {v : Fin n}
    (hv : S.member.get v = true) : S.internalDegree.get v < S.size := by
  have hdistinct : (v :: (G.neighbors.get v).filter S.member.get).Nodup := by
    refine List.nodup_cons.mpr ⟨?_, (hG.nodup v).filter _⟩
    intro hmem
    exact hG.loopless v (List.mem_of_mem_filter hmem)
  have hsubset : v :: (G.neighbors.get v).filter S.member.get ⊆ S.members := by
    intro u hu
    rw [mem_members hS]
    rcases List.mem_cons.mp hu with rfl | hu
    · exact hv
    · exact (List.mem_filter.mp hu).2
  have hle := (List.subperm_of_subset hdistinct hsubset).length_le
  rwa [Arranged.length_members hS.sides, List.length_cons, ← List.countP_eq_length_filter,
    ← hS.degrees] at hle

/-- **The degrees of the members add up to twice the number of edges.** -/
theorem sum_internalDegree (hG : G.Simple) (hS : S.Exact) :
    (S.members.map S.internalDegree.get).sum = 2 * G.edgesWithin S.member.get := by
  have hset : S.members.toFinset = Finset.univ.filter fun v => S.member.get v = true := by
    ext v
    simp [mem_members hS]
  have hterm : ∀ u, (G.neighbors.get u).countP (fun v => S.member.get u && S.member.get v) =
      if S.member.get u = true then S.internalDegree.get u else 0 := by
    intro u
    rw [Counting.countP_and, hS.degrees]
  calc (S.members.map S.internalDegree.get).sum
      = ∑ v ∈ S.members.toFinset, S.internalDegree.get v :=
        (List.sum_toFinset _ ((pairwise_ascending _).imp ne_of_lt)).symm
    _ = ∑ v, if S.member.get v = true then S.internalDegree.get v else 0 := by
        rw [hset, Finset.sum_filter]
    _ = ∑ u, (G.neighbors.get u).countP fun v => S.member.get u && S.member.get v :=
        Finset.sum_congr rfl fun u _ => (hterm u).symm
    _ = 2 * G.edgesWithin S.member.get :=
        Graph.sum_countP_neighbors hG _ fun u v => Bool.and_comm _ _

/-- **There are no more edges inside than pairs of members.** -/
theorem edgesWithin_le_pairs (hG : G.Simple) (hS : S.Exact) :
    G.edgesWithin S.member.get ≤ S.pairs := by
  rw [pairs, Nat.le_div_iff_mul_le Nat.two_pos, Nat.mul_comm, ← hS.sum_internalDegree hG,
    ← Arranged.length_members hS.sides, ← smul_eq_mul, ← List.length_map S.internalDegree.get]
  apply List.sum_le_card_nsmul
  intro degree hdegree
  obtain ⟨v, hv, rfl⟩ := List.mem_map.mp hdegree
  have hlt := hS.internalDegree_lt_size hG ((mem_members hS v).mp hv)
  rw [List.length_map, Arranged.length_members hS.sides]
  omega

/-! ## Independent sets -/

/-- Without edges inside no member gains anything by leaving. -/
theorem edgesWithin_eq_zero_iff_marginal (hG : G.Simple) (hS : S.Exact) :
    G.edgesWithin S.member.get = 0 ↔ ∀ v ∈ S.members, Tracker.marginal S v.val = .ok 0 := by
  have hdegree : ∀ v ∈ S.members,
      (Tracker.marginal S v.val = .ok 0 ↔ S.internalDegree.get v = 0) := by
    intro v hv
    rw [marginal_val, marginal, if_pos ((mem_members hS v).mp hv), Except.ok.injEq]
    omega
  calc G.edgesWithin S.member.get = 0
      ↔ (S.members.map S.internalDegree.get).sum = 0 := by
        rw [hS.sum_internalDegree hG]
        omega
    _ ↔ ∀ v ∈ S.members, S.internalDegree.get v = 0 := by
        rw [List.sum_eq_zero_iff, List.forall_mem_map]
    _ ↔ ∀ v ∈ S.members, Tracker.marginal S v.val = .ok 0 :=
        forall₂_congr fun v hv => (hdegree v hv).symm

/-- A descent without a budget ends settled. It does not flip at all if there is no edge. -/
theorem exists_descend (hG : G.Simple) (hS : S.Exact) :
    ∃ flipped T, Descent.descend .minimize none S = .ok (flipped, T) ∧
      Descends .minimize flipped S T ∧ Settled .minimize T ∧
      (G.edgesWithin S.member.get = 0 → flipped = 0) := by
  obtain ⟨flipped, T, hdescends, hsettled, hle⟩ := hS.exists_descends hG
  refine ⟨flipped, T, ?_, hdescends, hsettled, ?_⟩
  · have hflips := flips_of_descends hdescends hsettled 0 hle
    rwa [Nat.zero_add] at hflips
  · intro hzero
    have hout := hS.takesOut_of_descends hG hdescends
    have hedges := hout.edges
    rw [hS.edges, hout.exact.edges] at hedges
    omega

/-- **Ways to say that a subset is independent.** -/
theorem independent_tfae (hG : G.Simple) (hS : S.Exact) : List.TFAE [
    S.edgesInside = 0,
    G.isIndependent (S.members.map Fin.val) = true,
    ∀ v ∈ S.members, Tracker.marginal S v.val = .ok 0,
    Descent.descend .minimize none S = .ok (0, S),
    ∃ T, Descent.descend .minimize none S = .ok (0, T)] := by
  have hzero : S.edgesInside = 0 ↔ G.edgesWithin S.member.get = 0 := by
    rw [hS.edges, Int.natCast_eq_zero]
  obtain ⟨flipped, T, hdescend, hdescends, hsettled, hnone⟩ := hS.exists_descend hG
  tfae_have 1 ↔ 2 := hzero.trans (isIndependent_members_iff hG hS).symm
  tfae_have 1 ↔ 3 := hzero.trans (hS.edgesWithin_eq_zero_iff_marginal hG)
  tfae_have 1 → 4 := by
    intro h
    obtain rfl := hnone (hzero.mp h)
    cases hdescends
    exact hdescend
  tfae_have 4 → 5 := fun h => ⟨S, h⟩
  tfae_have 5 → 1 := by
    rintro ⟨T', h⟩
    -- a descent that has made no flip has begun where it is settled
    obtain ⟨rfl, -⟩ := Prod.mk.inj (Except.ok.inj (hdescend.symm.trans h))
    cases hdescends
    exact hzero.mpr (hS.edgesWithin_of_settled hG hsettled)
  tfae_finish

/-! ## The density -/

/-- Past one member the density is a quotient of natural numbers. -/
theorem density_eq (hS : S.Exact) (hsize : 1 < S.size) :
    S.density = .ofNat (G.edgesWithin S.member.get) / .ofNat S.pairs := by
  rw [density, if_neg (Nat.not_le.mpr hsize), hS.edges]
  rfl

theorem density_bounds (hG : G.Simple) (hS : S.Exact) (hn : n < 2 ^ 64) :
    Binary64.zero ≤ S.density ∧ S.density ≤ .ofNat 1 := by
  by_cases hsize : S.size ≤ 1
  · rw [density, if_pos hsize]
    decide +kernel
  · have hle := hS.edgesWithin_le_pairs hG
    have hpairs := Arranged.pairs_lt hS.sides hn
    have hpos := pairs_pos (Nat.not_le.mp hsize)
    rw [hS.density_eq (Nat.not_le.mp hsize)]
    exact ⟨Binary64.zero_le_ofNat_div_ofNat (hle.trans_lt hpairs) hpos hpairs,
      Binary64.ofNat_div_ofNat_le_one hle hpos hpairs⟩

/-- The density is zero only without edges inside, though it is rounded. -/
theorem density_le_zero_iff (hG : G.Simple) (hS : S.Exact) (hn : n < 2 ^ 64) :
    S.density ≤ Binary64.zero ↔ G.edgesWithin S.member.get = 0 := by
  have hle := hS.edgesWithin_le_pairs hG
  by_cases hsize : S.size ≤ 1
  · rw [pairs_of_size_le_one hsize] at hle
    rw [density, if_pos hsize]
    exact iff_of_true (by decide +kernel) (Nat.le_zero.mp hle)
  · have hpairs := Arranged.pairs_lt hS.sides hn
    rw [hS.density_eq (Nat.not_le.mp hsize)]
    exact Binary64.ofNat_div_ofNat_le_zero_iff (hle.trans_lt hpairs)
      (pairs_pos (Nat.not_le.mp hsize)) hpairs

end Exact

/-- The density before it is rounded. -/
def exactDensity (S : VertexSubset G) : ℚ :=
  if S.size ≤ 1 then 0 else S.edgesInside / S.pairs

theorem Exact.exactDensity_bounds (hG : G.Simple) (hS : S.Exact) :
    0 ≤ S.exactDensity ∧ S.exactDensity ≤ 1 := by
  have hle : (G.edgesWithin S.member.get : ℚ) ≤ S.pairs :=
    Nat.cast_le.mpr (hS.edgesWithin_le_pairs hG)
  rw [exactDensity, hS.edges, Int.cast_natCast]
  split
  · exact ⟨le_rfl, zero_le_one⟩
  · exact ⟨div_nonneg (Nat.cast_nonneg _) (Nat.cast_nonneg _),
      div_le_one_of_le₀ hle (Nat.cast_nonneg _)⟩

theorem Exact.exactDensity_eq_zero_iff (hG : G.Simple) (hS : S.Exact) :
    S.exactDensity = 0 ↔ G.edgesWithin S.member.get = 0 := by
  rw [exactDensity, hS.edges, Int.cast_natCast]
  split
  · next hsize =>
      have hle := hS.edgesWithin_le_pairs hG
      rw [pairs_of_size_le_one hsize] at hle
      exact iff_of_true rfl (Nat.le_zero.mp hle)
  · next hsize =>
      have hpos := pairs_pos (Nat.not_le.mp hsize)
      rw [div_eq_zero_iff, Nat.cast_eq_zero, Nat.cast_eq_zero]
      exact or_iff_left hpos.ne'

/-- **What the score of a subset tells.** -/
structure ScoreLaws (S : VertexSubset G) : Prop where
  degrees : ((S.members.map S.internalDegree.get).sum : Int) = 2 * S.edgesInside
  nonneg : 0 ≤ S.edgesInside
  le_pairs : S.edgesInside ≤ (S.size * (S.size - 1) / 2 : Nat)
  /-- No edge inside, the test of the members, members that gain nothing by leaving, and a descent
  that leaves the subset as it is or only counts no flip: they all say the same. -/
  independent : List.TFAE [
    S.edgesInside = 0,
    G.isIndependent (S.members.map Fin.val) = true,
    ∀ v ∈ S.members, Tracker.marginal S v.val = .ok 0,
    Descent.descend .minimize none S = .ok (0, S),
    ∃ T, Descent.descend .minimize none S = .ok (0, T)]
  /-- No division is made by zero, nor by a number that has been rounded to zero. -/
  divisor : 1 < S.size → 0 < S.pairs ∧ Binary64.zero < .ofNat S.pairs
  share : 0 ≤ S.exactDensity ∧ S.exactDensity ≤ 1 ∧
    (S.exactDensity = 0 ↔ G.isIndependent (S.members.map Fin.val) = true)
  /-- Up to `2 ^ 53` pairs nothing is rounded but the quotient. -/
  rounded : 1 < S.size → S.pairs ≤ 2 ^ 53 →
    S.density = .ofRatio S.edgesInside.toNat S.pairs
  /-- Rounding does no harm at either end, as far as the indices of vertices have 64 bits. -/
  density : n < 2 ^ 64 → Binary64.zero ≤ S.density ∧ S.density ≤ .ofNat 1 ∧
    (S.density ≤ Binary64.zero ↔ G.isIndependent (S.members.map Fin.val) = true)

end VertexSubset

open VertexSubset

/-- **The score of a subset counts edges among pairs**, on every graph that can be constructed and
after any calls and rebuildings. -/
theorem subset_score_laws {n : Nat} {G : Graph n} (hG : G.Constructed) {S : VertexSubset G}
    (hS : S.Evolved) : S.ScoreLaws := by
  have hexact := hS.exact hG.simple
  have hle := hexact.edgesWithin_le_pairs hG.simple
  have hindependent := isIndependent_members_iff hG.simple hexact
  refine ⟨?_, ?_, ?_, hexact.independent_tfae hG.simple, ?_, ?_, ?_, ?_⟩
  · rw [hexact.sum_internalDegree hG.simple, hexact.edges, Nat.cast_mul]
    rfl
  · rw [hexact.edges]
    exact Int.natCast_nonneg _
  · rw [hexact.edges]
    exact Int.ofNat_le.mpr hle
  · intro hsize
    exact ⟨pairs_pos hsize, Binary64.zero_lt_ofNat (pairs_pos hsize)⟩
  · obtain ⟨hzero, hone⟩ := hexact.exactDensity_bounds hG.simple
    exact ⟨hzero, hone, (hexact.exactDensity_eq_zero_iff hG.simple).trans hindependent.symm⟩
  · intro hsize hpairs
    rw [hexact.density_eq hsize, hexact.edges, Int.toNat_natCast]
    exact Binary64.ofNat_div_ofNat_of_le (hle.trans hpairs) (pairs_pos hsize) hpairs
  · intro hn
    obtain ⟨hzero, hone⟩ := hexact.density_bounds hG.simple hn
    exact ⟨hzero, hone, (hexact.density_le_zero_iff hG.simple hn).trans hindependent.symm⟩

/-- Three vertices of a path have two edges among their three pairs. Without the one in the middle
they are independent. -/
theorem subset_score_laws_pathStart :
    (Graph.path 4).Constructed ∧
    (let S := pathStart.call (.mutate 2);
      S.Evolved ∧ S.edgesInside ≤ (S.size * (S.size - 1) / 2 : Nat) ∧ S.pairs = 3 ∧
        S.density = .ofRatio 2 3 ∧ ¬S.exactDensity = 0) ∧
    (let S := (pathStart.call (.mutate 2)).call (.mutate 1);
      S.Evolved ∧ S.members = [0, 2] ∧ S.exactDensity = 0 ∧
        Descent.descend .minimize none S = .ok (0, S)) := by
  have hlist : ofList (Graph.path 4) [0, 1] = .ok pathStart := by decide +kernel
  have hthree : (pathStart.call (.mutate 2)).Evolved := .call (.fresh (.ofList hlist)) _
  have htwo : ((pathStart.call (.mutate 2)).call (.mutate 1)).Evolved := .call hthree _
  have hlaws := subset_score_laws (.path 4) hthree
  have hlaws' := subset_score_laws (.path 4) htwo
  refine ⟨.path 4, ⟨hthree, hlaws.le_pairs, by decide +kernel, ?_, ?_⟩,
    ⟨htwo, by decide +kernel, ?_, ?_⟩⟩
  · exact (hlaws.rounded (by decide +kernel) (by decide +kernel)).trans (by decide +kernel)
  · rw [hlaws.share.2.2]
    decide +kernel
  · exact hlaws'.share.2.2.mpr (by decide +kernel)
  · exact (hlaws'.independent.out 0 3).mp (by decide +kernel)

end Winners
