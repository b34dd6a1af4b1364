import Winners.Proofs.Draws.Distinct
import Winners.Proofs.Graph.Queries
import Winners.Proofs.Number.Exact

set_option autoImplicit false

/-! # Planted independent sets

A random graph with a planted independent set is made of random indices and of coins, one for each
pair that is not inside the set (`PairsOutside`). The pairs inside are skipped without a coin, so
which coin belongs to a pair depends on the set; it is told by the place of the pair in the list of
those that are left. A pair is an edge just when it is in the list and its coin has come out true
(`adjacent_ofPairs_picked`), and with this nothing about the graph is left open. Of the way to choose
the indices nothing matters but that they are distinct and as many as are asked for.
-/

namespace Winners.Graph

variable {n : Nat} {p : Binary64} {choose : Sampler.IndexChoice}

/-! ## Coins for pairs -/

/-- **A pair is an edge just when its own coin has come out true.** -/
theorem adjacent_ofPairs_picked {pairs : List (Fin n × Fin n)} {results : List Bool}
    (hpairs : ∀ e ∈ pairs, e.1 < e.2) (distinct : pairs.Nodup) {u v : Fin n} (huv : u < v) :
    (ofPairs (Sampler.picked pairs results)).Adjacent u v ↔
      (u, v) ∈ pairs ∧ results[pairs.idxOf (u, v)]? = some true := by
  have hsubset := (Sampler.picked_sublist pairs results).subset
  have hback : (v, u) ∉ Sampler.picked pairs results := fun hmem =>
    lt_asymm huv (hpairs _ (hsubset hmem))
  rw [adjacent_ofPairs fun e he => ne_of_lt (hpairs e (hsubset he)), or_iff_left hback]
  constructor
  · intro hmem
    exact ⟨hsubset hmem, (Sampler.mem_picked_iff distinct (hsubset hmem)).mp hmem⟩
  · rintro ⟨hmem, hresult⟩
    exact (Sampler.mem_picked_iff distinct hmem).mpr hresult

/-! ## Pairs outside a set -/

/-- The pairs that are not inside a set, each of them once and in lexicographic order. -/
structure PairsOutside (planted : List (Fin n)) (pairs : List (Fin n × Fin n)) : Prop where
  ascending : pairs.Pairwise (Prod.Lex (· < ·) (· < ·))
  mem_iff : ∀ u v, (u, v) ∈ pairs ↔ u < v ∧ ¬(u ∈ planted ∧ v ∈ planted)

theorem PairsOutside.nodup {planted : List (Fin n)} {pairs : List (Fin n × Fin n)}
    (h : PairsOutside planted pairs) : pairs.Nodup := by
  apply h.ascending.imp
  rintro e f hlex rfl
  exact irrefl_of (Prod.Lex (· < ·) (· < ·)) e hlex

theorem pairsOutside_flatten (planted : List (Fin n)) {inside : Fin n → Bool}
    (h : ∀ v, inside v = decide (v ∈ planted)) :
    PairsOutside planted (pairRowsOutside inside).flatten := by
  have hascending : (pairRows n).flatten.Pairwise (Prod.Lex (· < ·) (· < ·)) :=
    rows_ascending fun u => (List.pairwise_lt_finRange n).sublist (List.drop_sublist _ _)
  rw [flatten_pairRowsOutside]
  refine ⟨hascending.filter _, ?_⟩
  intro u v
  rw [List.mem_filter, mem_flatten_pairRows, h, h, ← Bool.decide_and, ← decide_not,
    decide_eq_true_iff]

/-! ## The random graph -/

/-- **An independent set is planted, and all other pairs are left to coins.** The indices are drawn
first, and the coins from what is left of the stream. -/
structure Planted (choose : Sampler.IndexChoice) (p : Binary64) (size : Nat) (draws : Draws)
    (G : Graph n) (planted : List (Fin n)) (rest : Draws) : Prop where
  ascending : planted.Pairwise (· < ·)
  length : planted.length = size
  chosen : ∀ v, v ∈ planted ↔ v ∈ ((choose n size).run draws).1
  independent : G.isIndependent (planted.map Fin.val) = true
  /-- One coin is tossed for each pair, in the order of the pairs. It decides its pair. -/
  coins : ∃ pairs, PairsOutside planted pairs ∧
    let noise := (Sampler.coins p pairs.length).run ((choose n size).run draws).2
    rest = noise.2 ∧ ∀ u v : Fin n, u < v → (G.hasEdge u v = true ↔
      ¬(u ∈ planted ∧ v ∈ planted) ∧ noise.1[pairs.idxOf (u, v)]? = some true)
  symm : ∀ u v : Fin n, G.hasEdge u v = G.hasEdge v u
  loopless : ∀ v : Fin n, G.hasEdge v v = false

/-- The graph that the coins make has the planted set, if it is chosen first. -/
theorem planted_of_coins (hchoose : choose.Distinct) {size : Nat} (hsize : size ≤ n) {draws : Draws}
    {pairs : List (Fin n × Fin n)}
    (hpairs : PairsOutside (ascending ((choose n size).run draws).1) pairs) :
    let noise := (Sampler.coins p pairs.length).run ((choose n size).run draws).2
    Planted choose p size draws (ofPairs (Sampler.picked pairs noise.1))
      (ascending ((choose n size).run draws).1) noise.2 := by
  intro noise
  obtain ⟨hdistinct, hlength⟩ := hchoose hsize draws
  generalize hplanted : ascending ((choose n size).run draws).1 = planted at hpairs ⊢
  have hascending : planted.Pairwise (· < ·) := hplanted ▸ pairwise_ascending _
  have hlt : ∀ e ∈ pairs, e.1 < e.2 := fun e he => ((hpairs.mem_iff e.1 e.2).mp he).1
  have hadjacent : ∀ u v : Fin n, u < v →
      ((ofPairs (Sampler.picked pairs noise.1)).Adjacent u v ↔
        ¬(u ∈ planted ∧ v ∈ planted) ∧ noise.1[pairs.idxOf (u, v)]? = some true) := by
    intro u v huv
    rw [adjacent_ofPairs_picked hlt hpairs.nodup huv, hpairs.mem_iff, and_iff_right huv]
  have hsimple : (ofPairs (Sampler.picked pairs noise.1)).Simple := by
    apply simple_ofPairs
    intro e he
    exact ne_of_lt (hlt e ((Sampler.picked_sublist pairs noise.1).subset he))
  refine ⟨hascending, ?_, ?_, ?_, ⟨pairs, hpairs, rfl, ?_⟩, hsimple.canonical.hasEdge_symm, ?_⟩
  · rw [← hplanted, (perm_ascending hdistinct).length_eq, hlength]
  · intro v
    rw [← hplanted, mem_ascending]
  · apply isIndependent_map_val.mpr
    apply hascending.imp_of_mem
    intro u v hu hv huv hadj
    exact ((hadjacent u v huv).mp hadj).1 ⟨hu, hv⟩
  · intro u v huv
    rw [hasEdge_val, decide_eq_true_iff]
    exact hadjacent u v huv
  · intro v
    rw [hasEdge_val]
    exact decide_eq_false (hsimple.loopless v)

/-! ## What is asked for -/

theorem withPlantedIndependentSet_of_improbable {size : Nat}
    (hp : ¬(Binary64.zero ≤ p ∧ p ≤ .ofNat 1)) :
    withPlantedIndependentSet n p size choose = .error (.invalid (.edgeProbability p)) := by
  rw [withPlantedIndependentSet, checkProbability, if_neg hp]
  rfl

theorem withPlantedIndependentSet_of_lt {size : Nat} (hp : Binary64.zero ≤ p ∧ p ≤ .ofNat 1)
    (hsize : n < size) :
    withPlantedIndependentSet n p size choose = .error (.invalid (.plantedSize size n)) := by
  rw [withPlantedIndependentSet, checkProbability, if_pos hp]
  exact if_pos hsize

theorem exists_planted (hchoose : choose.Distinct) {size : Nat}
    (hp : Binary64.zero ≤ p ∧ p ≤ .ofNat 1) (hsize : size ≤ n) :
    ∃ sampler, withPlantedIndependentSet n p size choose = .ok sampler ∧ ∀ draws,
      let made := sampler.run draws
      Planted choose p size draws made.1.1 made.1.2 made.2 := by
  rw [withPlantedIndependentSet, checkProbability, if_pos hp]
  refine ⟨_, if_neg (Nat.not_lt.mpr hsize), ?_⟩
  intro draws
  rw [Sampler.run_bind, Sampler.run_bind, Sampler.run_pure, run_ofCoins]
  exact planted_of_coins hchoose hsize (pairsOutside_flatten _ (Patch.get_ofFn _))

/-- **How a planted independent set is asked for.** The probability is looked at first. -/
structure PlantedOrRefused (choose : Sampler.IndexChoice) (n : Nat) (p : Binary64) (size : Nat) :
    Prop where
  plants : Binary64.zero ≤ p → p ≤ .ofNat 1 → size ≤ n →
    ∃ sampler, withPlantedIndependentSet n p size choose = .ok sampler ∧ ∀ draws,
      let made := sampler.run draws
      Planted choose p size draws made.1.1 made.1.2 made.2
  improbable : p.isNaN = true ∨ p < .zero ∨ .ofNat 1 < p →
    withPlantedIndependentSet n p size choose = .error (.invalid (.edgeProbability p))
  oversized : Binary64.zero ≤ p → p ≤ .ofNat 1 → n < size →
    withPlantedIndependentSet n p size choose = .error (.invalid (.plantedSize size n))
  refused_iff : (∃ e, withPlantedIndependentSet n p size choose = .error e) ↔
    p.isNaN = true ∨ p < .zero ∨ .ofNat 1 < p ∨ n < size

/-- **The planted set is independent, and the coins decide the rest**, for every way to choose
distinct indices and all numbers of vertices, probabilities, sizes and streams. -/
theorem planted_set_is_independent (hchoose : choose.Distinct) (n : Nat) (p : Binary64)
    (size : Nat) : PlantedOrRefused choose n p size where
  plants hzero hone hsize := exists_planted hchoose ⟨hzero, hone⟩ hsize
  improbable hp := withPlantedIndependentSet_of_improbable (Binary64.improbable_iff.mpr hp)
  oversized hzero hone hsize := withPlantedIndependentSet_of_lt ⟨hzero, hone⟩ hsize
  refused_iff := by
    rw [← or_assoc, ← or_assoc, or_assoc (a := p.isNaN = true), ← Binary64.improbable_iff]
    constructor
    · rintro ⟨e, he⟩
      by_contra hnot
      rw [not_or, not_not, Nat.not_lt] at hnot
      obtain ⟨sampler, hsampler, -⟩ := exists_planted hchoose hnot.1 hnot.2
      rw [hsampler] at he
      cases he
    · intro h
      by_cases hp : Binary64.zero ≤ p ∧ p ≤ .ofNat 1
      · exact ⟨_, withPlantedIndependentSet_of_lt hp (h.resolve_left (not_not.mpr hp))⟩
      · exact ⟨_, withPlantedIndependentSet_of_improbable hp⟩

/-- Vertices 0 and 2 are planted, so the two coins are those of the pairs with vertex 1. A coin that
is too sure and a set that is too large are refused. -/
theorem planted_set_is_independent_three :
    (∃ sampler, withPlantedIndependentSet 3 (.ofRatio 1 2) 2 = .ok sampler ∧
      (∀ draws, let made := sampler.run draws
        Planted Sampler.indices (.ofRatio 1 2) 2 draws made.1.1 made.1.2 made.2) ∧
      sampler.run ⟨[0, 0, 0x8000000000000000, 0, 7], .ofSeed 0⟩ =
        ((ofPairs [(1, 2)], [0, 2]), ⟨[7], .ofSeed 0⟩)) ∧
    withPlantedIndependentSet 3 (.ofNat 2) 4 = .error (.invalid (.edgeProbability (.ofNat 2))) ∧
    withPlantedIndependentSet 3 (.ofRatio 1 2) 4 = .error (.invalid (.plantedSize 4 3)) := by
  have hmade : (withPlantedIndependentSet 3 (.ofRatio 1 2) 2).map (fun sampler =>
      let made := sampler.run ⟨[0, 0, 0x8000000000000000, 0, 7], .ofSeed 0⟩
      (made.1, made.2)) = .ok ((ofPairs [(1, 2)], [0, 2]), ⟨[7], .ofSeed 0⟩) := by
    decide +kernel
  obtain ⟨sampler, hsampler, hplanted⟩ :=
    (planted_set_is_independent Sampler.distinct_indices 3 (.ofRatio 1 2) 2).plants
      (by decide +kernel) (by decide +kernel) (by decide)
  rw [hsampler] at hmade
  exact ⟨⟨sampler, hsampler, hplanted, Except.ok.inj hmade⟩,
    (planted_set_is_independent Sampler.distinct_indices 3 (.ofNat 2) 4).improbable
      (.inr (.inr (by decide +kernel))),
    (planted_set_is_independent Sampler.distinct_indices 3 (.ofRatio 1 2) 4).oversized
      (by decide +kernel) (by decide +kernel) (by decide)⟩

end Winners.Graph
