import Winners.Proofs.Code.Dual
import Winners.Proofs.Draws.Distinct
import Mathlib.Data.Fin.Basic
import Mathlib.Data.Fintype.EquivFin

set_option autoImplicit false

/-! # Gallager codes are regular

A block cuts an order of all bits into runs of `k`, and when `k` divides their number, every
position belongs to one run, that of number `p / k` for the position `p` (`mem_runOf`). In an order
every bit has one position, so it is in one run of each block (`existsUnique_run`). An order that is
shuffled is an order again (`perm_blockOrders`), and that is all that matters of the shuffle.

No run has a bit twice, so none is lost when the runs become checks: a check has `k` bits, and
since a bit is in one check of each block, it has as many checks as there are blocks
(`length_constraints`).
-/

namespace Winners.Code

variable {n j k : Nat} {shuffle : Sampler.Rearrangement n}

/-! ## Orders of the bits -/

/-- Every block takes the bits in some order. -/
theorem perm_blockOrders (hshuffle : shuffle.Permutes) : ∀ {j : Nat} (draws : Draws) (i : Fin j),
    (((blockOrders shuffle j).run draws).1.get i).toList.Perm (List.finRange n)
  | 0, _, i => i.elim0
  | 1, _, i => by
      obtain rfl : i = 0 := Subsingleton.elim i 0
      show (Vector.finRange n).toList.Perm _
      rw [Patch.toList_finRange]
  | j + 2, draws, i => by
      let orders := ((blockOrders shuffle (j + 1)).run draws).1
      let later := ((blockOrders shuffle (j + 1)).run draws).2
      show ((orders.push ((shuffle orders.back).run later).1).get i).toList.Perm _
      rw [Patch.get_push]
      split
      · next h => exact perm_blockOrders hshuffle draws ⟨i, h⟩
      · -- the last order before it is shuffled
        have hback := perm_blockOrders hshuffle draws (Fin.last j)
        exact (hshuffle orders.back later).trans hback

/-- The first block takes them as they come. -/
theorem blockOrders_zero : ∀ {j : Nat} (draws : Draws) (h : 0 < j),
    ((blockOrders shuffle j).run draws).1.get ⟨0, h⟩ = Vector.finRange n
  | 1, _, _ => rfl
  | j + 2, draws, h => by
      let orders := ((blockOrders shuffle (j + 1)).run draws).1
      let later := ((blockOrders shuffle (j + 1)).run draws).2
      show (orders.push ((shuffle orders.back).run later).1).get ⟨0, h⟩ = _
      rw [Patch.get_push, dif_pos j.succ_pos]
      exact blockOrders_zero draws j.succ_pos

section

variable {order : Vector (Fin n) n}

theorem get_bijective (h : order.toList.Perm (List.finRange n)) : order.get.Bijective := by
  apply Finite.surjective_iff_bijective.mp
  intro b
  have hmem : b ∈ order.toList := h.mem_iff.mpr (List.mem_finRange b)
  obtain ⟨i, hi, hb⟩ := Vector.mem_iff_getElem.mp (Vector.mem_toList_iff.mp hmem)
  exact ⟨⟨i, hi⟩, hb⟩

/-! ## Runs -/

theorem run_pos (row : Fin (n / k)) : 0 < k := by
  rcases Nat.eq_zero_or_pos k with rfl | hk
  · rw [Nat.div_zero] at row
    exact row.elim0
  · exact hk

theorem length_runOf (row : Fin (n / k)) : (runOf k order row).length = k := by
  rw [runOf, List.length_map, List.length_finRange]

/-- The runs of all bits as they come. -/
theorem runOf_finRange (row : Fin (n / k)) :
    (runOf k (Vector.finRange n) row).map Fin.val = List.range' (row.val * k) k := by
  rw [runOf, List.map_map, List.range'_eq_map_range, ← List.map_coe_finRange_eq_range,
    List.map_map]
  apply List.map_congr_left
  intro t _
  exact congrArg Fin.val (Patch.get_finRange _)

/-- A run has the bits whose positions are its own. -/
theorem mem_runOf {row : Fin (n / k)} {b : Fin n} :
    b ∈ runOf k order row ↔ ∃ p : Fin n, order.get p = b ∧ p.val / k = row.val := by
  rw [runOf, List.mem_map]
  constructor
  · rintro ⟨t, -, rfl⟩
    refine ⟨_, rfl, ?_⟩
    show (row.val * k + t.val) / k = row.val
    rw [Nat.mul_comm, Nat.mul_add_div (run_pos row), Nat.div_eq_of_lt t.isLt, Nat.add_zero]
  · -- the place of a position in its run is the remainder
    rintro ⟨p, rfl, hp⟩
    refine ⟨⟨p.val % k, Nat.mod_lt _ (run_pos row)⟩, List.mem_finRange _, ?_⟩
    congr 1
    apply Fin.ext
    show row.val * k + p.val % k = p.val
    rw [← hp, Nat.mul_comm]
    exact Nat.div_add_mod p.val k

theorem nodup_runOf (h : order.toList.Perm (List.finRange n)) (row : Fin (n / k)) :
    (runOf k order row).Nodup := by
  apply List.Nodup.map _ (List.nodup_finRange k)
  intro t t' ht
  have hposition := Fin.val_eq_of_eq ((get_bijective h).injective ht)
  dsimp only at hposition
  apply Fin.ext
  omega

/-- **The runs of an order divide the bits among them.** -/
theorem existsUnique_run (h : order.toList.Perm (List.finRange n)) (hk : k ∣ n) (b : Fin n) :
    ∃! row : Fin (n / k), b ∈ runOf k order row := by
  obtain ⟨p, rfl, hunique⟩ := (get_bijective h).existsUnique b
  have hrow : p.val / k < n / k := by
    apply Nat.div_lt_of_lt_mul
    rw [Nat.mul_div_cancel' hk]
    exact p.isLt
  refine ⟨⟨p.val / k, hrow⟩, mem_runOf.mpr ⟨p, rfl, rfl⟩, ?_⟩
  intro row hmem
  obtain ⟨q, hq, hdiv⟩ := mem_runOf.mp hmem
  rw [hunique q hq] at hdiv
  exact Fin.ext hdiv.symm

end

/-! ## Blocks of checks -/

theorem get_stackBlocks (orders : Vector (Vector (Fin n) n) j) (c : Fin (j * (n / k))) :
    (stackBlocks k orders).get c = runOf k (orders.get c.divNat) c.modNat := by
  rw [stackBlocks, Patch.get_flatten, Patch.get_map, Patch.get_map, Patch.get_finRange]

/-- A bit that is in one check of each block has as many checks as there are blocks. -/
theorem length_constraints {m : Nat} {C : Code n (j * m)} (hC : C.Dual) {b : Fin n}
    (hblock : ∀ i : Fin j, ∃! c : Fin (j * m), c.divNat = i ∧ b ∈ C.elements.get c) :
    (C.constraints.get b).length = j := by
  have hnodup : ((C.constraints.get b).map Fin.divNat).Nodup := by
    apply List.Nodup.map_on _ (hC.nodup_constraints b)
    intro c hc c' hc' heq
    exact (hblock c'.divNat).unique ⟨heq, hC.mem_constraints.mp hc⟩
      ⟨rfl, hC.mem_constraints.mp hc'⟩
  -- its checks are in different blocks, and in all of them
  have hblocks : ((C.constraints.get b).map Fin.divNat).Perm (List.finRange j) := by
    apply (List.perm_ext_iff_of_nodup hnodup (List.nodup_finRange j)).mpr
    intro i
    obtain ⟨c, ⟨hi, hb⟩, -⟩ := hblock i
    exact iff_of_true (List.mem_map.mpr ⟨c, hC.mem_constraints.mpr hb, hi⟩) (List.mem_finRange i)
  rw [← List.length_map, hblocks.length_eq, List.length_finRange]

/-! ## Main statement -/

/-- **A regular code**: `j` blocks of checks, one after the other, and in each of them the bits are
divided among checks of `k` bits. The checks of the first block take the bits as they come. -/
structure Regular (j k : Nat) (C : Code n (j * (n / k))) : Prop where
  elementsOf : ∀ c : Fin (j * (n / k)), ∃ bits, C.elementsOf c = .ok bits ∧ bits.Nodup ∧
    bits.length = k
  constraintsOf : ∀ b : Fin n, ∃ checks, C.constraintsOf b = .ok checks ∧ checks.Nodup ∧
    checks.length = j
  /-- The number of a check divided by the length of the blocks is the number of its block. -/
  block : ∀ (i : Fin j) (b : Fin n), ∃! c : Fin (j * (n / k)),
    c.val / (n / k) = i ∧ b ∈ C.elements.get c
  first : ∀ c : Fin (j * (n / k)), c.val < n / k →
    (C.elements.get c).map Fin.val = List.range' (c.val * k) k

section

variable {orders : Vector (Vector (Fin n) n) j}

theorem perm_elements (h : ∀ i, (orders.get i).toList.Perm (List.finRange n))
    (c : Fin (j * (n / k))) : ((ofElements (stackBlocks k orders)).elements.get c).Perm
      (runOf k (orders.get c.divNat) c.modNat) := by
  rw [elements_ofElements, get_stackBlocks]
  exact perm_ascending (nodup_runOf (h _) _)

theorem existsUnique_check (h : ∀ i, (orders.get i).toList.Perm (List.finRange n)) (hk : k ∣ n)
    (i : Fin j) (b : Fin n) : ∃! c : Fin (j * (n / k)),
      c.divNat = i ∧ b ∈ (ofElements (stackBlocks k orders)).elements.get c := by
  obtain ⟨row, hrow, hunique⟩ := existsUnique_run (h i) hk b
  simp only [(perm_elements h _).mem_iff]
  refine ⟨Fin.mkDivMod i row, ⟨Fin.divNat_mkDivMod i row, ?_⟩, ?_⟩
  · rw [Fin.divNat_mkDivMod, Fin.modNat_mkDivMod]
    exact hrow
  · rintro c ⟨rfl, hc⟩
    rw [← hunique c.modNat hc, Fin.divNat_mkDivMod_modNat]

/-- The runs of the first block are ascending, so the checks list them as they are. -/
theorem elements_of_first {c : Fin (j * (n / k))} (h : orders.get c.divNat = Vector.finRange n) :
    ((ofElements (stackBlocks k orders)).elements.get c).map Fin.val =
      List.range' (c.modNat.val * k) k := by
  have hascending : (runOf k (Vector.finRange n) c.modNat).Pairwise (· < ·) := by
    have hrange : ((runOf k (Vector.finRange n) c.modNat).map Fin.val).Pairwise (· < ·) := by
      rw [runOf_finRange]
      exact List.pairwise_lt_range'
    exact (List.pairwise_map (f := Fin.val)).mp hrange
  rw [elements_ofElements, get_stackBlocks, h, ascending_eq_self hascending, runOf_finRange]

end

/-- Blocks of runs make a regular code, if the first order is that of the bits. -/
theorem regular_stackBlocks {orders : Vector (Vector (Fin n) n) j} (hj : 0 < j) (hk : k ∣ n)
    (hperm : ∀ i, (orders.get i).toList.Perm (List.finRange n))
    (hfirst : orders.get ⟨0, hj⟩ = Vector.finRange n) :
    Regular j k (ofElements (stackBlocks k orders)) := by
  have hdual : (ofElements (stackBlocks k orders)).Dual := dual_ofElements _
  refine ⟨?elementsOf, ?constraintsOf, ?block, ?first⟩
  case elementsOf =>
    intro c
    refine ⟨_, bind_checkIndex_of_lt c.isLt _, hdual.nodup_elements c, ?_⟩
    rw [(perm_elements hperm c).length_eq, length_runOf]
  case constraintsOf =>
    intro b
    exact ⟨_, bind_checkIndex_of_lt b.isLt _, hdual.nodup_constraints b,
      length_constraints hdual fun i => existsUnique_check hperm hk i b⟩
  case block =>
    intro i b
    have hcheck := existsUnique_check hperm hk i b
    simp only [Fin.ext_iff, Fin.coe_divNat] at hcheck
    exact hcheck
  case first =>
    intro c hc
    have hblock : c.divNat = ⟨0, hj⟩ := Fin.ext (Nat.div_eq_of_lt hc)
    have hrow : c.modNat.val = c.val := Nat.mod_eq_of_lt hc
    rw [← hrow]
    apply elements_of_first
    rw [hblock, hfirst]

theorem exists_gallager (hn : 0 < n) (hj : 0 < j) (hk : 0 < k) (hdiv : k ∣ n) :
    ∃ sampler, gallager n j k shuffle = .ok sampler := by
  unfold gallager
  rw [if_neg (by omega), if_neg (by rw [Nat.mod_eq_zero_of_dvd hdiv]; exact fun h => h rfl)]
  exact ⟨_, rfl⟩

/-- **Gallager codes are regular.** Of `n` bits in `j` blocks of checks of `k` bits, for any `k`
that divides `n`, a code of `j * n / k` checks is made, whatever is drawn and however the bits are
shuffled, and it is regular. -/
theorem gallager_code_is_regular (hshuffle : shuffle.Permutes) (hn : 0 < n) (hj : 0 < j)
    (hk : 0 < k) (hdiv : k ∣ n) :
    j * (n / k) = j * n / k ∧ ∃ sampler, gallager n j k shuffle = .ok sampler ∧
      ∀ draws, Regular j k (sampler.run draws).1 := by
  refine ⟨(Nat.mul_div_assoc j hdiv).symm, ?_⟩
  obtain ⟨sampler, hsampler⟩ := exists_gallager hn hj hk hdiv
  refine ⟨sampler, hsampler, fun draws => ?_⟩
  rw [run_gallager hsampler]
  exact regular_stackBlocks hj hdiv (perm_blockOrders hshuffle draws) (blockOrders_zero draws hj)

theorem gallager_code_is_regular_six : ∃ sampler, gallager 6 2 3 = .ok sampler ∧
    (∀ draws, Regular 2 3 (sampler.run draws).1) ∧
    (sampler.run (.ofSeed 2)).1.elements.get ⟨2, by decide⟩ = [0, 3, 4] := by
  obtain ⟨-, sampler, hsampler, hregular⟩ :=
    gallager_code_is_regular (n := 6) (j := 2) (k := 3) Sampler.permutes_shuffle
      (by decide) (by decide) (by decide) (by decide)
  refine ⟨sampler, hsampler, hregular, ?_⟩
  rw [run_gallager hsampler, elements_ofElements, get_stackBlocks]
  decide +kernel

end Winners.Code
