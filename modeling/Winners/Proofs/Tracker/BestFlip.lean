import Winners.Proofs.Tracker.Descent
import Winners.Proofs.Tracker.Message

set_option autoImplicit false

/-! # Best flips

There are two searches for the best bit of a message. `Message.bestFlip` compares the marginals
themselves, a descent compares the binary64 numbers nearest to them. Both find a bit whose gain
counts for most, and the lowest of several (`Leader`); only what a gain counts for differs. Rounding
does not turn gains around, but from `2 ^ 53` on it can make two of them equal, and then a lower bit
wins that gains less.

So a descent makes the best flips just when no such bit comes in its way
(`descent_makes_best_flips`), and the weights of a code decide whether one can: if all of them
together are at most `2 ^ 53`, none does.
-/

namespace Winners

open Descent

/-! ## The leading place -/

/-- **What a search for the leader of the first places finds**: the place with a positive gain that
counts for most, the first of several, or nothing if nothing is gained anywhere. -/
inductive Leader {n : Nat} (value : Int → Int) (gain : Fin n → Int) (count : Nat) :
    Option (Nat × Int) → Prop
  | none (hgain : ∀ i : Fin n, i.val < count → gain i ≤ 0) : Leader value gain count none
  | some {i : Fin n} (hi : i.val < count) (hgain : 0 < gain i)
      (hbefore : ∀ j < i, 0 < gain j → value (gain j) < value (gain i))
      (hmost : ∀ j : Fin n, j.val < count → 0 < gain j → value (gain j) ≤ value (gain i)) :
      Leader value gain count (some (i.val, gain i))

namespace Leader

variable {n : Nat} {value value' : Int → Int} {gain : Fin n → Int} {count : Nat}
  {best best' : Option (Nat × Int)}

theorem start (value : Int → Int) (gain : Fin n → Int) : Leader value gain 0 .none :=
  .none fun i hi => absurd hi i.val.not_lt_zero

theorem pos_of_some {p : Nat × Int} (h : Leader value gain count (.some p)) : 0 < p.2 := by
  cases h with
  | some _ hgain => exact hgain

/-- What it takes to lead. -/
theorem some_iff {i : Fin n} {most : Int} :
    Leader value gain count (.some (i.val, most)) ↔
      i.val < count ∧ most = gain i ∧ 0 < gain i ∧
        (∀ j < i, 0 < gain j → value (gain j) < value (gain i)) ∧
        ∀ j : Fin n, j.val < count → 0 < gain j → value (gain j) ≤ value (gain i) := by
  constructor
  · generalize hbest : Option.some (i.val, most) = best
    intro h
    cases h with
    | none => cases hbest
    | @some i' hi hgain hbefore hmost =>
        obtain ⟨hval, rfl⟩ := Prod.mk.inj (Option.some.inj hbest)
        obtain rfl := Fin.ext hval
        exact ⟨hi, rfl, hgain, hbefore, hmost⟩
  · rintro ⟨hi, rfl, hgain, hbefore, hmost⟩
    exact .some hi hgain hbefore hmost

/-- A new place takes the lead just when it gains something that counts for more. -/
theorem step {i : Fin n} (h : Leader value gain i best) {takes : Prop} [Decidable takes]
    (htakes : takes ↔ 0 < gain i ∧ ∀ p, best = .some p → value p.2 < value (gain i)) :
    Leader value gain (i + 1) (if takes then .some (i.val, gain i) else best) := by
  split
  · next hnew =>
      obtain ⟨hgain, hmore⟩ := htakes.mp hnew
      have hbefore : ∀ j < i, 0 < gain j → value (gain j) < value (gain i) := by
        intro j hj hgainj
        cases h with
        | none hnone => exact absurd (hnone j hj) (not_le.mpr hgainj)
        | some _ _ _ hmost => exact (hmost j hj hgainj).trans_lt (hmore _ rfl)
      refine .some i.val.lt_succ_self hgain hbefore ?_
      intro j hj hgainj
      rcases Nat.lt_succ_iff_lt_or_eq.mp hj with hlt | heq
      · exact (hbefore j hlt hgainj).le
      · rw [Fin.ext heq]
  · next hkeeps =>
      cases h with
      | none hnone =>
          refine .none fun j hj => ?_
          rcases Nat.lt_succ_iff_lt_or_eq.mp hj with hlt | heq
          · exact hnone j hlt
          · rw [Fin.ext heq]
            by_contra hgain
            refine hkeeps (htakes.mpr ⟨not_le.mp hgain, ?_⟩)
            intro p hbest
            cases hbest
      | some hlead hgain hbefore hmost =>
          refine .some (Nat.lt_succ_of_lt hlead) hgain hbefore fun j hj hgainj => ?_
          rcases Nat.lt_succ_iff_lt_or_eq.mp hj with hlt | heq
          · exact hmost j hlt hgainj
          · rw [Fin.ext heq] at hgainj ⊢
            by_contra hless
            refine hkeeps (htakes.mpr ⟨hgainj, ?_⟩)
            intro p hbest
            cases hbest
            exact not_le.mp hless

/-- There is one leader. -/
theorem unique (h : Leader value gain count best) (h' : Leader value gain count best') :
    best = best' := by
  cases h with
  | none hnone =>
      cases h' with
      | none => rfl
      | some hi hgain => exact absurd (hnone _ hi) (not_le.mpr hgain)
  | @some i hi hgain hbefore hmost =>
      cases h' with
      | none hnone => exact absurd (hnone _ hi) (not_le.mpr hgain)
      | @some j hj hgainj hbeforej hmostj =>
          rcases lt_trichotomy i j with hlt | rfl | hlt
          · exact absurd (hmost j hj hgainj) (not_le.mpr (hbeforej i hlt hgain))
          · rfl
          · exact absurd (hmostj i hi hgain) (not_le.mpr (hbefore j hlt hgainj))

end Leader

/-! ## The best bit of a message -/

/-- What an integer counts for when it is compared as a binary64 number. -/
def roundedValue (i : Int) : Int := (Binary64.ofInt i).rank

theorem ofInt_lt_ofInt_iff {i j : Int} :
    Binary64.ofInt i < Binary64.ofInt j ↔ roundedValue i < roundedValue j := by
  simp only [Binary64.lt_def, Binary64.isNaN_ofInt, true_and]
  rfl

theorem roundedValue_pos_iff {i : Int} : 0 < roundedValue i ↔ 0 < i := by
  have hzero : Binary64.ofInt 0 = Binary64.zero := by decide +kernel
  have hrank : roundedValue 0 = 0 := by decide +kernel
  have h := ofInt_lt_ofInt_iff (i := 0) (j := i)
  rw [hzero, hrank, Binary64.zero_lt_ofInt_iff] at h
  exact h.symm

/-- Rounding does not turn positive integers around. -/
theorem roundedValue_le {i j : Int} (hi : 0 < i) (h : i ≤ j) : roundedValue i ≤ roundedValue j := by
  obtain ⟨a, rfl⟩ := Int.eq_ofNat_of_zero_le hi.le
  obtain ⟨b, rfl⟩ := Int.eq_ofNat_of_zero_le (hi.le.trans h)
  exact (Binary64.ofNat_le_ofNat (Int.natCast_pos.mp hi) (Int.ofNat_le.mp h)).2.2

/-- Up to `2 ^ 53` it does not make them equal either. -/
theorem roundedValue_lt {i j : Int} (hi : 0 < i) (h : i < j) (hj : j ≤ 2 ^ 53) :
    roundedValue i < roundedValue j := by
  obtain ⟨a, rfl⟩ := Int.eq_ofNat_of_zero_le hi.le
  obtain ⟨b, rfl⟩ := Int.eq_ofNat_of_zero_le (hi.le.trans h.le)
  by_contra hle
  have hback : Binary64.ofNat b ≤ Binary64.ofNat a :=
    ⟨Binary64.isNaN_ofInt b, Binary64.isNaN_ofInt a, not_lt.mp hle⟩
  have := (Binary64.ofNat_le_ofNat_iff (by omega) (by omega)).mp hback
  omega

namespace Message

variable {n m : Nat} {C : Code n m}

/-- The best flip with its bit as a bare number. -/
def bareBestFlip (x : Message C) : Option (Nat × Int) := x.bestFlip.map fun p => (p.1.val, p.2)

theorem bareBestFlip_of_some {x : Message C} {b : Fin n} {most : Int}
    (h : x.bestFlip = some (b, most)) : x.bareBestFlip = some (b.val, most) := by
  rw [bareBestFlip, h]
  rfl

theorem bareBestFlip_of_none {x : Message C} (h : x.bestFlip = none) : x.bareBestFlip = none := by
  rw [bareBestFlip, h]
  rfl

/-- The best flip leads by its marginal. -/
theorem leader_bestFlip (x : Message C) : Leader id x.marginals.get n x.bareBestFlip := by
  unfold bareBestFlip bestFlip
  refine foldl_finRange (b := none) (Q := fun count (best : Option (Fin n × Int)) =>
    Leader id x.marginals.get count (best.map fun p => (p.1.val, p.2))) (Leader.start _ _) ?_
  intro b best h
  dsimp only
  rw [apply_ite (Option.map _)]
  apply h.step
  cases best with
  | none => simp
  | some p =>
      have hpos := h.pos_of_some
      constructor
      · intro hmore
        refine ⟨hpos.trans hmore, ?_⟩
        intro q hq
        cases hq
        exact hmore
      · rintro ⟨-, hmore⟩
        exact hmore _ rfl

/-- The search of a descent reads all marginals and goes on as a fold without errors. -/
theorem bestElement_eq (d : Direction) (x : Message C) :
    bestElement d x = .ok ((List.finRange n).foldl
      (fun best (b : Fin n) => better d best b.val (x.marginals.get b)) none) := by
  have hrange : List.range (Tracker.size x) = (List.finRange n).map Fin.val :=
    List.map_coe_finRange_eq_range.symm
  have hread : ∀ (best : Option (Nat × Int)) (b : Fin n),
      (do return better d best b.val (← Tracker.marginal x b.val) : Except Error _) =
        pure (better d best b.val (x.marginals.get b)) := by
    intro best b
    rw [marginal_val]
    rfl
  rw [bestElement, hrange, List.foldlM_map]
  simp only [hread]
  exact List.foldlM_pure

/-- A descent takes the bit that leads by its rounded marginal. -/
theorem exists_leader_bestElement (x : Message C) :
    ∃ best, bestElement .maximize x = .ok best ∧
      Leader roundedValue x.marginals.get n best := by
  refine ⟨_, bestElement_eq .maximize x, ?_⟩
  refine foldl_finRange (Leader.start _ _) ?_
  intro b best h
  have hpositive : ∀ i, Direction.maximize.improves (.ofInt i) .zero = true ↔ 0 < i := by
    intro i
    rw [Direction.improves, decide_eq_true_eq, Binary64.zero_lt_ofInt_iff]
  have himproves : ∀ i j, Direction.maximize.improves (.ofInt i) (.ofInt j) = true ↔
      roundedValue j < roundedValue i := by
    intro i j
    rw [Direction.improves, decide_eq_true_eq, ofInt_lt_ofInt_iff]
  unfold better
  cases best with
  | none =>
      apply h.step
      rw [hpositive]
      simp
  | some p =>
      dsimp only
      rw [← ite_and]
      apply h.step
      rw [hpositive, himproves]
      simp

/-! ## Where the two agree -/

/-- **A descent can discern the best bit**: no bit below it has a marginal that is rounded to the
same number. -/
def Discerned (x : Message C) : Prop :=
  ∀ b most, x.bestFlip = some (b, most) → ∀ b' < b,
    Binary64.ofInt (x.marginals.get b') < Binary64.ofInt most

/-- The best bit leads among the rounded marginals as well, if it is discerned. -/
theorem Discerned.leader {x : Message C} (h : x.Discerned) :
    Leader roundedValue x.marginals.get n x.bareBestFlip := by
  have hexact := x.leader_bestFlip
  cases hbest : x.bestFlip with
  | none =>
      rw [bareBestFlip_of_none hbest] at hexact ⊢
      cases hexact with
      | none hnone => exact .none hnone
  | some p =>
      obtain ⟨b, most⟩ := p
      have hbelow := h b most hbest
      rw [bareBestFlip_of_some hbest] at hexact ⊢
      obtain ⟨hb, rfl, hgain, -, hmost⟩ := Leader.some_iff.mp hexact
      refine Leader.some_iff.mpr ⟨hb, rfl, hgain, ?_, ?_⟩
      · intro b' hb' _
        exact ofInt_lt_ofInt_iff.mp (hbelow b' hb')
      · intro b' hb' hgain'
        exact roundedValue_le hgain' (hmost b' hb' hgain')

/-- **The two searches agree on a message** just when its best bit is discerned. -/
theorem bestElement_eq_iff (x : Message C) :
    bestElement .maximize x = .ok x.bareBestFlip ↔ x.Discerned := by
  obtain ⟨best, hbest, hleader⟩ := x.exists_leader_bestElement
  rw [hbest]
  constructor
  · intro heq b most hflip b' hb'
    cases heq
    rw [bareBestFlip_of_some hflip] at hleader
    obtain ⟨-, rfl, hgain, hbefore, -⟩ := Leader.some_iff.mp hleader
    rw [ofInt_lt_ofInt_iff]
    by_cases hgain' : 0 < x.marginals.get b'
    · exact hbefore b' hb' hgain'
    · -- what gains nothing is not rounded to a gain
      have hnothing := mt roundedValue_pos_iff.mp hgain'
      have hsomething := roundedValue_pos_iff.mpr hgain
      omega
  · intro hdiscerned
    rw [hleader.unique hdiscerned.leader]

/-! ## Best flips in a row -/

/-- The bits flipped by best flips in a row, up to `budget` of them. -/
def bestFlips : (budget : Nat) → Message C → List (Fin n)
  | 0, _ => []
  | budget + 1, x =>
      match x.bestFlip with
      | none => []
      | some (b, _) => b :: bestFlips budget (x.flip b)

/-- The message after them. -/
def polished (budget : Nat) (x : Message C) : Message C := (x.bestFlips budget).foldl flip x

section

variable {x : Message C}

theorem bestFlips_of_none (h : x.bestFlip = none) (budget : Nat) : x.bestFlips budget = [] := by
  cases budget with
  | zero => rfl
  | succ budget => rw [bestFlips, h]

theorem bestFlips_of_some {b : Fin n} {most : Int} (h : x.bestFlip = some (b, most))
    (budget : Nat) : x.bestFlips (budget + 1) = b :: (x.flip b).bestFlips budget := by
  rw [bestFlips, h]

theorem polished_of_none (h : x.bestFlip = none) (budget : Nat) : x.polished budget = x := by
  rw [polished, bestFlips_of_none h]
  rfl

theorem polished_of_some {b : Fin n} {most : Int} (h : x.bestFlip = some (b, most))
    (budget : Nat) : x.polished (budget + 1) = (x.flip b).polished budget := by
  rw [polished, bestFlips_of_some h]
  rfl

/-- The next flip of a descent that takes the best bit. -/
theorem flips_of_leader {b : Fin n} {most : Int}
    (h : bestElement .maximize x = .ok (some (b.val, most))) (count budget : Nat) :
    flips .maximize count (budget + 1) x = flips .maximize (count + 1) budget (x.flip b) :=
  flips_of_some h (mutate_of_lt x b.isLt) count budget

/-! ## Descents along the best flips -/

/-- Flips of different bits lead to different messages. -/
theorem flip_injective {b b' : Fin n} (h : x.flip b = x.flip b') : b = b' := by
  have hsame := congrArg (fun y : Message C => y.bits.get b) h
  rw [flip_bits, flip_bits, Patch.get_flipAt, Patch.get_flipAt, if_pos rfl] at hsame
  split at hsame
  · next heq => exact heq
  · cases hbit : x.bits.get b with
    | false => rw [hbit] at hsame; cases hsame
    | true => rw [hbit] at hsame; cases hsame

/-- If the best bits are discerned one after the other, a descent makes the best flips. -/
theorem flips_of_discerned {budget : Nat} : ∀ {x : Message C} (count : Nat),
    (∀ i < budget, (x.polished i).Discerned) →
      flips .maximize count budget x =
        .ok (count + (x.bestFlips budget).length, x.polished budget) := by
  induction budget with
  | zero =>
      intro x count _
      rfl
  | succ budget ih =>
      intro x count hdiscerned
      have hnow := x.bestElement_eq_iff.mpr (hdiscerned 0 budget.succ_pos)
      cases hbest : x.bestFlip with
      | none =>
          rw [bareBestFlip_of_none hbest] at hnow
          rw [flips_of_none hnow, bestFlips_of_none hbest, polished_of_none hbest]
          rfl
      | some p =>
          obtain ⟨b, most⟩ := p
          have hlater : ∀ i < budget, ((x.flip b).polished i).Discerned := by
            intro i hi
            rw [← polished_of_some hbest]
            exact hdiscerned (i + 1) (Nat.succ_lt_succ hi)
          rw [bareBestFlip_of_some hbest] at hnow
          rw [flips_of_leader hnow, ih (count + 1) hlater, bestFlips_of_some hbest,
            polished_of_some hbest, List.length_cons, Nat.add_assoc, Nat.add_comm 1]

/-- A descent whose first flip is the best one has discerned its bit. -/
theorem discerned_of_first {count : Nat} (h : flips .maximize count 1 x =
    .ok (count + (x.bestFlips 1).length, x.polished 1)) : x.Discerned := by
  cases hflip : x.bestFlip with
  | none =>
      intro b most hsome
      rw [hflip] at hsome
      cases hsome
  | some p =>
      obtain ⟨b, most⟩ := p
      rw [bestFlips_of_some hflip, polished_of_some hflip] at h
      obtain ⟨best, hbest, hleader⟩ := x.exists_leader_bestElement
      cases hleader with
      | none =>
          rw [flips_of_none hbest] at h
          have hcount := congrArg Prod.fst (Except.ok.inj h)
          dsimp only [bestFlips, List.length_singleton] at hcount
          omega
      | @some b' =>
          rw [flips_of_leader hbest] at h
          obtain rfl : b' = b := flip_injective (congrArg Prod.snd (Except.ok.inj h))
          have hexact := x.leader_bestFlip
          rw [bareBestFlip_of_some hflip] at hexact
          obtain ⟨-, rfl, -⟩ := Leader.some_iff.mp hexact
          rw [← bestElement_eq_iff, bareBestFlip_of_some hflip]
          exact hbest

/-- A descent that makes the best flips under every budget has discerned all their bits. -/
theorem discerned_of_flips {i : Nat} : ∀ {x : Message C} (count : Nat),
    (∀ budget, flips .maximize count budget x =
      .ok (count + (x.bestFlips budget).length, x.polished budget)) → (x.polished i).Discerned := by
  induction i with
  | zero =>
      intro x count h
      exact discerned_of_first (h 1)
  | succ i ih =>
      intro x count h
      have hnow := discerned_of_first (h 1)
      cases hbest : x.bestFlip with
      | none =>
          rw [polished_of_none hbest]
          exact hnow
      | some p =>
          obtain ⟨b, most⟩ := p
          rw [polished_of_some hbest]
          apply ih (count + 1)
          intro budget
          have helement := x.bestElement_eq_iff.mpr hnow
          have hmore := h (budget + 1)
          rw [bareBestFlip_of_some hbest] at helement
          rw [flips_of_leader helement, bestFlips_of_some hbest, polished_of_some hbest,
            List.length_cons] at hmore
          rw [hmore, Nat.add_assoc count 1, Nat.add_comm 1]

end

/-! ## What best flips gain -/

/-- The best flip gains something, and no more than the total weight leaves room for. -/
theorem bounds_of_bestFlip (hC : C.Dual) {bits : Vector Bool n} {b : Fin n} {most : Int}
    (h : (ofBits C bits).bestFlip = some (b, most)) :
    0 < most ∧ ((ofBits C bits).flip b).score = (ofBits C bits).score + most ∧
      (ofBits C bits).score + most ≤ C.totalWeight := by
  have hleader := (ofBits C bits).leader_bestFlip
  rw [bareBestFlip_of_some h] at hleader
  obtain ⟨-, rfl, hgain, -, -⟩ := Leader.some_iff.mp hleader
  have hscore := score_flip hC bits b
  refine ⟨hgain, hscore, ?_⟩
  rw [← hscore, flip_ofBits hC, ofBits_score]
  exact Code.satisfiedWeight_le hC _

/-- Best flips come to an end, after no more of them than there is room for in the score. -/
theorem bestFlip_polished (hC : C.Dual) {budget : Nat} : ∀ {bits : Vector Bool n},
    C.totalWeight ≤ (ofBits C bits).score + budget →
      ((ofBits C bits).polished budget).bestFlip = none := by
  induction budget with
  | zero =>
      intro bits hroom
      cases hbest : (ofBits C bits).bestFlip with
      | none => exact hbest
      | some p =>
          obtain ⟨b, most⟩ := p
          obtain ⟨hpos, -, hle⟩ := bounds_of_bestFlip hC hbest
          omega
  | succ budget ih =>
      intro bits hroom
      cases hbest : (ofBits C bits).bestFlip with
      | none =>
          rw [polished_of_none hbest]
          exact hbest
      | some p =>
          obtain ⟨b, most⟩ := p
          obtain ⟨hpos, hscore, -⟩ := bounds_of_bestFlip hC hbest
          rw [polished_of_some hbest]
          rw [flip_ofBits hC] at hscore ⊢
          exact ih (by omega)

/-- With a total weight of at most `2 ^ 53` no marginal is large enough to be rounded. -/
theorem discerned_of_totalWeight_le (hC : C.Dual) (hweight : C.totalWeight ≤ 2 ^ 53)
    (bits : Vector Bool n) : (ofBits C bits).Discerned := by
  intro b most hbest b' hb'
  obtain ⟨hpos, -, hle⟩ := bounds_of_bestFlip hC hbest
  have hscore : 0 ≤ (ofBits C bits).score := by
    rw [ofBits_score]
    exact Code.satisfiedWeight_nonneg hC _
  have hleader := (ofBits C bits).leader_bestFlip
  rw [bareBestFlip_of_some hbest] at hleader
  obtain ⟨-, rfl, hgain, hbefore, -⟩ := Leader.some_iff.mp hleader
  rw [ofInt_lt_ofInt_iff]
  by_cases hgain' : 0 < (ofBits C bits).marginals.get b'
  · exact roundedValue_lt hgain' (hbefore b' hb' hgain') (by omega)
  · have hnothing := mt roundedValue_pos_iff.mp hgain'
    have hsomething := roundedValue_pos_iff.mpr hgain
    omega

/-! ## Main statement -/

/-- **A descent that makes the best flips.** Under every budget it makes those that the budget
allows, and without one it goes on until there is none left. The results for all budgets tell every
single flip. -/
structure MakesBestFlips (x : Message C) : Prop where
  budget : ∀ budget, descend .maximize (some budget) x =
    .ok ((x.bestFlips budget).length, x.polished budget)
  unlimited : ∃ budget, (x.polished budget).bestFlip = none ∧
    descend .maximize none x = .ok ((x.bestFlips budget).length, x.polished budget)

theorem makesBestFlips_iff (hC : C.Dual) {x : Message C} (hx : ∃ bits, x = ofBits C bits) :
    x.MakesBestFlips ↔ ∀ i, (x.polished i).Discerned := by
  constructor
  · intro h i
    apply discerned_of_flips 0
    intro budget
    rw [Nat.zero_add]
    exact h.budget budget
  · intro hdiscerned
    have hflips : ∀ budget, flips .maximize 0 budget x =
        .ok ((x.bestFlips budget).length, x.polished budget) := by
      intro budget
      rw [flips_of_discerned 0 fun i _ => hdiscerned i, Nat.zero_add]
    refine ⟨hflips, C.totalWeight.toNat, ?_, hflips _⟩
    obtain ⟨bits, rfl⟩ := hx
    apply bestFlip_polished hC
    have hscore := Code.satisfiedWeight_nonneg hC bits.get
    rw [ofBits_score]
    omega

end Message

open Message

/-- **A descent makes the best flips** of a message just when each of their bits is discerned: no
lower bit has, at its turn, a marginal that is rounded to the same binary64 number. With a code
whose total weight is at most `2 ^ 53` this is always so. -/
theorem descent_makes_best_flips {n m : Nat} {C : Code n m} (hC : C.Constructed) {x : Message C}
    (hx : Tracker.Reachable Message.Fresh x) :
    (x.MakesBestFlips ↔ ∀ i, (x.polished i).Discerned) ∧
      (C.totalWeight ≤ 2 ^ 53 → x.MakesBestFlips) := by
  have hbits : ∃ bits, x = ofBits C bits := ⟨_, eq_ofBits_of_reachable hC.dual hx⟩
  have hiff := makesBestFlips_iff hC.dual hbits
  refine ⟨hiff, ?_⟩
  intro hweight
  apply hiff.mpr
  intro i
  obtain ⟨bits, hpolished⟩ := exists_ofBits_of_flips hC.dual hbits (x.bestFlips i)
  rw [polished, hpolished]
  exact discerned_of_totalWeight_le hC.dual hweight bits

/-- A codeword with its first bit wrong. The first two bits gain the same, and the lower one is
flipped back. -/
theorem descent_makes_best_flips_overlappingChecks :
    overlappingChecks.Constructed ∧ overlappingChecks.totalWeight ≤ 2 ^ 53 ∧
      (let x := ofBits overlappingChecks #v[true, false, false];
        x.bestFlips 3 = [0] ∧ Descent.descend .maximize (some 3) x = .ok (1, x.flip 0) ∧
          ∀ i, (x.polished i).Discerned) := by
  have hlist : Message.ofList overlappingChecks [true, false, false] =
      .ok (ofBits overlappingChecks #v[true, false, false]) := by decide +kernel
  have hweight : overlappingChecks.totalWeight ≤ 2 ^ 53 := by decide +kernel
  obtain ⟨hiff, hsmall⟩ :=
    descent_makes_best_flips constructed_overlappingChecks (.of_start (.ofList hlist))
  have hmakes := hsmall hweight
  have hflips : (ofBits overlappingChecks #v[true, false, false]).bestFlips 3 = [0] := by
    decide +kernel
  refine ⟨constructed_overlappingChecks, hweight, hflips, ?_, hiff.mp hmakes⟩
  have hdescend := hmakes.budget 3
  rwa [polished, hflips] at hdescend

/-- Two bits with a check each. The greater weight, `2 ^ 53 + 1`, is rounded to the other one. -/
def closeWeights : Code 2 2 where
  elements := #v[[⟨0, Nat.two_pos⟩], [⟨1, Nat.one_lt_two⟩]]
  constraints := #v[[⟨0, Nat.two_pos⟩], [⟨1, Nat.one_lt_two⟩]]
  weights := #v[9007199254740992, 9007199254740993]

/-- With neither check satisfied the best flip is that of the second bit, but a descent flips the
first one. -/
theorem not_makesBestFlips_closeWeights :
    closeWeights.Constructed ∧ closeWeights.totalWeight < 2 ^ 63 ∧
      (let x := ofBits closeWeights #v[true, true];
        x.Fresh ∧ x.bestFlips 1 = [1] ∧
          Descent.descend .maximize (some 1) x = .ok (1, x.flip 0) ∧ ¬x.MakesBestFlips) := by
  have hchecks : Code.ofChecks 2 #v[[0], [1]] = .ok { closeWeights with weights := #v[1, 1] } := by
    decide +kernel
  have hweights : Code.withWeights { closeWeights with weights := #v[1, 1] }
      [9007199254740992, 9007199254740993] = .ok closeWeights := by decide +kernel
  have hlist : Message.ofList closeWeights [true, true] =
      .ok (ofBits closeWeights #v[true, true]) := by decide +kernel
  refine ⟨.withWeights (.ofChecks hchecks) hweights, by decide +kernel, .ofList hlist,
    by decide +kernel, by decide +kernel, ?_⟩
  intro hmakes
  have hfirst := hmakes.budget 1
  have hother : Descent.descend .maximize (some 1) (ofBits closeWeights #v[true, true]) ≠
      .ok (((ofBits closeWeights #v[true, true]).bestFlips 1).length,
        (ofBits closeWeights #v[true, true]).polished 1) := by decide +kernel
  exact hother hfirst

end Winners
