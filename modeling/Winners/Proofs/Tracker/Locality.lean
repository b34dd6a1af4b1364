import Winners.Proofs.Tracker.Undo
import Winners.Proofs.Tracker.Words

set_option autoImplicit false

/-! # What a move changes

The caches of a tracker are patched near the element that has moved. The marginal of a vertex or a
bit goes into the score and is turned around, since moving back would undo the change. The others
are corrected (`correction`): the marginal of a neighbour by one, up if both vertices were on the
same side and down otherwise, and the marginal of a bit by twice the weight of each check that it
shares, up if the check was satisfied and down otherwise. No other marginal changes, and for
colourings none but those of the vertex and its neighbours (`moves_act_locally`).

The rules for messages use sums, differences and products only, so they hold in words that wrap
around as they do in integers (`Message.FlipsTo.words`).
-/

namespace Winners

/-! ## Moves of one element -/

namespace Tracker

/-- **A move that turns the marginal of its element around**, and adds a correction to each of the
others. -/
structure TurnsAround {τ ν : Type} [Tracker τ Nat ν] {n : Nat} (t t' : τ) (e : Fin n)
    (correction : Fin n → Int) : Prop where
  own : ∃ d, marginal t e.val = .ok d ∧ marginal t' e.val = .ok (-d) ∧ score t' = score t + d
  others : ∀ u : Fin n, u ≠ e →
    ∃ d, marginal t u.val = .ok d ∧ marginal t' u.val = .ok (d + correction u)

section

variable {τ ν : Type} [Tracker τ Nat ν] {n : Nat} {t t' : τ} {e u : Fin n}
  {correction : Fin n → Int} {d : Int}

theorem turnsAround_of_marginals {values values' : Fin n → Int}
    (hvalues : ∀ v : Fin n, marginal t v.val = .ok (values v))
    (hvalues' : ∀ v : Fin n, marginal t' v.val = .ok (values' v)) (hown : values' e = -values e)
    (hscore : score t' = score t + values e)
    (hothers : ∀ v, v ≠ e → values' v = values v + correction v) :
    TurnsAround t t' e correction where
  own := ⟨values e, hvalues e, hown ▸ hvalues' e, hscore⟩
  others := fun v hne => ⟨values v, hvalues v, hothers v hne ▸ hvalues' v⟩

theorem TurnsAround.marginal_own (h : TurnsAround t t' e correction)
    (hd : marginal t e.val = .ok d) : marginal t' e.val = .ok (-d) := by
  obtain ⟨d', hd', hturned, -⟩ := h.own
  cases hd.symm.trans hd'
  exact hturned

theorem TurnsAround.marginal_other (h : TurnsAround t t' e correction) (hne : u ≠ e)
    (hd : marginal t u.val = .ok d) : marginal t' u.val = .ok (d + correction u) := by
  obtain ⟨d', hd', hcorrected⟩ := h.others u hne
  cases hd.symm.trans hd'
  exact hcorrected

end

/-- A move that is refused and leaves the tracker as it is. -/
def Refuses {τ μ ν : Type} [Tracker τ μ ν] (t : τ) (move : μ) : Prop :=
  (∃ e, mutate t move = .error e) ∧ attempt t move = t

theorem refuses_of_error {τ μ ν : Type} [Tracker τ μ ν] {t : τ} {move : μ} {e : Error}
    (h : mutate t move = .error e) : Refuses t move :=
  ⟨⟨e, h⟩, attempt_of_error h⟩

end Tracker

/-! ## Vertex subsets -/

namespace VertexSubset

variable {n : Nat} {G : Graph n} {S : VertexSubset G}

/-- What toggling `e` adds to the marginal of `u`. -/
def correction (S : VertexSubset G) (e u : Fin n) : Int :=
  if G.Adjacent e u then (if S.member.get e = S.member.get u then 1 else -1) else 0

theorem marginal_toggle_self (hG : G.Simple) (S : VertexSubset G) (e : Fin n) :
    (S.toggle e).marginal e = -S.marginal e := by
  have hdegree : (S.toggle e).internalDegree.get e = S.internalDegree.get e := by
    have hloopless : e ∉ G.neighbors.get e := hG.loopless e
    rw [toggle_internalDegree, get_adjustDegrees _ (hG.nodup e), if_neg hloopless]
  rw [marginal, marginal, hdegree, toggle_member, Patch.get_flipAt, if_pos rfl]
  cases S.member.get e with
  | true => exact (neg_neg _).symm
  | false => rfl

/-- **The marginal of a neighbour moves by one**, and that of any other vertex stays. -/
theorem Exact.marginal_toggle (hG : G.Simple) (hS : S.Exact) {e u : Fin n} (hne : u ≠ e) :
    (S.toggle e).marginal u = S.marginal u + S.correction e u := by
  have hmember : (S.toggle e).member.get u = S.member.get u := by
    rw [toggle_member, Patch.get_flipAt, if_neg hne]
  rw [marginal, marginal, hmember, toggle_internalDegree, get_adjustDegrees _ (hG.nodup e),
    correction]
  by_cases hadj : G.Adjacent e u
  · rw [if_pos hadj, if_pos (show u ∈ G.neighbors.get e from hadj)]
    cases he : S.member.get e with
    | true =>
        -- `u` has the member `e` among its neighbours, so its degree is not zero
        have hpos : 0 < S.internalDegree.get u := by
          rw [hS.degrees]
          exact List.countP_pos_iff.mpr ⟨e, hG.adjacent_comm.mp hadj, he⟩
        cases S.member.get u <;> (simp; omega)
    | false =>
        cases S.member.get u with
        | true => exact neg_add (S.internalDegree.get u : Int) 1
        | false => rfl
  · rw [if_neg hadj, if_neg (show u ∉ G.neighbors.get e from hadj), add_zero]

theorem Exact.turnsAround (hG : G.Simple) (hS : S.Exact) (e : Fin n) :
    Tracker.TurnsAround S (S.toggle e) e (S.correction e) :=
  Tracker.turnsAround_of_marginals (marginal_val S) (marginal_val (S.toggle e))
    (marginal_toggle_self hG S e) (toggle_edgesInside S e) fun _ => hS.marginal_toggle hG

end VertexSubset

/-! ## Messages -/

section

variable {n m : Nat} {R : Type} {D : Code n m R}

/-- The checks that touch both of two bits. -/
def Code.shared (D : Code n m R) (e u : Fin n) : List (Fin m) :=
  (D.constraints.get e).filter (D.constraints.get u).contains

variable [Add R] [Neg R] [Mul R] [OfNat R 0] [OfNat R 2]

/-- What flipping `e` adds to the marginal of `u`, check by check. -/
def Message.correction (x : Message D) (e u : Fin n) : R :=
  (D.shared e u).foldr
    (fun c total =>
      (if D.satisfies x.bits.get c then 2 * D.weights.get c else -2 * D.weights.get c) + total)
    0

/-- **A flip in the numbers of the code**, which may wrap around. -/
structure Message.FlipsTo (x x' : Message D) (e : Fin n) : Prop where
  own : x'.marginals.get e = -x.marginals.get e
  score : x'.score = x.score + x.marginals.get e
  others : ∀ u, u ≠ e → x'.marginals.get u = x.marginals.get u + x.correction e u

end

theorem Code.mem_shared {n m : Nat} {C : Code n m} (hC : C.Dual) {e u : Fin n} {c : Fin m} :
    c ∈ C.shared e u ↔ e ∈ C.elements.get c ∧ u ∈ C.elements.get c := by
  rw [shared, List.mem_filter, List.contains_iff_mem, hC.mem_constraints, hC.mem_constraints]

theorem Code.shared_eq_nil {n m : Nat} {C : Code n m} (hC : C.Dual) {e u : Fin n}
    (h : ∀ c, ¬(e ∈ C.elements.get c ∧ u ∈ C.elements.get c)) : C.shared e u = [] :=
  List.eq_nil_iff_forall_not_mem.mpr fun c hc => h c ((mem_shared hC).mp hc)

namespace Message

variable {n m : Nat} {C : Code n m}

theorem correction_eq_zero (hC : C.Dual) (x : Message C) {e u : Fin n}
    (h : ∀ c, ¬(e ∈ C.elements.get c ∧ u ∈ C.elements.get c)) : x.correction e u = 0 := by
  rw [correction, Code.shared_eq_nil hC h, List.foldr_nil]

/-- Each shared check counts minus twice what the score gains when it changes its state. -/
theorem correction_eq (hC : C.Dual) (bits : Vector Bool n) (e u : Fin n) :
    (ofBits C bits).correction e u =
      ∑ c, if e ∈ C.elements.get c ∧ u ∈ C.elements.get c then
        -2 * gain C (C.satisfies bits.get c) c else 0 := by
  have hgain : ∀ c, (if C.satisfies bits.get c then 2 * C.weights.get c
      else -2 * C.weights.get c) = -2 * gain C (C.satisfies bits.get c) c := by
    intro c
    cases C.satisfies bits.get c with
    | true => exact (neg_mul_neg 2 _).symm
    | false => rfl
  have hdistinct : (C.shared e u).Nodup := (hC.nodup_constraints e).filter _
  calc (ofBits C bits).correction e u
      = ((C.shared e u).map fun c => -2 * gain C (C.satisfies bits.get c) c).sum := by
        rw [List.sum, List.foldr_map]
        simp only [← hgain]
        rfl
    _ = ∑ c, if c ∈ (C.shared e u).toFinset then -2 * gain C (C.satisfies bits.get c) c else 0 := by
        rw [← List.sum_toFinset _ hdistinct, Fintype.sum_ite_mem]
    _ = _ := by
        simp only [List.mem_toFinset, Code.mem_shared hC]

/-- **The marginals of the bits that share a check move by twice its weight.** -/
theorem flip_marginals (hC : C.Dual) (bits : Vector Bool n) (e u : Fin n) :
    ((ofBits C bits).flip e).marginals.get u =
      (ofBits C bits).marginals.get u + (ofBits C bits).correction e u := by
  obtain ⟨-, -, -, hmarginals⟩ := foldl_toggleCheck hC (hC.nodup_constraints e)
    { ofBits C bits with bits := bits.set e (!bits.get e) e.isLt }
  refine (hmarginals u).trans (congrArg ((ofBits C bits).marginals.get u + ·) ?_)
  rw [correction_eq hC]
  apply Finset.sum_congr rfl
  intro c _
  rw [← ite_and]
  simp only [hC.mem_constraints, ofBits_satisfied]

/-- A bit is corrected through its own checks like any other, by minus twice its marginal. -/
theorem correction_self (hC : C.Dual) (bits : Vector Bool n) (e : Fin n) :
    (ofBits C bits).correction e e = -2 * (ofBits C bits).marginals.get e := by
  rw [correction_eq hC, ofBits_marginals hC, Finset.mul_sum]
  apply Finset.sum_congr rfl
  intro c _
  simp only [and_self, hC.mem_constraints, mul_ite, mul_zero]

theorem flipsTo (hC : C.Dual) (bits : Vector Bool n) (e : Fin n) :
    FlipsTo (ofBits C bits) ((ofBits C bits).flip e) e where
  own := by
    rw [flip_marginals hC, correction_self hC]
    ring
  score := score_flip hC bits e
  others u _ := flip_marginals hC bits e u

theorem FlipsTo.turnsAround {x x' : Message C} {e : Fin n} (h : FlipsTo x x' e) :
    Tracker.TurnsAround x x' e (x.correction e) :=
  Tracker.turnsAround_of_marginals (marginal_val x) (marginal_val x') h.own h.score h.others

theorem correction_words (x : Message C) (e u : Fin n) :
    x.words.correction e u = Int64.ofInt (x.correction e u) := by
  have hshift : ∀ c, (if C.words.satisfies x.words.bits.get c then 2 * C.words.weights.get c
      else -2 * C.words.weights.get c) = Int64.ofInt
        (if C.satisfies x.bits.get c then 2 * C.weights.get c else -2 * C.weights.get c) := by
    intro c
    rw [C.weights_words, apply_ite Int64.ofInt, Int64.ofInt_mul, Int64.ofInt_mul]
    rfl
  unfold correction
  simp only [hshift]
  exact (ofInt_foldr_add _ _).symm

/-- **Reduction to words respects flips.** -/
theorem FlipsTo.words {x x' : Message C} {e : Fin n} (h : FlipsTo x x' e) :
    FlipsTo x.words x'.words e where
  own := by
    rw [get_words_marginals, get_words_marginals, h.own, Int64.ofInt_neg]
  score := by
    rw [get_words_marginals, words_score, words_score, h.score, Int64.ofInt_add]
  others u hne := by
    rw [get_words_marginals, get_words_marginals, h.others u hne, correction_words,
      Int64.ofInt_add]

/-- **A flip in words is read off as one in integers** if words have room for the total weight. -/
theorem turnsAround_words (hC : C.Dual) (hfits : C.totalWeight < 2 ^ 63) (bits : Vector Bool n)
    (e : Fin n) :
    Tracker.TurnsAround (ofBits C bits).words ((ofBits C bits).flip e).words e
      ((ofBits C bits).correction e) := by
  have hflips := flipsTo hC bits e
  rw [flip_ofBits hC] at hflips ⊢
  apply Tracker.turnsAround_of_marginals (marginal_words hC hfits _) (marginal_words hC hfits _)
    hflips.own
  · rw [score_words hC hfits, score_words hC hfits, ← ofBits_score, ← ofBits_score]
    exact hflips.score
  · exact hflips.others

end Message

/-! ## Colourings -/

namespace Coloring

variable {n : Nat} {G : Graph n}

/-- A recolouring computes the marginals of the vertex and its neighbours again, and no other. -/
theorem recolor_marginals (hG : G.Simple) (C : Coloring G) {v u : Fin n} (hne : u ≠ v)
    (hfar : ¬G.Adjacent v u) (new : Fin C.k) :
    (C.recolor v new).marginals.get u = C.marginals.get u := by
  unfold recolor
  dsimp only
  split
  · rfl
  · have hdistinct : (v :: G.neighbors.get v).Nodup :=
      List.nodup_cons.mpr ⟨hG.loopless v, hG.nodup v⟩
    refine (Patch.get_patch (fun _ _ => _) hdistinct C.marginals u).trans (if_neg ?_)
    intro hmem
    exact (List.mem_cons.mp hmem).elim hne hfar

end Coloring

/-! ## Main statement -/

open VertexSubset

/-- **Moves act locally.** A move of one vertex or bit turns its own marginal around, adds that
marginal to the score, and corrects the other marginals: those of the neighbours of a vertex by one,
those of the bits that share checks by twice the weights. For messages in words of 64 bits this holds
in the arithmetic of words for all weights, and in integers if the total weight fits into a word. A
recolouring leaves the marginals of all but the vertex and its neighbours. A move of a vertex, bit or
colour that does not exist is refused and changes nothing. -/
theorem moves_act_locally :
    (∀ {n : Nat} {G : Graph n} {S : VertexSubset G}, G.Constructed → S.Evolved →
      (∀ e : Fin n, ∃ S', Tracker.mutate S e.val = .ok (e.val, S') ∧
        Tracker.TurnsAround S S' e (S.correction e)) ∧
      ∀ i, n ≤ i → Tracker.Refuses S i) ∧
    (∀ {n m : Nat} {C : Code n m} {x : Message C}, C.Constructed →
      Tracker.Reachable Message.Fresh x →
      (∀ e : Fin n, ∃ x', Tracker.mutate x e.val = .ok (e.val, x') ∧
        Tracker.TurnsAround x x' e (x.correction e)) ∧
      (∀ e u : Fin n, (∀ c, ¬(e ∈ C.elements.get c ∧ u ∈ C.elements.get c)) →
        x.correction e u = 0) ∧
      ∀ i, n ≤ i → Tracker.Refuses x i) ∧
    (∀ {n m : Nat} {C : Code n m} {x : Message C.words}, C.Constructed →
      Tracker.Reachable Message.Fresh x →
      (∀ e : Fin n, ∃ x', Tracker.mutate x e.val = .ok (e.val, x') ∧ x.FlipsTo x' e ∧
        (C.totalWeight < 2 ^ 63 →
          Tracker.TurnsAround x x' e ((Message.ofBits C x.bits).correction e))) ∧
      (∀ e u : Fin n, (∀ c, ¬(e ∈ C.elements.get c ∧ u ∈ C.elements.get c)) →
        x.correction e u = 0 ∧ (Message.ofBits C x.bits).correction e u = 0) ∧
      ∀ i, n ≤ i → Tracker.Refuses x i) ∧
    (∀ {n : Nat} {G : Graph n} {C : Coloring G}, G.Constructed →
      Tracker.Reachable Coloring.Fresh C →
      (∀ (v : Fin n) (c : Fin C.k), ∃ undo C', Tracker.mutate C ⟨v, c⟩ = .ok (undo, C') ∧
        ∀ u : Fin n, u ≠ v → ¬G.Adjacent v u →
          ∃ d, Tracker.marginal C u.val = .ok d ∧ Tracker.marginal C' u.val = .ok d) ∧
      ∀ move : Recolor, n ≤ move.node ∨ C.k ≤ move.color → Tracker.Refuses C move) := by
  refine ⟨?_, ?_, ?_, ?_⟩
  · intro n G S hG hS
    constructor
    · intro e
      exact ⟨_, mutate_of_lt S e.isLt, (hS.exact hG.simple).turnsAround hG.simple e⟩
    · intro i hi
      exact Tracker.refuses_of_error (mutate_of_le S hi)
  · intro n m C x hC hx
    refine ⟨?_, fun _ _ => Message.correction_eq_zero hC.dual x, ?_⟩
    · intro e
      rw [Message.eq_ofBits_of_reachable hC.dual hx]
      exact ⟨_, Message.mutate_of_lt _ e.isLt, (Message.flipsTo hC.dual x.bits e).turnsAround⟩
    · intro i hi
      exact Tracker.refuses_of_error (Message.mutate_of_le x hi)
  · intro n m C x hC hx
    have hwords := Message.eq_words_of_reachable hC.dual hx
    generalize x.bits = bits at hwords ⊢
    subst hwords
    refine ⟨?_, ?_, ?_⟩
    · intro e
      refine ⟨((Message.ofBits C bits).flip e).words, ?_,
        (Message.flipsTo hC.dual bits e).words,
        fun hfits => Message.turnsAround_words hC.dual hfits bits e⟩
      rw [Message.words_flip]
      exact Message.mutate_of_lt _ e.isLt
    · intro e u h
      have hzero := Message.correction_eq_zero hC.dual (Message.ofBits C bits) h
      exact ⟨(Message.correction_words _ e u).trans (congrArg Int64.ofInt hzero), hzero⟩
    · intro i hi
      exact Tracker.refuses_of_error (Message.mutate_of_le _ hi)
  · intro n G C hG _
    constructor
    · intro v c
      refine ⟨_, _, Coloring.mutate_of_lt C v.isLt c.isLt, ?_⟩
      intro u hne hfar
      refine ⟨C.marginals.get u, Coloring.marginal_val C u, ?_⟩
      rw [Coloring.marginal_val, Coloring.recolor_marginals hG.simple C hne hfar]
    · intro move hmove
      obtain ⟨_, herror⟩ := Coloring.mutate_of_le C hmove
      exact Tracker.refuses_of_error herror

/-- On a path, the inner member leaves beside a member and a vertex outside. A bit is flipped that
shares two checks with one bit and one of them with the other, in integers and in words. The first
vertex of a path is recoloured, which the last two do not notice. -/
theorem moves_act_locally_small :
    (∃ S', Tracker.mutate pathStart 1 = .ok (1, S') ∧ Tracker.marginal S' 1 = .ok 1 ∧
      Tracker.marginal S' 0 = .ok (-1 + 1) ∧ Tracker.marginal S' 2 = .ok (1 + -1) ∧
      Tracker.attempt pathStart 4 = pathStart) ∧
    (∃ x', Tracker.mutate (Message.zeros overlappingChecks) 0 = .ok (0, x') ∧
      Tracker.marginal x' 1 = .ok (-7 + 14) ∧ Tracker.marginal x' 2 = .ok (-5 + 10)) ∧
    (∃ x', Tracker.mutate (Message.zeros overlappingChecks.words) 0 = .ok (0, x') ∧
      x'.marginals.get 0 = -(-7) ∧ Tracker.marginal x' 1 = .ok (-7 + 14)) ∧
    (∃ C undo C', Coloring.uniform (Graph.path 4) 2 = .ok C ∧
      Tracker.mutate C ⟨0, 1⟩ = .ok (undo, C') ∧ Tracker.marginal C' 2 = .ok (-2)) := by
  obtain ⟨hsubset, hmessage, hwords, hcoloring⟩ := moves_act_locally
  refine ⟨?_, ?_, ?_, ?_⟩
  · have hlist : ofList (Graph.path 4) [0, 1] = .ok pathStart := by decide +kernel
    obtain ⟨hmove, hrefused⟩ := hsubset (.path 4) (.fresh (.ofList hlist))
    obtain ⟨S', hmutate, hturns⟩ := hmove 1
    have hown : Tracker.marginal pathStart 1 = .ok (-1) := by decide +kernel
    have hmember : Tracker.marginal pathStart 0 = .ok (-1) := by decide +kernel
    have houtside : Tracker.marginal pathStart 2 = .ok 1 := by decide +kernel
    refine ⟨S', hmutate, hturns.marginal_own hown, ?_, ?_, (hrefused 4 le_rfl).2⟩
    · exact (hturns.marginal_other (by decide : (0 : Fin 4) ≠ 1) hmember).trans
        (by decide +kernel)
    · exact (hturns.marginal_other (by decide : (2 : Fin 4) ≠ 1) houtside).trans
        (by decide +kernel)
  · obtain ⟨hmove, -, -⟩ := hmessage constructed_overlappingChecks (.of_start .zeros)
    obtain ⟨x', hmutate, hturns⟩ := hmove 0
    have hboth : Tracker.marginal (Message.zeros overlappingChecks) 1 = .ok (-7) := by
      decide +kernel
    have hone : Tracker.marginal (Message.zeros overlappingChecks) 2 = .ok (-5) := by
      decide +kernel
    refine ⟨x', hmutate, ?_, ?_⟩
    · exact (hturns.marginal_other (by decide : (1 : Fin 3) ≠ 0) hboth).trans (by decide +kernel)
    · exact (hturns.marginal_other (by decide : (2 : Fin 3) ≠ 0) hone).trans (by decide +kernel)
  · obtain ⟨hmove, -, -⟩ := hwords constructed_overlappingChecks (.of_start .zeros)
    obtain ⟨x', hmutate, hflips, hturns⟩ := hmove 0
    have hboth : Tracker.marginal (Message.zeros overlappingChecks.words) 1 = .ok (-7) := by
      decide +kernel
    refine ⟨x', hmutate, hflips.own.trans (by decide +kernel), ?_⟩
    exact ((hturns (by decide +kernel)).marginal_other (by decide : (1 : Fin 3) ≠ 0) hboth).trans
      (by decide +kernel)
  · obtain ⟨hmove, -⟩ := hcoloring (.path 4) (.of_start (.uniform (k := 2) rfl))
    obtain ⟨undo, C', hmutate, hfar⟩ := hmove 0 (1 : Fin 2)
    obtain ⟨d, hd, hd'⟩ := hfar 2 (by decide) (by decide +kernel)
    have hvalue : Tracker.marginal (Coloring.ofColors (Graph.path 4)
        (Vector.replicate 4 (⟨0, Nat.two_pos⟩ : Fin 2))) 2 = .ok (-2) := by decide +kernel
    cases hd.symm.trans hvalue
    exact ⟨_, undo, C', rfl, hmutate, hd'⟩

end Winners
