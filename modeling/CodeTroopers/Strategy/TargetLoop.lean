import CodeTroopers.Strategy.FloydExact
import CodeTroopers.Strategy.MyStrategy
import Mathlib.Data.Finset.Prod
import Mathlib.Data.Set.Card

set_option autoImplicit false

/-! # The target loop

The loop at the top of `run()` goes through a sequence of candidates, the target carried over and
then the points drawn, and stops at the first that is more than five steps away. Nothing bounds the
number of draws: whether the loop can stop depends on the board alone. The distances it asks for are
those of `floyd()`, whose sentinel stands for an unreachable cell and whose diagonal, never
initialised, still fails the test. -/

namespace CodeTroopers

/-- A target the loop accepts: a free cell more than five steps away. -/
def GoodTarget (b : BoardSize) (cells : Cells) (p c : Point) : Prop :=
  FreeCell b cells c ∧ (freeGraph b cells).Reachable p c ∧ 5 < (freeGraph b cells).dist p c

/-- The candidates of the loop. -/
def candidate (rand : ℕ → ℕ) (g : Globals) : ℕ → Point
  | 0 => g.target
  | k + 1 => ⟨(rand (g.draws + 2 * k) : Int).tmod g.size.sizeX,
      (rand (g.draws + 2 * k + 1) : Int).tmod g.size.sizeY⟩

/-- The globals after `k` rounds. -/
def afterRounds (rand : ℕ → ℕ) (g : Globals) (k : ℕ) : Globals :=
  { g with target := candidate rand g k, draws := g.draws + 2 * k }

theorem candidate_afterRounds (rand : ℕ → ℕ) (g : Globals) (k : ℕ) :
    candidate rand (afterRounds rand g 1) k = candidate rand g (k + 1) := by
  cases k with
  | zero => rfl
  | succ k =>
      have h₁ : g.draws + 2 * 1 + 2 * k = g.draws + 2 * (k + 1) := by omega
      simp only [candidate, afterRounds, h₁]

theorem afterRounds_afterRounds (rand : ℕ → ℕ) (g : Globals) (k : ℕ) :
    afterRounds rand (afterRounds rand g 1) k = afterRounds rand g (k + 1) := by
  have hdraws : (afterRounds rand g 1).draws + 2 * k = g.draws + 2 * (k + 1) := by
    show g.draws + 2 * 1 + 2 * k = g.draws + 2 * (k + 1)
    omega
  rw [afterRounds, candidate_afterRounds, hdraws]
  rfl

theorem candidate_isCorrect (rand : ℕ → ℕ) {g : Globals} (hx : 0 < g.size.sizeX)
    (hy : 0 < g.size.sizeY) (htarget : g.target.isCorrect g.size = true) (k : ℕ) :
    (candidate rand g k).isCorrect g.size = true := by
  cases k with
  | zero => exact htarget
  | succ k =>
      rw [Point.isCorrect_iff]
      exact ⟨⟨Int.tmod_nonneg _ (by omega), Int.tmod_lt_of_pos _ hx⟩,
        Int.tmod_nonneg _ (by omega), Int.tmod_lt_of_pos _ hy⟩

namespace SlavaStrategy

variable (rand : ℕ → ℕ) (o : SlavaStrategy)

/-- The target the loop is left with has passed the test. -/
theorem badTarget_of_targetLoop {rand : ℕ → ℕ} {o : SlavaStrategy} {fuel : ℕ} {g g' : Globals}
    (h : targetLoop rand o fuel g = some (true, g')) : o.badTarget g' = some false := by
  induction fuel generalizing g with
  | zero =>
      simp only [targetLoop, Option.map_eq_some_iff, Prod.mk.injEq, Bool.not_eq_true'] at h
      obtain ⟨_, htest, rfl, rfl⟩ := h
      exact htest
  | succ fuel ih =>
      simp only [targetLoop, Option.bind_eq_bind, Option.bind_eq_some_iff] at h
      obtain ⟨bad, htest, h⟩ := h
      cases bad with
      | false =>
          cases h
          exact htest
      | true =>
          simp only [if_true, Option.bind_eq_some_iff] at h
          obtain ⟨_, _, _, _, h⟩ := h
          exact ih h

/-- So its distance from the trooper is known: more than five steps, and not the sentinel. -/
theorem exists_minDistance_of_targetLoop {rand : ℕ → ℕ} {o : SlavaStrategy} {fuel : ℕ}
    {g g' : Globals} (h : targetLoop rand o fuel (o.resetTarget g) = some (true, g')) :
    g'.size = g.size ∧ g'.floydDist = g.floydDist ∧
      ∃ d, minDistance g.floydDist o.self.pos g'.target = some d ∧ 5 < d ∧ d ≠ inf := by
  obtain ⟨hsize, _, htable⟩ := targetLoop_frame rand o h
  have hreset : (o.resetTarget g).size = g.size ∧ (o.resetTarget g).floydDist = g.floydDist := by
    unfold resetTarget
    split_ifs <;> exact ⟨rfl, rfl⟩
  rw [hreset.1] at hsize
  rw [hreset.2] at htable
  refine ⟨hsize, htable, ?_⟩
  have htest := badTarget_of_targetLoop h
  rw [badTarget, htable, Option.map_eq_some_iff] at htest
  obtain ⟨d, hd, hgood⟩ := htest
  rw [decide_eq_false_iff_not] at hgood
  exact ⟨d, hd, by omega, by omega⟩

/-! ## The loop is a search of its candidates -/

/-- The condition of the loop rejects exactly the candidates without the property. -/
def Rejects (good : Point → Prop) (g : Globals) : Prop :=
  ∀ k, (good (candidate rand g k) → o.badTarget (afterRounds rand g k) = some false) ∧
    (¬ good (candidate rand g k) → o.badTarget (afterRounds rand g k) = some true)

section Search

variable {rand o} {good : Point → Prop} {g : Globals} (hrejects : o.Rejects rand good g)

include hrejects

theorem Rejects.afterRounds_one : o.Rejects rand good (afterRounds rand g 1) := by
  intro k
  rw [candidate_afterRounds, afterRounds_afterRounds]
  exact hrejects (k + 1)

variable (hx : g.size.sizeX ≠ 0) (hy : g.size.sizeY ≠ 0)

include hx hy

theorem targetLoop_succ (hbad : ¬ good (candidate rand g 0)) (fuel : ℕ) :
    targetLoop rand o (fuel + 1) g = targetLoop rand o fuel (afterRounds rand g 1) := by
  have htest : o.badTarget g = some true := (hrejects 0).2 hbad
  simp [targetLoop, htest, random, hx, hy, afterRounds, candidate]

theorem targetLoop_of_first {k fuel : ℕ} (hk : k ≤ fuel) (hgood : good (candidate rand g k))
    (hbad : ∀ j < k, ¬ good (candidate rand g j)) :
    targetLoop rand o fuel g = some (true, afterRounds rand g k) := by
  induction k generalizing fuel g with
  | zero =>
      have htest : o.badTarget g = some false := (hrejects 0).1 hgood
      cases fuel <;> simp [targetLoop, htest, afterRounds, candidate]
  | succ k ih =>
      obtain ⟨fuel, rfl⟩ : ∃ m, fuel = m + 1 := ⟨fuel - 1, by omega⟩
      rw [targetLoop_succ hrejects hx hy (hbad 0 (by omega)), ← afterRounds_afterRounds rand g k]
      refine ih hrejects.afterRounds_one hx hy (by omega) ?_ fun j hj => ?_
      · rw [candidate_afterRounds]
        exact hgood
      · rw [candidate_afterRounds]
        exact hbad (j + 1) (by omega)

theorem targetLoop_of_none {fuel : ℕ} (hbad : ∀ k ≤ fuel, ¬ good (candidate rand g k)) :
    targetLoop rand o fuel g = some (false, afterRounds rand g fuel) := by
  induction fuel generalizing g with
  | zero =>
      have htest : o.badTarget g = some true := (hrejects 0).2 (hbad 0 (le_refl 0))
      simp [targetLoop, htest, afterRounds, candidate]
  | succ fuel ih =>
      rw [targetLoop_succ hrejects hx hy (hbad 0 (by omega)),
        ← afterRounds_afterRounds rand g fuel]
      refine ih hrejects.afterRounds_one hx hy fun j hj => ?_
      rw [candidate_afterRounds]
      exact hbad (j + 1) (by omega)

/-- **The loop stops exactly at the first candidate with the property.** -/
theorem targetLoop_eq_some_true_iff (fuel : ℕ) (g' : Globals) :
    targetLoop rand o fuel g = some (true, g')
      ↔ ∃ k ≤ fuel, good (candidate rand g k) ∧ (∀ j < k, ¬ good (candidate rand g j)) ∧
          g' = afterRounds rand g k := by
  classical
  constructor
  · intro h
    by_cases hsome : ∃ k, good (candidate rand g k) ∧ k ≤ fuel
    · -- the first of them
      obtain ⟨hgood, hk⟩ := Nat.find_spec hsome
      have hfirst : ∀ j < Nat.find hsome, ¬ good (candidate rand g j) := fun j hj hgood' =>
        Nat.find_min hsome hj ⟨hgood', by omega⟩
      rw [targetLoop_of_first hrejects hx hy hk hgood hfirst] at h
      cases h
      exact ⟨_, hk, hgood, hfirst, rfl⟩
    · have hbad : ∀ k ≤ fuel, ¬ good (candidate rand g k) := fun k hk hgood => hsome ⟨k, hgood, hk⟩
      rw [targetLoop_of_none hrejects hx hy hbad] at h
      simp at h
  · intro h
    obtain ⟨k, hk, hgood, hbad, rfl⟩ := h
    exact targetLoop_of_first hrejects hx hy hk hgood hbad

end Search

/-! ## What the table says about a candidate -/

/-- The process holds the distances of the board, and the trooper and the target are on it. -/
structure OnBoard (b : BoardSize) (cells : Cells) (o : SlavaStrategy) (g : Globals) : Prop where
  fit : CellsFit b cells
  free : (freePoints b cells).length ≤ 5 * 10 ^ 8
  table : floyd b cells [] = some g.floydDist
  size : g.size = b
  self : o.self.pos.isCorrect b = true
  target : g.target.isCorrect b = true

end SlavaStrategy

section Distances

variable {b : BoardSize} {cells : Cells}

theorem ExactTable.minDistance_target {t : DistanceTable} (ht : ExactTable b cells t) {p c : Point}
    (hp : p.isCorrect b = true) (hc : c.isCorrect b = true) :
    ∃ d, minDistance t p c = some d ∧ (GoodTarget b cells p c ↔ ¬ (d ≤ 5 ∨ d = inf)) := by
  by_cases hpc : p = c
  · -- the diagonal is 2 or the sentinel
    subst hpc
    have hnot : ¬ GoodTarget b cells p p := by simp [GoodTarget]
    by_cases hadj : ∃ q, (freeGraph b cells).Adj p q
    · obtain ⟨q, hq⟩ := hadj
      exact ⟨2, ht.diagonal p q hq, by simp [hnot]⟩
    · exact ⟨inf, ht.isolated p hp fun q hq => hadj ⟨q, hq⟩, by simp [hnot]⟩
  · by_cases hr : (freeGraph b cells).Reachable p c
    · refine ⟨_, ht.connected p c hpc hr, ?_⟩
      have hlt := ht.dist_lt p c hpc hr
      have hfree := (freeCell_of_reachable hpc hr).2
      simp only [GoodTarget, hfree, hr, true_and]
      omega
    · exact ⟨inf, ht.unconnected p c hp hc hr, by simp [GoodTarget, hr]⟩

theorem manhattan_le_length {p q : Point} (w : (freeGraph b cells).Walk p q) :
    |p.x - q.x| + |p.y - q.y| ≤ w.length := by
  induction w with
  | nil => simp
  | @cons p r q hadj w ih =>
      have hstep : |p.x - r.x| + |p.y - r.y| = 1 := hadj.2.2
      have hx := abs_sub_le p.x r.x q.x
      have hy := abs_sub_le p.y r.y q.y
      rw [SimpleGraph.Walk.length_cons]
      push_cast
      omega

/-- The offsets of at most five steps, counted from the corner `(-5, -5)`: `2 * 5 * 6 + 1` of
them. -/
def ballOffsets : Finset (ℕ × ℕ) :=
  (Finset.range 11 ×ˢ Finset.range 11).filter fun v =>
    ((v.1 : ℤ) - 5).natAbs + ((v.2 : ℤ) - 5).natAbs ≤ 5

theorem card_ballOffsets : ballOffsets.card = 61 := by decide

/-- The cells within five steps are at most 61. -/
theorem ncard_supp_le {p : Point}
    (hnear : ∀ q, (freeGraph b cells).Reachable p q → (freeGraph b cells).dist p q ≤ 5) :
    ((freeGraph b cells).connectedComponentMk p).supp.ncard ≤ 61 := by
  have hsub : ((freeGraph b cells).connectedComponentMk p).supp
      ⊆ ballOffsets.image fun v => (⟨p.x - 5 + v.1, p.y - 5 + v.2⟩ : Point) := by
    intro q hq
    have hr : (freeGraph b cells).Reachable p q :=
      (SimpleGraph.ConnectedComponent.exact hq).symm
    obtain ⟨w, hw⟩ := hr.exists_walk_length_eq_dist
    have hlen := manhattan_le_length w
    have hdist := hnear q hr
    have hx := abs_le.mp (show |p.x - q.x| ≤ 5 by have := abs_nonneg (p.y - q.y); omega)
    have hy := abs_le.mp (show |p.y - q.y| ≤ 5 by have := abs_nonneg (p.x - q.x); omega)
    simp only [Finset.coe_image, Set.mem_image, Finset.mem_coe, ballOffsets, Finset.mem_filter,
      Finset.mem_product, Finset.mem_range]
    refine ⟨((q.x - p.x + 5).toNat, (q.y - p.y + 5).toNat), ⟨?_, ?_⟩, ?_⟩
    · show (q.x - p.x + 5).toNat < 11 ∧ (q.y - p.y + 5).toNat < 11
      omega
    · rw [Int.abs_eq_natAbs, Int.abs_eq_natAbs] at hlen
      show (((q.x - p.x + 5).toNat : ℤ) - 5).natAbs + (((q.y - p.y + 5).toNat : ℤ) - 5).natAbs ≤ 5
      omega
    · have hx' : p.x - 5 + (q.x - p.x + 5).toNat = q.x := by omega
      have hy' : p.y - 5 + (q.y - p.y + 5).toNat = q.y := by omega
      rw [hx', hy']
  calc ((freeGraph b cells).connectedComponentMk p).supp.ncard
      ≤ (ballOffsets.image fun v => (⟨p.x - 5 + v.1, p.y - 5 + v.2⟩ : Point) : Set Point).ncard :=
        Set.ncard_le_ncard hsub (Finset.finite_toSet _)
    _ = (ballOffsets.image fun v => (⟨p.x - 5 + v.1, p.y - 5 + v.2⟩ : Point)).card :=
        Set.ncard_coe_finset _
    _ ≤ ballOffsets.card := Finset.card_image_le
    _ = 61 := card_ballOffsets

end Distances

/-! ## When the loop can end -/

namespace SlavaStrategy

section Board

variable {b : BoardSize} {cells : Cells} {o : SlavaStrategy} {g : Globals}
  (h : OnBoard b cells o g)

include h

theorem OnBoard.resetTarget : OnBoard b cells o (o.resetTarget g) := by
  unfold SlavaStrategy.resetTarget
  split_ifs
  · exact ⟨h.fit, h.free, h.table, h.size, h.self, h.self⟩
  · exact h

theorem OnBoard.size_pos : 0 < g.size.sizeX ∧ 0 < g.size.sizeY := by
  obtain ⟨hx, hy⟩ := (Point.isCorrect_iff b o.self.pos).mp h.self
  rw [h.size]
  omega

/-- The condition of the loop rejects what is not a good target. -/
theorem OnBoard.rejects (rand : ℕ → ℕ) :
    o.Rejects rand (GoodTarget b cells o.self.pos) g := by
  intro k
  have hcandidate := candidate_isCorrect rand h.size_pos.1 h.size_pos.2
    (by rw [h.size]; exact h.target) k
  rw [h.size] at hcandidate
  obtain ⟨d, hd, hgood⟩ :=
    (ExactTable.of_floyd h.fit h.free h.table).minDistance_target h.self hcandidate
  have htest : o.badTarget (afterRounds rand g k) = some (decide (d ≤ 5 ∨ d = inf)) := by
    simp [badTarget, afterRounds, hd]
  rw [htest, hgood]
  exact ⟨fun hno => by rw [decide_eq_false hno], fun hyes => by
    rw [decide_eq_true (not_not.mp hyes)]⟩

end Board

/-- What there is to say about the end of the loop. -/
structure LoopLaw (b : BoardSize) (cells : Cells) (o : SlavaStrategy) (g : Globals) : Prop where
  /-- It stops exactly at the first good candidate... -/
  stops_iff : ∀ (rand : ℕ → ℕ) (fuel : ℕ) (g' : Globals),
    targetLoop rand o fuel (o.resetTarget g) = some (true, g') ↔
      ∃ k ≤ fuel, GoodTarget b cells o.self.pos (candidate rand (o.resetTarget g) k) ∧
        (∀ j < k, ¬ GoodTarget b cells o.self.pos (candidate rand (o.resetTarget g) j)) ∧
        g' = afterRounds rand (o.resetTarget g) k
  /-- ...and goes on as long as there is none. -/
  goes_on : ∀ (rand : ℕ → ℕ) (fuel : ℕ),
    (∀ k ≤ fuel, ¬ GoodTarget b cells o.self.pos (candidate rand (o.resetTarget g) k)) →
      targetLoop rand o fuel (o.resetTarget g)
        = some (false, afterRounds rand (o.resetTarget g) fuel)
  /-- A reset target is drawn anew. -/
  draws : g.moveIndex % 128 = 0 → ∀ (rand : ℕ → ℕ) (fuel : ℕ) (g' : Globals),
    targetLoop rand o fuel (o.resetTarget g) = some (true, g') → g.draws + 2 ≤ g'.draws
  /-- More than 61 connected cells leave one to stop at. -/
  can_stop : FreeCell b cells o.self.pos →
    61 < ((freeGraph b cells).connectedComponentMk o.self.pos).supp.ncard →
      ∃ c, GoodTarget b cells o.self.pos c
  /-- Where all cells are near, no draws end the loop. -/
  never : (¬ FreeCell b cells o.self.pos ∨ ∀ q, (freeGraph b cells).Reachable o.self.pos q →
      (freeGraph b cells).dist o.self.pos q ≤ 5) →
    ∀ (rand : ℕ → ℕ) (fuel : ℕ), ∃ g',
      targetLoop rand o fuel (o.resetTarget g) = some (false, g')

/-- **When the target loop can end.** -/
theorem loopLaw_of_onBoard {b : BoardSize} {cells : Cells} {o : SlavaStrategy} {g : Globals}
    (h : OnBoard b cells o g) : LoopLaw b cells o g := by
  have hpos := h.resetTarget.size_pos
  have hstops := fun rand => targetLoop_eq_some_true_iff (h.resetTarget.rejects rand)
    hpos.1.ne' hpos.2.ne'
  have hgoes : ∀ (rand : ℕ → ℕ) (fuel : ℕ),
      (∀ k ≤ fuel, ¬ GoodTarget b cells o.self.pos (candidate rand (o.resetTarget g) k)) →
        targetLoop rand o fuel (o.resetTarget g)
          = some (false, afterRounds rand (o.resetTarget g) fuel) := fun rand _ =>
    targetLoop_of_none (h.resetTarget.rejects rand) hpos.1.ne' hpos.2.ne'
  refine ⟨hstops, hgoes, fun hindex rand fuel g' hloop => ?_, fun hfree hcard => ?_,
    fun hnear rand fuel => ⟨_, hgoes rand fuel fun k _ hgood => ?_⟩⟩
  · -- the first candidate is the trooper's own cell
    obtain ⟨k, _, hgood, _, rfl⟩ := (hstops rand fuel g').mp hloop
    rw [SlavaStrategy.resetTarget, if_pos hindex] at hgood ⊢
    cases k with
    | zero =>
        have hdist := hgood.2.2
        simp [candidate] at hdist
    | succ k =>
        show g.draws + 2 ≤ g.draws + 2 * (k + 1)
        omega
  · by_contra hnone
    have hnear : ∀ q, (freeGraph b cells).Reachable o.self.pos q →
        (freeGraph b cells).dist o.self.pos q ≤ 5 := by
      intro q hr
      by_contra hfar
      by_cases hq : o.self.pos = q
      · simp [← hq] at hfar
      · exact hnone ⟨q, (freeCell_of_reachable hq hr).2, hr, by omega⟩
    have hle := ncard_supp_le hnear
    omega
  · obtain ⟨hcell, hr, hfar⟩ := hgood
    rcases hnear with hself | hall
    · refine hself ?_
      by_cases hq : o.self.pos = candidate rand (o.resetTarget g) k
      · rw [hq]
        exact hcell
      · exact (freeCell_of_reachable hq hr).1
    · have := hall _ hr
      omega

end SlavaStrategy

/-- The object built for the trooper that is alone in the corridor. -/
def aloneStrategy : SlavaStrategy where
  self := woundedTrooper
  world := corridor [woundedTrooper] []
  game := medikitGame
  cells := [.lowCover] :: List.replicate 7 [.free]
  teammates := [woundedTrooper]
  enemies := []
  stances := [.prone, .kneeling, .standing]

/-- In the corridor the loop stops at the far end. -/
theorem loopLaw_corridor :
    SlavaStrategy.LoopLaw ⟨8, 1⟩ (corridor [] []).cells aloneStrategy corridorGlobals := by
  refine SlavaStrategy.loopLaw_of_onBoard ⟨⟨by decide, by decide, by decide⟩, by decide,
    by decide, rfl, by decide, by decide⟩

end CodeTroopers
