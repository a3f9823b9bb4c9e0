import CodeTroopers.Client.VisibilityTable
import CodeTroopers.Library.BinarySqrt
import CodeTroopers.Strategy.Safety

set_option autoImplicit false

/-! # The range checks

The strategy compares distances in two ways: `distance_to` takes the root in `double` and compares
it with a range (the grenades, the commander's aura), `isVisible` compares the square of the
distance with the square of the range. On a board whose visibility table can be sent, both are exact
for a range of few bits (`distanceTo_le_iff`, `ofInt_le_range_iff`), and so they agree.
`ranges_exact` says so for everything the search compares, at every node of every plan. -/

namespace CodeTroopers

open BinaryFloat

/-- The Euclidean distance of the points is at most `x`, which is not negative. -/
def Point.Within (p q : Point) (x : ℚ) : Prop :=
  (((q.x - p.x) ^ 2 + (q.y - p.y) ^ 2 : Int) : ℚ) ≤ x ^ 2

theorem distanceTo_le_iff {w h : Int} (hboard : w * h * w * h * 3 < 2 ^ 31) {p q : Point}
    (hp : p.isCorrect ⟨w, h⟩ = true) (hq : q.isCorrect ⟨w, h⟩ = true) {range : Double} {r : ℚ}
    (hr : Short range.toFloat r) : p.distanceTo q ≤ range.toFloat ↔ p.Within q r := by
  have hmem : (q.x - p.x) * (q.x - p.x) + (q.y - p.y) * (q.y - p.y) ∈ rangeTerms p q := by
    simp [rangeTerms]
  have hfits := (rangeTerms_bounds hboard hp hq _ hmem).2
  obtain ⟨n, hn⟩ := Int.eq_ofNat_of_zero_le
    (add_nonneg (mul_self_nonneg (q.x - p.x)) (mul_self_nonneg (q.y - p.y)))
  rw [hn] at hfits
  rw [Point.distanceTo, Point.Within, pow_two (q.x - p.x), pow_two (q.y - p.y), hn]
  exact_mod_cast hr.sqrt_le_iff (show n < 2 ^ 53 by omega)

namespace SlavaStrategy

/-- Everything the search compares at a node is compared exactly, if the range is short. -/
structure ExactRanges (turn : Turn) (o : SlavaStrategy) (state : State) : Prop where
  /-- a grenade reaches the enemy -/
  grenade : ∀ r, Short turn.game.grenadeThrowRange.toFloat r → ∀ enemy ∈ o.enemies,
    (o.inGrenadeRange state enemy = true ↔ state.pos.Within enemy.pos r)
  /-- the commander is close -/
  commander : ∀ r, Short turn.game.commanderAuraRange.toFloat r →
    (o.closeToCommander state = true ↔
      ∃ mate ∈ o.teammates, mate.type = .commander ∧ state.pos.Within mate.pos r)
  /-- an enemy is shot at within the trooper's range, where the table shows it -/
  shot : ∀ r, Short turn.self.shootingRange.toFloat r → ∀ enemy ∈ o.enemies,
    (o.seesEnemy state enemy = some true ↔ state.pos.Within enemy.pos r ∧
      turn.world.visibilityAt state.pos enemy.pos
        (min state.stance.toInt enemy.stance.toInt) = some true)
  /-- an enemy shoots within its own range, where the table shows the trooper -/
  threat : ∀ enemy ∈ o.enemies, ∀ r, Short enemy.shootingRange.toFloat r → ∀ stance,
    (o.seenFrom state enemy stance = some true ↔ enemy.pos.Within state.pos r ∧
      turn.world.visibilityAt enemy.pos state.pos
        (min stance.toInt state.stance.toInt) = some true)
  /-- for one range, `isVisible` sees what `distance_to` says is in range and the table shows -/
  agree : ∀ range : Double, ∀ r, Short range.toFloat r → ∀ t ∈ turn.world.troopers,
    ∀ s s' : TrooperStance, (turn.world.isVisible range state.pos s t.pos s' = some true ↔
      state.pos.distanceTo t.pos ≤ range.toFloat ∧
        turn.world.visibilityAt state.pos t.pos (min s.toInt s'.toInt) = some true)

theorem isVisible_iff_within {turn : Turn} (hturn : turn.Consistent) {range : Double} {r : ℚ}
    (hr : Short range.toFloat r) {p q : Point} (hp : p.isCorrect turn.world.size = true)
    (hq : q.isCorrect turn.world.size = true) (s t : TrooperStance) :
    turn.world.isVisible range p s q t = some true ↔
      p.Within q r ∧ turn.world.visibilityAt p q (min s.toInt t.toInt) = some true := by
  have hrange := ofInt_le_range_iff hturn.board_lt hp hq hr.exactSquare
  rw [World.isVisible_eq]
  split_ifs with hle
  · exact (and_iff_right (hrange.mp hle)).symm
  · exact iff_of_false (by simp) fun h => hle (hrange.mpr h.1)

section Search

variable {turn : Turn} {o : SlavaStrategy} {g₀ g₁ g : Globals}

theorem Inside.exactRanges (hturn : turn.Consistent) (hc : Constructed turn g₀ o g₁) {node : Node}
    (h : Inside turn node) : ExactRanges turn o node.state := by
  have hpos := h.isCorrect hturn
  have henemy : ∀ enemy ∈ o.enemies, enemy.pos.isCorrect turn.world.size = true :=
    fun enemy hmem => (enemy_placed hturn hc hmem).1
  constructor
  · intro r hr enemy hmem
    rw [inGrenadeRange, hc.game_eq, decide_eq_true_eq]
    exact distanceTo_le_iff hturn.board_lt hpos (henemy enemy hmem) hr
  · intro r hr
    simp only [closeToCommander, List.any_eq_true, Bool.and_eq_true, decide_eq_true_eq, hc.game_eq]
    have hiff : ∀ mate ∈ o.teammates,
        (node.state.pos.distanceTo mate.pos ≤ turn.game.commanderAuraRange.toFloat ↔
          node.state.pos.Within mate.pos r) := fun mate hmem =>
      distanceTo_le_iff hturn.board_lt hpos (mate_placed hturn hc hmem).1 hr
    exact exists_congr fun mate => and_congr_right fun hmem => and_congr_right fun _ =>
      hiff mate hmem
  · intro r hr enemy hmem
    rw [seesEnemy, hc.world_eq, hc.self_eq]
    exact isVisible_iff_within hturn hr hpos (henemy enemy hmem) _ _
  · intro enemy hmem r hr stance
    rw [seenFrom, hc.world_eq]
    exact isVisible_iff_within hturn hr (henemy enemy hmem) hpos _ _
  · intro range r hr t ht s s'
    have ht' := (hturn.placed t ht).1
    rw [isVisible_iff_within hturn hr hpos ht', distanceTo_le_iff hturn.board_lt hpos ht' hr]

/-- **Range checks are exact**: at every node of every plan on consistent data, what is compared in
    `double`, by the root or by the square, is compared as the exact distance and the range, and the
    table decides the rest, provided the range is `Short`: not negative, below `2^26`, and with at
    most 26 bits. -/
theorem ranges_exact (hturn : turn.Consistent)
    (hcon : construct turn.self turn.world turn.game g₀ = some (o, g₁)) {p : List Step × Node}
    (hp : p ∈ o.plans g 10 o.root) : ExactRanges turn o p.2.state := by
  have hc := constructed_construct hcon
  exact (Run.inside hturn hc ((o.mem_plans_iff g 10 o.root p).mp hp).1).exactRanges hturn hc

end Search

end SlavaStrategy

theorem short_ten : Short (Double.toFloat ⟨0x4024000000000000⟩) 10 := by
  have hunpack : (Double.toFloat ⟨0x4024000000000000⟩).toModel.unpack
      = .finite .positive (5 * 2 ^ 50) (-49) (by decide) := rfl
  refine ⟨?_, 10, 0, by norm_num, by norm_num, by norm_num⟩
  rw [value, hunpack, unpackedValue, Float.Model.UnpackedFloat.Sign.apply]
  norm_num

theorem ranges_exact_watched :
    SlavaStrategy.ExactRanges watchedTurn watchedStrategy watchedStrategy.root.state ∧
      farEnemy.pos.Within woundedTrooper.pos 10 := by
  have hexact := SlavaStrategy.ranges_exact (g := corridorGlobals) watchedTurn_consistent
    construct_watched (DepthFirst.nil_mem_plans _ 10 _)
  have hseen : watchedStrategy.seenFrom watchedStrategy.root.state farEnemy .standing
      = some true := by decide
  exact ⟨hexact, ((hexact.threat farEnemy (List.mem_singleton_self _) 10 short_ten .standing).mp
    hseen).1⟩

end CodeTroopers
