import CodeTroopers.Strategy.NoOverflow

set_option autoImplicit false

/-! # What a plan is credited with

The score of a node has a part that is read off its state alone (`credit`) and one that is read off
the board: the threats, the distances and the commander. Where two searches read the same off the
board, a node with more credit scores more (`SameView.score_add_le`), as long as the plan does no
damage of a negative amount. -/

namespace CodeTroopers

/-- The damages a plan of the trooper can do. -/
def damages (self : Trooper) (game : Game) : List Int32 :=
  [self.standingDamage, self.kneelingDamage, self.proneDamage] ++
    [game.grenadeDirectDamage, game.grenadeCollateralDamage]

theorem boolToInt_le {b b' : Bool} (h : b = true → b' = true) : boolToInt b ≤ boolToInt b' := by
  cases b <;> cases b' <;> simp [boolToInt] at h ⊢

namespace SlavaStrategy

/-! ## Credit and view -/

/-- The part of the score that is read off the state alone. -/
def credit (state : State) : Int :=
  300 * state.damage - 2000 * state.mateDamage + 20000 * state.kills
    + 400 * boolToInt state.hasMedkit + 400 * boolToInt state.hasFieldRation
    + 400 * boolToInt state.hasGrenade

/-- The target counts for a plan that has neither done damage nor healed more than it has hurt. -/
def TargetCounts (state : State) : Prop := state.mateDamage ≥ 0 ∧ state.damage = 0

instance (state : State) : Decidable (TargetCounts state) := inferInstanceAs (Decidable (_ ∧ _))

/-- **The terms of a score**: the credit of the state, and what the search reads off the board. -/
theorem scoreState_eq_some_iff {o : SlavaStrategy} {g : Globals} {state : State} {score : Int} :
    o.scoreState g state = some score ↔ o.teammates.length ≠ 0 ∧
      ∃ matesDist shootingEnemies targetDist, o.matesDist g state = some matesDist ∧
        o.shootingEnemies state = some shootingEnemies ∧
        minDistance g.floydDist state.pos g.target = some targetDist ∧
        score = credit state - 10000 * shootingEnemies
          - toSizeT (60 * matesDist) / o.teammates.length
          - (if TargetCounts state then 55 * targetDist else 0)
          + (if o.self.type ≠ .scout then 500 * boolToInt (o.closeToCommander state) else 0) := by
  simp only [scoreState, credit, TargetCounts, Option.bind_eq_bind, Option.bind_eq_some_iff]
  constructor
  · intro h
    obtain ⟨d, hd, n, hn, t, ht, h⟩ := h
    by_cases hlen : o.teammates.length = 0
    · rw [if_pos hlen] at h
      exact absurd h (by simp)
    · rw [if_neg hlen, Option.some.injEq] at h
      refine ⟨hlen, d, n, t, hd, hn, ht, ?_⟩
      rw [← h]
      split_ifs <;> omega
  · intro h
    obtain ⟨hlen, d, n, t, hd, hn, ht, rfl⟩ := h
    refine ⟨d, hd, n, hn, t, ht, ?_⟩
    rw [if_neg hlen, Option.some.injEq]
    split_ifs <;> omega

/-- Two searches read the same threats and distances at two states. -/
structure SameView (o : SlavaStrategy) (g : Globals) (state : State) (o' : SlavaStrategy)
    (g' : Globals) (state' : State) : Prop where
  mates : o'.matesDist g' state' = o.matesDist g state
  enemies : o'.shootingEnemies state' = o.shootingEnemies state
  close : o'.closeToCommander state' = o.closeToCommander state
  target : minDistance g'.floydDist state'.pos g'.target
    = minDistance g.floydDist state.pos g.target
  team : o'.teammates.length = o.teammates.length
  type : o'.self.type = o.self.type

/-- **Under the same view more credit is more score**, unless the target begins to count. -/
theorem SameView.score_add_le {o o' : SlavaStrategy} {g g' : Globals} {node node' : Node}
    (h : SameView o g node.state o' g' node'.state) (hdef : (o.scoreState g node.state).isSome)
    (htarget : ∀ d, minDistance g.floydDist node.state.pos g.target = some d → 0 ≤ d)
    (hcounts : TargetCounts node'.state → TargetCounts node.state) :
    o.score g node + (credit node'.state - credit node.state) ≤ o'.score g' node' := by
  obtain ⟨v, hv⟩ := Option.isSome_iff_exists.mp hdef
  obtain ⟨hlen, d, n, t, hd, hn, ht, hscore⟩ := scoreState_eq_some_iff.mp hv
  rw [← h.mates] at hd
  rw [← h.enemies] at hn
  have hnonneg := htarget t ht
  rw [← h.target] at ht
  rw [← h.team] at hlen
  have hterm : (if TargetCounts node'.state then 55 * t else 0)
      ≤ if TargetCounts node.state then 55 * t else 0 := by
    by_cases hc : TargetCounts node'.state
    · rw [if_pos hc, if_pos (hcounts hc)]
    · rw [if_neg hc]
      split_ifs
      · exact mul_nonneg (by decide) hnonneg
      · exact le_refl 0
  rw [score, score, hv, scoreState_eq_some_iff.mpr ⟨hlen, d, n, t, hd, hn, ht, rfl⟩,
    Option.getD_some, Option.getD_some, hscore, h.close, h.team, h.type]
  omega

theorem sameView_of_stay (o : SlavaStrategy) (g : Globals) {state state' : State}
    (hpos : state'.pos = state.pos) (hstance : state'.stance = state.stance) :
    SameView o g state o g state' := by
  have hseen : o.seenFrom state' = o.seenFrom state := by
    funext enemy stance
    rw [seenFrom, seenFrom, hpos, hstance]
  have hrange : o.inGrenadeRange state' = o.inGrenadeRange state := by
    funext enemy
    rw [inGrenadeRange, inGrenadeRange, hpos]
  refine ⟨?_, ?_, ?_, by rw [hpos], rfl, rfl⟩
  · rw [matesDist, matesDist, hpos]
  · simp only [shootingEnemies, isShooting, hrange, hseen]
  · rw [closeToCommander, closeToCommander, hpos]

/-! ## Damage -/

section Damage

variable {o : SlavaStrategy} {g : Globals} (hdamages : ∀ n ∈ damages o.self o.game, 0 ≤ n.toInt)

include hdamages

theorem damageOf_nonneg {node : Node} {step : Step} (hstep : step ∈ o.steps g node) :
    0 ≤ o.damageOf g step := by
  have henabled := ((o.mem_steps_iff g node step).mp hstep).2
  cases step with
  | shoot enemy damage =>
      obtain ⟨_, _, rfl⟩ := henabled
      show 0 ≤ (o.self.getDamage node.state.stance).getD 0
      cases hdealt : o.self.getDamage node.state.stance with
      | none => exact le_refl _
      | some damage =>
          obtain ⟨n, hn, rfl⟩ := Trooper.exists_of_getDamage hdealt
          exact hdamages n (List.mem_append_left [_, _] hn)
  | throwGrenade enemy =>
      have hdirect := hdamages o.game.grenadeDirectDamage (by simp [damages])
      have hcollateral := hdamages o.game.grenadeCollateralDamage (by simp [damages])
      exact add_nonneg hdirect (mul_nonneg hcollateral (Int.natCast_nonneg _))
  | _ => exact le_refl 0

theorem Run.damage_nonneg {path : List Step} {node : Node} (hrun : o.Run g o.root path node) :
    0 ≤ node.state.damage := by
  refine DepthFirst.Run.invariant (P := fun node => 0 ≤ node.state.damage)
    (fun node hnode c hc => ?_) hrun (by simp [root, enter, initialState])
  obtain ⟨hstep, hnext⟩ := (o.mem_children_iff g node c).mp hc
  rw [hnext, next_damage]
  exact add_nonneg hnode (damageOf_nonneg hdamages hstep)

end Damage

end SlavaStrategy

end CodeTroopers
