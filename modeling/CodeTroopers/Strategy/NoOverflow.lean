import CodeTroopers.Strategy.IntSearch
import CodeTroopers.Strategy.Safety

set_option autoImplicit false

/-! # No overflow

If the amounts of a move are moderate (`Turn.Moderate`), no step changes a value of the search by
much (`Run.drift`), and ten steps leave all of them far inside an `int` (`Bounded`). What is
computed from the coordinates is small as the board is. The score is left with its distances: those
to connected cells are small, and one to a teammate that is not connected is enough for an overflow.
So `intRun_eq` decides for which moves the search in the integers of the machine is exact. -/

namespace CodeTroopers

open CheckedVector MachineInt

/-- What a trooper brings into the arithmetic of the search. -/
def Trooper.amounts (t : Trooper) : List Int32 :=
  [t.hitpoints, t.maximalHitpoints, t.actionPoints, t.shootCost, t.standingDamage,
    t.kneelingDamage, t.proneDamage]

/-- What the game brings into it. -/
def Game.amounts (game : Game) : List Int32 :=
  [game.stanceChangeCost, game.standingMoveCost, game.kneelingMoveCost, game.proneMoveCost,
    game.fieldMedicHealCost, game.fieldMedicHealBonusHitpoints,
    game.fieldMedicHealSelfBonusHitpoints, game.grenadeThrowCost, game.grenadeDirectDamage,
    game.grenadeCollateralDamage, game.medikitUseCost, game.medikitBonusHitpoints,
    game.medikitHealSelfBonusHitpoints, game.fieldRationEatCost, game.fieldRationBonusActionPoints]

/-- What a move brings into it. -/
def Turn.amounts (turn : Turn) : List Int32 :=
  turn.game.amounts ++ (turn.self :: turn.world.troopers).flatMap Trooper.amounts

/-- At most fifty troopers, and no amount beyond a thousand. -/
structure Turn.Moderate (turn : Turn) : Prop where
  troopers : turn.world.troopers.length ≤ 50
  amounts : ∀ n ∈ turn.amounts, -1000 ≤ n.toInt ∧ n.toInt ≤ 1000

instance (turn : Turn) : Decidable turn.Moderate :=
  decidable_of_iff (turn.world.troopers.length ≤ 50 ∧
      (turn.amounts.all fun n => decide (-1000 ≤ n.toInt ∧ n.toInt ≤ 1000)) = true)
    ⟨fun h => ⟨h.1, fun n hn => of_decide_eq_true (List.all_eq_true.mp h.2 n hn)⟩,
      fun h => ⟨h.troopers, List.all_eq_true.mpr fun n hn => decide_eq_true (h.amounts n hn)⟩⟩

theorem boolToInt_bounds (c : Bool) : 0 ≤ boolToInt c ∧ boolToInt c ≤ 1 := by
  cases c <;> decide

/-! ## One operation -/

theorem checkedInt_eq {n : Int} (h : -2 ^ 31 ≤ n ∧ n < 2 ^ 31) : checkedInt n = some n :=
  signed?_of_inRange (inRange_int.mpr h)

theorem eq_of_checkedInt {n m : Int} (h : checkedInt n = some m) :
    m = n ∧ -2 ^ 31 ≤ n ∧ n < 2 ^ 31 := by
  obtain ⟨hrange, hm⟩ := signed?_eq_some_iff.mp h
  exact ⟨hm, inRange_int.mp hrange⟩

theorem checkedCount_eq {c : Prop} [Decidable c] {n k : Int}
    (h : -2 ^ 31 ≤ n + k ∧ n + k < 2 ^ 31) :
    checkedCount c n k = some (if c then n + k else n) := by
  unfold checkedCount
  split_ifs
  · exact checkedInt_eq h
  · rfl

theorem checkedHit_eq {c c' : Prop} [Decidable c] [Decidable c'] {dealt kills k : Int}
    (hdealt : -2 ^ 31 ≤ dealt ∧ dealt < 2 ^ 31) (hkills : -2 ^ 31 ≤ kills + k ∧ kills + k < 2 ^ 31)
    (hit : Int → Int → State) (new : State) :
    (if c then (checkedInt dealt).bind fun dealt =>
        (checkedCount c' kills k).bind fun kills => some (hit dealt kills)
      else some new) = some (if c then hit dealt (if c' then kills + k else kills) else new) := by
  by_cases hc : c
  · rw [if_pos hc, if_pos hc, checkedInt_eq hdealt, Option.bind_some, checkedCount_eq hkills]
    rfl
  · rw [if_neg hc, if_neg hc]

theorem addTerm_eq {score factor x : Int} (hterm : -2 ^ 31 ≤ factor * x ∧ factor * x < 2 ^ 31)
    (hsum : -2 ^ 31 ≤ score + factor * x ∧ score + factor * x < 2 ^ 31) :
    addTerm score factor x = some (score + factor * x) := by
  rw [addTerm, checkedInt_eq hterm]
  exact checkedInt_eq hsum

theorem subTerm_eq {score factor x : Int} (hterm : -2 ^ 31 ≤ factor * x ∧ factor * x < 2 ^ 31)
    (hsum : -2 ^ 31 ≤ score - factor * x ∧ score - factor * x < 2 ^ 31) :
    subTerm score factor x = some (score - factor * x) := by
  rw [subTerm, checkedInt_eq hterm]
  exact checkedInt_eq hsum

/-- The conversions to `size_t` and back cancel where the exact difference is an `int`. -/
theorem subQuotient_eq {score term : Int} {size : ℕ}
    (h : -2 ^ 31 ≤ score - toSizeT term / size ∧ score - toSizeT term / size < 2 ^ 31) :
    subQuotient score term size = score - toSizeT term / size := by
  have hsize : unsigned 64 term = toSizeT term := rfl
  rw [subQuotient, unsigned_unsigned_sub, hsize]
  exact toSigned_unsigned (by decide) (by decide) (inRange_int.mpr h)

/-- The two terms of the score that stand under a condition. -/
theorem lastTerms_eq {score targetDist close : Int} {c c' : Prop} [Decidable c] [Decidable c']
    (hscore : -2000000000 ≤ score ∧ score ≤ 2000000000) (ht : 0 ≤ targetDist ∧ targetDist ≤ 27000)
    (hclose : 0 ≤ close ∧ close ≤ 1) :
    (if c then (subTerm score 55 targetDist).bind fun score =>
        if c' then addTerm score 500 close else some score
      else if c' then addTerm score 500 close else some score)
      = some (if c' then (if c then score - 55 * targetDist else score) + 500 * close
          else if c then score - 55 * targetDist else score) := by
  have hsub := @subTerm_eq score 55 targetDist (by omega) (by omega)
  by_cases hc : c
  · rw [if_pos hc, if_pos hc, hsub, Option.bind_some]
    split_ifs
    · exact addTerm_eq (by omega) (by omega)
    · rfl
  · rw [if_neg hc, if_neg hc]
    split_ifs
    · exact addTerm_eq (by omega) (by omega)
    · rfl

theorem checkedInts_eq {results : List Int} (h : ∀ n ∈ results, IntRange n) :
    checkedInts results = some () := if_pos h

/-! ## Points of a small board -/

/-- If its visibility table can be sent, the sides of a board are far inside an `int`. -/
theorem Point.sides_lt {b : BoardSize} (hboard : b.sizeX * b.sizeY * b.sizeX * b.sizeY * 3 < 2 ^ 31)
    {p : Point} (hp : p.isCorrect b = true) : b.sizeX < 2 ^ 30 ∧ b.sizeY < 2 ^ 30 := by
  obtain ⟨⟨hx, hxb⟩, hy, hyb⟩ := (Point.isCorrect_iff _ _).mp hp
  have hmul : ∀ m n : Int, 0 ≤ m → 1 ≤ n → m ≤ m * n := fun m n => le_mul_of_one_le_right
  have h₁ := hmul b.sizeX b.sizeY (by omega) (by omega)
  have h₁' := hmul b.sizeY b.sizeX (by omega) (by omega)
  rw [mul_comm] at h₁'
  have h₂ := hmul (b.sizeX * b.sizeY) b.sizeX (by omega) (by omega)
  have h₃ := hmul (b.sizeX * b.sizeY * b.sizeX) b.sizeY (by omega) (by omega)
  omega

theorem Point.intHasNeigh_eq {b : BoardSize}
    (hboard : b.sizeX * b.sizeY * b.sizeX * b.sizeY * 3 < 2 ^ 31) {q : Point}
    (hq : q.isCorrect b = true) (p : Point) : q.intHasNeigh b p = some (q.hasNeigh b p) := by
  unfold intHasNeigh hasNeigh
  by_cases hp : p.isCorrect b = true
  · obtain ⟨hx, hy⟩ := Point.sides_lt hboard hq
    obtain ⟨⟨hpx, hpxb⟩, hpy, hpyb⟩ := (Point.isCorrect_iff _ _).mp hp
    obtain ⟨⟨hqx, hqxb⟩, hqy, hqyb⟩ := (Point.isCorrect_iff _ _).mp hq
    have hdx := abs_lt.mpr (show -2 ^ 30 < q.x - p.x ∧ q.x - p.x < 2 ^ 30 by omega)
    have hdy := abs_lt.mpr (show -2 ^ 30 < q.y - p.y ∧ q.y - p.y < 2 ^ 30 by omega)
    have hdx0 := abs_nonneg (q.x - p.x)
    have hdy0 := abs_nonneg (q.y - p.y)
    rw [if_pos hp, checkedInts_eq, hp, Bool.true_and]
    · rfl
    · simp only [List.forall_mem_cons, List.not_mem_nil, false_implies, implies_true, and_true,
        IntRange]
      omega
  · rw [if_neg hp, eq_false_of_ne_true hp, Bool.false_and]

theorem Point.intNeighs_eq {b : BoardSize} (hb : b.sizeX < 2 ^ 31 ∧ b.sizeY < 2 ^ 31) {p : Point}
    (hp : p.isCorrect b = true) : p.intNeighs b = some (p.neighs b) := by
  obtain ⟨⟨hx, hxb⟩, hy, hyb⟩ := (Point.isCorrect_iff _ _).mp hp
  rw [intNeighs, checkedInts_eq]
  · rfl
  · simp only [List.forall_mem_cons, List.not_mem_nil, false_implies, implies_true, and_true,
      IntRange]
    omega

theorem Point.intDistanceTo_eq {b : BoardSize}
    (hboard : b.sizeX * b.sizeY * b.sizeX * b.sizeY * 3 < 2 ^ 31) {q p : Point}
    (hq : q.isCorrect b = true) (hp : p.isCorrect b = true) :
    q.intDistanceTo p = some (q.distanceTo p) := by
  rw [intDistanceTo, checkedInts_eq (rangeTerms_bounds hboard hq hp)]
  rfl

theorem World.intIsVisible_eq {w : World}
    (hboard : w.size.sizeX * w.size.sizeY * w.size.sizeX * w.size.sizeY * 3 < 2 ^ 31)
    (range : Double) {p q : Point} {s t : TrooperStance} (hp : p.isCorrect w.size = true)
    (hq : q.isCorrect w.size = true) (hs : s ∈ allStances) (ht : t ∈ allStances) :
    w.intIsVisible range p s q t = w.isVisible range p s q t := by
  obtain ⟨hm0, hm⟩ := min_stance_bounds hs ht
  have hindex := (visibilityIndex_bounds hp hq hm0 hm).2
  have hterms : ∀ v ∈ visibilityTerms w.width.toInt w.height.toInt p.x p.y q.x q.y
      (min s.toInt t.toInt), IntRange v := by
    intro v hv
    obtain ⟨h0, hle⟩ := visibilityTerms_bounds hp hq hm0 v hv
    simp only [World.size] at hboard
    exact ⟨by omega, by omega⟩
  rw [World.isVisible_eq]
  unfold World.intIsVisible
  dsimp only
  rw [checkedInts_eq (rangeTerms_bounds hboard hp hq), checkedInts_eq hterms]
  rfl

theorem foldl_or_eq {α : Type} (p : α → Bool) (l : List α) (c : Bool) :
    l.foldl (fun c a => c || p a) c = (c || l.any p) := by
  induction l generalizing c with
  | nil => simp
  | cons a l ih => rw [List.foldl_cons, ih, List.any_cons, Bool.or_assoc]

theorem Trooper.exists_of_getDamage {t : Trooper} {stance : TrooperStance} {damage : Int}
    (h : t.getDamage stance = some damage) :
    ∃ n ∈ [t.standingDamage, t.kneelingDamage, t.proneDamage], damage = n.toInt := by
  cases stance <;> simp only [Trooper.getDamage, Option.some.injEq, reduceCtorEq] at h <;>
    exact ⟨_, by simp, h.symm⟩

namespace SlavaStrategy

/-! ## What a step can change -/

/-- The object of a moderate move on consistent data. -/
structure Moderate (o : SlavaStrategy) : Prop where
  board_lt : o.world.size.sizeX * o.world.size.sizeY * o.world.size.sizeX * o.world.size.sizeY * 3
    < 2 ^ 31
  mate_placed : ∀ mate ∈ o.teammates, mate.Placed o.world
  enemy_placed : ∀ enemy ∈ o.enemies, enemy.Placed o.world
  stances : ∀ stance ∈ o.stances, stance ∈ allStances
  mates : o.teammates.length ≤ 50
  enemies : o.enemies.length ≤ 50
  self : ∀ n ∈ o.self.amounts, -1000 ≤ n.toInt ∧ n.toInt ≤ 1000
  listed : ∀ mate ∈ o.teammates, ∀ n ∈ mate.amounts, -1000 ≤ n.toInt ∧ n.toInt ≤ 1000
  game : ∀ n ∈ o.game.amounts, -1000 ≤ n.toInt ∧ n.toInt ≤ 1000

theorem Moderate.of_constructed {turn : Turn} {g₀ g₁ : Globals} {o : SlavaStrategy}
    (hturn : turn.Consistent) (h : turn.Moderate) (hc : Constructed turn g₀ o g₁) :
    o.Moderate := by
  have hmates : o.teammates.length ≤ turn.world.troopers.length := by
    rw [hc.teammates_eq]
    exact List.length_filter_le ..
  have henemies : o.enemies.length ≤ turn.world.troopers.length := by
    rw [hc.enemies_eq]
    exact List.length_filter_le ..
  have hlisted : ∀ t ∈ turn.self :: turn.world.troopers, ∀ n ∈ t.amounts,
      -1000 ≤ n.toInt ∧ n.toInt ≤ 1000 := fun t ht n hn =>
    h.amounts n (List.mem_append_right _ (List.mem_flatMap.mpr ⟨t, ht, hn⟩))
  constructor
  · rw [hc.world_eq]
    exact hturn.board_lt
  · rw [hc.world_eq]
    exact fun mate hmate => SlavaStrategy.mate_placed hturn hc hmate
  · rw [hc.world_eq]
    exact fun enemy henemy => SlavaStrategy.enemy_placed hturn hc henemy
  · exact fun stance hstance => mem_allStances_of_mem_stances hc hstance
  · exact hmates.trans h.troopers
  · exact henemies.trans h.troopers
  · rw [hc.self_eq]
    exact hlisted _ List.mem_cons_self
  · intro mate hmate
    rw [hc.teammates_eq] at hmate
    exact hlisted mate (List.mem_cons_of_mem _ (List.mem_of_mem_filter hmate))
  · rw [hc.game_eq]
    exact fun n hn => h.amounts n (List.mem_append_left _ hn)

section Drift

variable {o : SlavaStrategy} (hm : o.Moderate) (g : Globals)

include hm

theorem Moderate.cost_le (state : State) (step : Step) :
    -1000 ≤ o.cost state step ∧ o.cost state step ≤ 1000 := by
  cases step with
  | shoot enemy damage => exact hm.self o.self.shootCost (by simp [Trooper.amounts])
  | move n =>
      unfold cost moveCost
      split_ifs <;> exact hm.game _ (by simp [Game.amounts])
  | _ => exact hm.game _ (by simp [Game.amounts])

theorem Moderate.damage_le {stance : TrooperStance} {damage : Int}
    (h : o.self.getDamage stance = some damage) : -1000 ≤ damage ∧ damage ≤ 1000 := by
  obtain ⟨n, hn, rfl⟩ := Trooper.exists_of_getDamage h
  exact hm.self n (List.mem_append_right [_, _, _, _] hn)

theorem Moderate.missing_le {t : Trooper} (h : t = o.self ∨ t ∈ o.teammates) :
    -2000 ≤ t.maximalHitpoints.toInt - t.hitpoints.toInt ∧
      t.maximalHitpoints.toInt - t.hitpoints.toInt ≤ 2000 := by
  have hlisted : ∀ n ∈ t.amounts, -1000 ≤ n.toInt ∧ n.toInt ≤ 1000 := by
    rcases h with rfl | h
    · exact hm.self
    · exact hm.listed t h
  have hmax := hlisted t.maximalHitpoints (by simp [Trooper.amounts])
  have hnow := hlisted t.hitpoints (by simp [Trooper.amounts])
  omega

theorem Moderate.pointsAfter_le (node : Node) (step : Step) :
    |o.pointsAfter node step - node.points| ≤ 2000 := by
  have hcost := hm.cost_le node.state step
  have hration := hm.game o.game.fieldRationBonusActionPoints (by simp [Game.amounts])
  rw [abs_le]
  cases step <;> simp only [pointsAfter] <;> omega

theorem Moderate.blast_le (enemy : Trooper) :
    (o.blastEnemies g enemy).length ≤ 50 ∧ (o.blastMates g enemy).length ≤ 50 :=
  ⟨(List.length_filter_le ..).trans hm.enemies, (List.length_filter_le ..).trans hm.mates⟩

theorem Moderate.collateral_le {n : ℕ} (hn : n ≤ 50) :
    |o.game.grenadeCollateralDamage.toInt * n| ≤ 50000 := by
  have hdamage := abs_le.mpr (hm.game o.game.grenadeCollateralDamage (by simp [Game.amounts]))
  rw [abs_mul, Nat.abs_cast]
  calc |o.game.grenadeCollateralDamage.toInt| * (n : Int)
      ≤ 1000 * 50 := mul_le_mul hdamage (by exact_mod_cast hn) (Int.natCast_nonneg n) (by decide)
    _ = 50000 := rfl

variable {g} {node : Node} {step : Step}

theorem Moderate.mateDamageOf_le (hstep : step ∈ o.steps g node) :
    |o.mateDamageOf g step| ≤ 50000 := by
  have hheal : ∀ {bonus selfBonus : Int32} {patient : Trooper} {heal : Int},
      bonus ∈ o.game.amounts → selfBonus ∈ o.game.amounts →
        o.HealEnabled g node.state bonus selfBonus patient heal → |-heal| ≤ 50000 := by
    intro bonus selfBonus patient heal hbonus hself hen
    have hle := hm.game bonus hbonus
    have hle' := hm.game selfBonus hself
    obtain ⟨hpos, ⟨_, _, rfl⟩ | ⟨_, rfl⟩⟩ := hen <;> simp only [healOf] at hpos ⊢ <;>
      exact abs_le.mpr ⟨by omega, by omega⟩
  have henabled := ((o.mem_steps_iff g node step).mp hstep).2
  cases step with
  | useMedikit patient heal =>
      exact hheal (by simp [Game.amounts]) (by simp [Game.amounts]) henabled.2
  | heal patient heal =>
      exact hheal (by simp [Game.amounts]) (by simp [Game.amounts]) henabled.2
  | throwGrenade enemy => exact hm.collateral_le (hm.blast_le g enemy).2
  | _ => simp [mateDamageOf]

theorem Moderate.damageOf_le (hstep : step ∈ o.steps g node) : |o.damageOf g step| ≤ 51000 := by
  have henabled := ((o.mem_steps_iff g node step).mp hstep).2
  cases step with
  | shoot enemy damage =>
      obtain ⟨_, _, rfl⟩ := henabled
      show |(o.self.getDamage node.state.stance).getD 0| ≤ 51000
      cases hdealt : o.self.getDamage node.state.stance with
      | none => simp
      | some damage => exact (abs_le.mpr (hm.damage_le hdealt)).trans (by decide)
  | throwGrenade enemy =>
      have hdirect := abs_le.mpr (hm.game o.game.grenadeDirectDamage (by simp [Game.amounts]))
      exact (abs_add_le _ _).trans
        (add_le_add hdirect (hm.collateral_le (hm.blast_le g enemy).1))
  | _ => simp [damageOf]

theorem Moderate.killsOf_le (step : Step) : |o.killsOf g step| ≤ 151 := by
  cases step with
  | shoot enemy damage =>
      have := boolToInt_bounds (lethal damage enemy)
      show |boolToInt (lethal damage enemy)| ≤ 151
      exact abs_le.mpr ⟨by omega, by omega⟩
  | throwGrenade enemy =>
      obtain ⟨henemies, hmates⟩ := hm.blast_le g enemy
      have hdirect := boolToInt_bounds (lethal o.game.grenadeDirectDamage.toInt enemy)
      have hkilled := List.countP_le_length (p := lethal o.game.grenadeCollateralDamage.toInt)
        (l := o.blastEnemies g enemy)
      have hlost := List.countP_le_length (p := lethal o.game.grenadeCollateralDamage.toInt)
        (l := o.blastMates g enemy)
      show |o.grenadeKills g enemy| ≤ 151
      unfold grenadeKills
      exact abs_le.mpr ⟨by omega, by omega⟩
  | _ => simp [killsOf]

end Drift

/-! ## The values at a node -/

/-- The values a node of the search computes with. -/
structure Bounded (o : SlavaStrategy) (g : Globals) (node : Node) : Prop where
  size : g.size = o.world.size
  pos : node.state.pos.isCorrect o.world.size = true
  stance : node.state.stance ∈ allStances
  points : |node.points| ≤ 21000
  mateDamage : |node.state.mateDamage| ≤ 500000
  damage : |node.state.damage| ≤ 510000
  kills : |node.state.kills| ≤ 1510
  distances : ∀ q ∈ g.target :: o.teammates.map Trooper.pos,
    ∃ v, minDistance g.floydDist node.state.pos q = some v ∧ 0 ≤ v ∧ v ≤ 27000

section Node

variable {o : SlavaStrategy} {g : Globals} {node : Node} (hm : o.Moderate)
  (hb : o.Bounded g node)

include hm hb

/-! ## The range checks -/

theorem Bounded.intInGrenadeRange_eq {enemy : Trooper} (henemy : enemy ∈ o.enemies) :
    o.intInGrenadeRange node.state enemy = some (o.inGrenadeRange node.state enemy) := by
  rw [intInGrenadeRange, Point.intDistanceTo_eq hm.board_lt hb.pos (hm.enemy_placed enemy henemy).1]
  rfl

theorem Bounded.intSeesEnemy_eq {enemy : Trooper} (henemy : enemy ∈ o.enemies) :
    o.intSeesEnemy node.state enemy = o.seesEnemy node.state enemy := by
  obtain ⟨hpos, hstance⟩ := hm.enemy_placed enemy henemy
  exact World.intIsVisible_eq hm.board_lt _ hb.pos hpos hb.stance hstance

theorem Bounded.intIsShooting_eq {enemy : Trooper} (henemy : enemy ∈ o.enemies) :
    o.intIsShooting node.state enemy = o.isShooting node.state enemy := by
  have hpos := (hm.enemy_placed enemy henemy).1
  have hstances : o.stances.foldlM (fun shooting stance =>
        (o.intSeenFrom node.state enemy stance).map fun v => shooting || v) false
      = o.stances.foldlM (fun shooting stance =>
        (o.seenFrom node.state enemy stance).map fun v => shooting || v) false := by
    refine (foldlM_eq_of_room (fun _ _ => True) o.stances (fun stance hstance _ c _ => ?_)
      trivial).1
    refine ⟨?_, fun _ _ => trivial⟩
    rw [intSeenFrom, seenFrom, World.intIsVisible_eq hm.board_lt _ hpos hb.pos
      (hm.stances stance hstance) hb.stance]
  unfold intIsShooting isShooting
  rw [hb.intInGrenadeRange_eq hm henemy, Option.bind_some, hstances]

theorem Bounded.intCloseToCommander_eq :
    o.intCloseToCommander node.state = some (o.closeToCommander node.state) := by
  have hstep : ∀ mate ∈ o.teammates, ∀ (_ : ℕ) (close : Bool), True →
      (if mate.type = .commander then
          (node.state.pos.intDistanceTo mate.pos).map fun d =>
            close || decide (d ≤ o.game.commanderAuraRange.toFloat)
        else some close)
        = some (close || (decide (mate.type = .commander) &&
          decide (node.state.pos.distanceTo mate.pos ≤ o.game.commanderAuraRange.toFloat))) ∧
        True := by
    intro mate hmate _ close _
    refine ⟨?_, trivial⟩
    by_cases hcommander : mate.type = .commander
    · rw [if_pos hcommander,
        Point.intDistanceTo_eq hm.board_lt hb.pos (hm.mate_placed mate hmate).1, Option.map_some,
        decide_eq_true hcommander, Bool.true_and]
    · rw [if_neg hcommander, decide_eq_false hcommander, Bool.false_and, Bool.or_false]
  rw [intCloseToCommander,
    (foldlM_eq_some_of_room (fun _ _ => True) o.teammates hstep trivial).1, foldl_or_eq]
  rfl

/-! ## The score -/

theorem Bounded.intMatesDist_eq :
    o.intMatesDist g node.state = o.matesDist g node.state ∧
      ∀ d, o.matesDist g node.state = some d → 0 ≤ d ∧ d ≤ 1350000 := by
  have hstep : ∀ mate ∈ o.teammates, ∀ (n : ℕ) (d : Int), 0 ≤ d ∧ d + 27000 * (n + 1) ≤ 1350000 →
      ((minDistance g.floydDist node.state.pos mate.pos).bind fun e => checkedInt (d + e))
          = (minDistance g.floydDist node.state.pos mate.pos).map (fun e => d + e) ∧
        ∀ d', (minDistance g.floydDist node.state.pos mate.pos).map (fun e => d + e) = some d' →
          0 ≤ d' ∧ d' + 27000 * n ≤ 1350000 := by
    intro mate hmate n d hroom
    obtain ⟨v, hv, h0, hle⟩ := hb.distances mate.pos
      (List.mem_cons_of_mem _ (List.mem_map_of_mem hmate))
    rw [hv, Option.bind_some, Option.map_some, checkedInt_eq (by omega)]
    refine ⟨rfl, fun d' hd' => ?_⟩
    obtain rfl := Option.some.inj hd'
    omega
  have hlen := hm.mates
  obtain ⟨heq, hroom⟩ := foldlM_eq_of_room
    (fun (n : ℕ) (d : Int) => 0 ≤ d ∧ d + 27000 * n ≤ 1350000) o.teammates
    (fun mate hmate n d hroom => hstep mate hmate n d (by exact_mod_cast hroom))
    (s := 0) (by omega)
  refine ⟨heq, fun d hd => ?_⟩
  obtain ⟨h0, hle⟩ := hroom d hd
  omega

theorem Bounded.intShootingEnemies_eq :
    o.intShootingEnemies node.state = o.shootingEnemies node.state ∧
      ∀ n, o.shootingEnemies node.state = some n → 0 ≤ n ∧ n ≤ 50 := by
  have hstep : ∀ enemy ∈ o.enemies, ∀ (n : ℕ) (k : Int), 0 ≤ k ∧ k + (n + 1) ≤ 50 →
      ((o.intIsShooting node.state enemy).bind fun s => checkedCount (s = true) k 1)
          = (o.isShooting node.state enemy).map (fun s => k + boolToInt s) ∧
        ∀ k', (o.isShooting node.state enemy).map (fun s => k + boolToInt s) = some k' →
          0 ≤ k' ∧ k' + n ≤ 50 := by
    intro enemy henemy n k hroom
    rw [hb.intIsShooting_eq hm henemy]
    cases o.isShooting node.state enemy with
    | none => exact ⟨rfl, fun k' hk' => absurd hk' (by simp)⟩
    | some shooting =>
        rw [Option.bind_some, Option.map_some, checkedCount_eq (by omega)]
        cases shooting <;> simp [boolToInt] <;> omega
  have hlen := hm.enemies
  obtain ⟨heq, hroom⟩ := foldlM_eq_of_room
    (fun (n : ℕ) (k : Int) => 0 ≤ k ∧ k + n ≤ 50) o.enemies
    (fun enemy henemy n k hroom => hstep enemy henemy n k (by exact_mod_cast hroom))
    (s := 0) (by omega)
  refine ⟨heq, fun n hn => ?_⟩
  obtain ⟨h0, hle⟩ := hroom n hn
  omega

/-- **The score of a node does not overflow.** -/
theorem Bounded.intScoreState_eq : o.intScoreState g node.state = o.scoreState g node.state := by
  obtain ⟨hmates, hmatesDist⟩ := hb.intMatesDist_eq hm
  obtain ⟨henemies, hshooting⟩ := hb.intShootingEnemies_eq hm
  obtain ⟨targetDist, htarget, ht0, ht⟩ := hb.distances g.target List.mem_cons_self
  have hmateDamage := abs_le.mp hb.mateDamage
  have hdamage := abs_le.mp hb.damage
  have hkills := abs_le.mp hb.kills
  have hmedkit := boolToInt_bounds node.state.hasMedkit
  have hration := boolToInt_bounds node.state.hasFieldRation
  have hgrenade := boolToInt_bounds node.state.hasGrenade
  have hclose := boolToInt_bounds (o.closeToCommander node.state)
  unfold intScoreState scoreState
  rw [hmates, hb.intCloseToCommander_eq hm, henemies, htarget]
  cases hd : o.matesDist g node.state with
  | none => rfl
  | some d =>
      obtain ⟨hd0, hd⟩ := hmatesDist d hd
      cases hn : o.shootingEnemies node.state with
      | none => rfl
      | some n =>
          obtain ⟨hn0, hn⟩ := hshooting n hn
          simp only [Option.bind_eq_bind, Option.bind_some]
          by_cases hlen : o.teammates.length = 0
          · rw [if_pos hlen, if_pos hlen]
          · have hsize : toSizeT (60 * d) = 60 * d := Int.emod_eq_of_lt (by omega) (by omega)
            have hquot0 : 0 ≤ 60 * d / (o.teammates.length : Int) :=
              Int.ediv_nonneg (by omega) (Int.natCast_nonneg _)
            have hquot : 60 * d / (o.teammates.length : Int) ≤ 60 * d :=
              Int.ediv_le_self _ (by omega)
            rw [if_neg hlen, if_neg hlen, subTerm_eq (by omega) (by omega), Option.bind_some,
              addTerm_eq (by omega) (by omega), Option.bind_some,
              addTerm_eq (by omega) (by omega), Option.bind_some,
              subTerm_eq (by omega) (by omega), Option.bind_some,
              addTerm_eq (by omega) (by omega), Option.bind_some,
              addTerm_eq (by omega) (by omega), Option.bind_some,
              addTerm_eq (by omega) (by omega), Option.bind_some,
              checkedInt_eq (by omega), Option.bind_some,
              subQuotient_eq (by rw [hsize]; omega)]
            refine lastTerms_eq ?_ ⟨ht0, ht⟩ hclose
            rw [hsize]
            omega

/-! ## The branches -/

omit hb in
theorem Moderate.healing_eq {t : Trooper} (ht : t = o.self ∨ t ∈ o.teammates) {bonus : Int32}
    (hbonus : bonus ∈ o.game.amounts) {after' : Int → Option State} {after : Int → State}
    (hafter : ∀ heal, 0 < heal → heal ≤ 1000 → after' heal = some (after heal))
    (k : State → Option SearchVars) (s : SearchVars) :
    (checkedInt (t.maximalHitpoints.toInt - t.hitpoints.toInt)).bind (fun missing =>
        if min bonus.toInt missing > 0 then (after' (min bonus.toInt missing)).bind k else some s)
      = if healOf bonus t > 0 then k (after (healOf bonus t)) else some s := by
  have hmissing := hm.missing_le ht
  have hle := hm.game bonus hbonus
  rw [checkedInt_eq (by omega), Option.bind_some]
  split_ifs with hpos hheal hheal
  · rw [healOf, hafter _ hpos ((min_le_left ..).trans hle.2), Option.bind_some]
  · exact absurd hpos hheal
  · exact absurd hheal hpos
  · rfl

theorem Bounded.intHealBranch_eq (visit : Visit) (action : ActionType) {bonus selfBonus : Int32}
    (hbonus : bonus ∈ o.game.amounts) (hself : selfBonus ∈ o.game.amounts)
    {after' : Int → Option State} {after : Int → State}
    (hafter : ∀ heal, 0 < heal → heal ≤ 1000 → after' heal = some (after heal)) (points : Int)
    (s : SearchVars) :
    o.intHealBranch g visit action bonus selfBonus after' points node.state s
      = o.healBranch g visit action bonus selfBonus after points node.state s := by
  have hmates : o.teammates.foldlM (fun s mate =>
        (node.state.pos.intHasNeigh g.size mate.pos).bind fun near =>
          if near = true then
            (checkedInt (mate.maximalHitpoints.toInt - mate.hitpoints.toInt)).bind (fun missing =>
              if min bonus.toInt missing > 0 then (after' (min bonus.toInt missing)).bind fun new =>
                visit (makeActionAt action mate.pos) points new s else some s)
          else some s) s
      = o.teammates.foldlM (fun s mate =>
        if node.state.pos.hasNeigh g.size mate.pos then
          if healOf bonus mate > 0 then
            visit (makeActionAt action mate.pos) points (after (healOf bonus mate)) s
          else some s
        else some s) s := by
    refine (foldlM_eq_of_room (fun _ _ => True) o.teammates (fun mate hmate _ s _ => ?_)
      trivial).1
    refine ⟨?_, fun _ _ => trivial⟩
    rw [hb.size, Point.intHasNeigh_eq hm.board_lt hb.pos, Option.bind_some]
    by_cases hneigh : node.state.pos.hasNeigh o.world.size mate.pos = true
    · rw [if_pos hneigh, if_pos hneigh]
      exact hm.healing_eq (Or.inr hmate) hbonus hafter _ s
    · rw [if_neg hneigh, if_neg hneigh]
  have hown : ∀ s,
      (checkedInt (o.self.maximalHitpoints.toInt - o.self.hitpoints.toInt)).bind (fun missing =>
        if min selfBonus.toInt missing > 0 then
          (after' (min selfBonus.toInt missing)).bind fun new =>
            visit (makeActionAt action o.self.pos) points new s
        else some s)
      = if healOf selfBonus o.self > 0 then
          visit (makeActionAt action o.self.pos) points (after (healOf selfBonus o.self)) s
        else some s :=
    fun s => hm.healing_eq (Or.inl rfl) hself hafter _ s
  unfold intHealBranch healBranch
  simp only [Option.bind_eq_bind]
  rw [hmates]
  simp only [hown]
  rfl

theorem Bounded.pay_eq (step : Step) :
    checkedInt (node.points - o.cost node.state step)
      = some (node.points - o.cost node.state step) := by
  have hpoints := abs_le.mp hb.points
  have hcost := hm.cost_le node.state step
  exact checkedInt_eq (by omega)

omit hm in
theorem Bounded.credit_eq {heal : Int} (h0 : 0 < heal) (h : heal ≤ 1000) :
    checkedInt (node.state.mateDamage - heal) = some (node.state.mateDamage - heal) := by
  have hmateDamage := abs_le.mp hb.mateDamage
  exact checkedInt_eq (by omega)

variable (visit : Visit) (s : SearchVars)

theorem Bounded.intMedikitBranch_eq :
    o.intMedikitBranch g visit node.points node.state s
      = o.medikitBranch g visit node.points node.state s := by
  have hpay := hb.pay_eq hm (.useMedikit o.self 0)
  unfold intMedikitBranch medikitBranch
  simp only [cost] at hpay
  simp only [hpay, Option.bind_eq_bind, Option.bind_some]
  rw [hb.intHealBranch_eq hm visit .useMedikit (by simp [Game.amounts]) (by simp [Game.amounts])]
  intro heal h0 h
  rw [hb.credit_eq h0 h]
  rfl

theorem Bounded.intMedicBranch_eq :
    o.intMedicBranch g visit node.points node.state s
      = o.medicBranch g visit node.points node.state s := by
  have hpay := hb.pay_eq hm (.heal o.self 0)
  unfold intMedicBranch medicBranch
  simp only [cost] at hpay
  simp only [hpay, Option.bind_eq_bind, Option.bind_some]
  rw [hb.intHealBranch_eq hm visit .heal (by simp [Game.amounts]) (by simp [Game.amounts])]
  intro heal h0 h
  rw [hb.credit_eq h0 h]
  rfl

theorem Bounded.intAfterShot_eq {damage : Int}
    (hdealt : o.self.getDamage node.state.stance = some damage) (enemy : Trooper) :
    intAfterShot node.state damage enemy = some (afterShot node.state damage enemy) := by
  have hdamage := abs_le.mp hb.damage
  have hkills := abs_le.mp hb.kills
  have hhit := hm.damage_le hdealt
  rw [intAfterShot, checkedInt_eq (by omega), checkedCount_eq (by omega)]
  rfl

theorem Bounded.intShootBranch_eq :
    o.intShootBranch visit node.points node.state s
      = o.shootBranch visit node.points node.state s := by
  have hpay := hb.pay_eq hm (.shoot o.self 0)
  simp only [cost] at hpay
  unfold intShootBranch shootBranch
  simp only [hpay, Option.bind_eq_bind, Option.bind_some]
  congr 1
  refine (foldlM_eq_of_room (fun _ _ => True) o.enemies (fun enemy henemy _ s _ => ?_) trivial).1
  refine ⟨?_, fun _ _ => trivial⟩
  rw [hb.intSeesEnemy_eq hm henemy]
  cases hdealt : o.self.getDamage node.state.stance with
  | none => rfl
  | some damage =>
      simp only [Option.bind_some, hb.intAfterShot_eq hm hdealt]

/-- `n` more troopers can be hit. -/
def BlastRoom (n : ℕ) (state : State) : Prop :=
  (1000 * n - 700000 ≤ state.damage ∧ state.damage ≤ 700000 - 1000 * n) ∧
    (1000 * n - 700000 ≤ state.mateDamage ∧ state.mateDamage ≤ 700000 - 1000 * n) ∧
    (2 * n - 2000 ≤ state.kills ∧ state.kills ≤ 2000 - 2 * n)

omit hb in
theorem Moderate.hitEnemy (p : Point) (n : Trooper) {k : ℕ} {new : State}
    (hroom : BlastRoom (k + 1) new) :
    (if p.hasNeigh g.size n.pos = true then
        (checkedInt (new.damage + o.game.grenadeCollateralDamage.toInt)).bind fun dealt =>
          (checkedCount (o.game.grenadeCollateralDamage.toInt ≥ n.hitpoints.toInt) new.kills
            1).bind fun kills => some { new with damage := dealt, kills := kills }
      else some new)
      = some (if p.hasNeigh g.size n.pos = true then
        { new with
          damage := new.damage + o.game.grenadeCollateralDamage.toInt
          kills := if o.game.grenadeCollateralDamage.toInt ≥ n.hitpoints.toInt then new.kills + 1
            else new.kills }
      else new) ∧
    BlastRoom k (if p.hasNeigh g.size n.pos = true then
        { new with
          damage := new.damage + o.game.grenadeCollateralDamage.toInt
          kills := if o.game.grenadeCollateralDamage.toInt ≥ n.hitpoints.toInt then new.kills + 1
            else new.kills }
      else new) := by
  have hcollateral := hm.game o.game.grenadeCollateralDamage (by simp [Game.amounts])
  unfold BlastRoom at hroom ⊢
  push_cast at hroom
  refine ⟨checkedHit_eq (by omega) (by omega) (fun dealt kills =>
    { new with damage := dealt, kills := kills }) new, ?_⟩
  by_cases hn : p.hasNeigh g.size n.pos = true
  · rw [if_pos hn]
    dsimp only
    split_ifs <;> omega
  · rw [if_neg hn]
    omega

omit hb in
theorem Moderate.hitMate (p : Point) (n : Trooper) {k : ℕ} {new : State}
    (hroom : BlastRoom (k + 1) new) :
    (if p.hasNeigh g.size n.pos = true then
        (checkedInt (new.mateDamage + o.game.grenadeCollateralDamage.toInt)).bind fun dealt =>
          (checkedCount (o.game.grenadeCollateralDamage.toInt ≥ n.hitpoints.toInt) new.kills
            (-2)).bind fun kills => some { new with mateDamage := dealt, kills := kills }
      else some new)
      = some (if p.hasNeigh g.size n.pos = true then
        { new with
          mateDamage := new.mateDamage + o.game.grenadeCollateralDamage.toInt
          kills := if o.game.grenadeCollateralDamage.toInt ≥ n.hitpoints.toInt then new.kills - 2
            else new.kills }
      else new) ∧
    BlastRoom k (if p.hasNeigh g.size n.pos = true then
        { new with
          mateDamage := new.mateDamage + o.game.grenadeCollateralDamage.toInt
          kills := if o.game.grenadeCollateralDamage.toInt ≥ n.hitpoints.toInt then new.kills - 2
            else new.kills }
      else new) := by
  have hcollateral := hm.game o.game.grenadeCollateralDamage (by simp [Game.amounts])
  unfold BlastRoom at hroom ⊢
  push_cast at hroom
  refine ⟨checkedHit_eq (by omega) (by omega) (fun dealt kills =>
    { new with mateDamage := dealt, kills := kills }) new, ?_⟩
  by_cases hn : p.hasNeigh g.size n.pos = true
  · rw [if_pos hn]
    dsimp only
    split_ifs <;> omega
  · rw [if_neg hn]
    omega

theorem Bounded.intAfterGrenade_eq {enemy : Trooper} (henemy : enemy ∈ o.enemies) :
    o.intAfterGrenade g node.state enemy = some (o.afterGrenade g node.state enemy) := by
  have hdirect := hm.game o.game.grenadeDirectDamage (by simp [Game.amounts])
  have henemies := hm.enemies
  have hmates := hm.mates
  have hdamage := abs_le.mp hb.damage
  have hmateDamage := abs_le.mp hb.mateDamage
  have hkills := abs_le.mp hb.kills
  have hneigh : ∀ n : Trooper,
      enemy.pos.intHasNeigh g.size n.pos = some (enemy.pos.hasNeigh g.size n.pos) := fun n => by
    rw [hb.size]
    exact Point.intHasNeigh_eq hm.board_lt (hm.enemy_placed enemy henemy).1 n.pos
  -- the loop over the enemies starts with room for everyone on the board
  have hroom : BlastRoom (o.enemies.length + o.teammates.length) { node.state with
      damage := node.state.damage + o.game.grenadeDirectDamage.toInt
      kills := if o.game.grenadeDirectDamage.toInt ≥ enemy.hitpoints.toInt then
        node.state.kills + 1 else node.state.kills } := by
    unfold BlastRoom
    push_cast
    split_ifs <;> omega
  obtain ⟨hfoes, hroom⟩ := foldlM_eq_some_of_room (fun k => BlastRoom (k + o.teammates.length))
    o.enemies (fun n _ k new hnew =>
      hm.hitEnemy (g := g) enemy.pos n (by rwa [Nat.add_right_comm])) hroom
  rw [Nat.zero_add] at hroom
  obtain ⟨hteam, _⟩ := foldlM_eq_some_of_room BlastRoom o.teammates
    (fun n _ k new hnew => hm.hitMate (g := g) enemy.pos n hnew) hroom
  unfold intAfterGrenade afterGrenade
  simp only [hneigh, Option.bind_eq_bind, Option.bind_some]
  rw [checkedInt_eq (by omega), Option.bind_some, checkedCount_eq (by omega), Option.bind_some]
  rw [hfoes, Option.bind_some, hteam, Option.bind_some]

theorem Bounded.intGrenadeBranch_eq :
    o.intGrenadeBranch g visit node.points node.state s
      = o.grenadeBranch g visit node.points node.state s := by
  have hpay := hb.pay_eq hm (.throwGrenade o.self)
  simp only [cost] at hpay
  unfold intGrenadeBranch grenadeBranch
  simp only [hpay, Option.bind_eq_bind, Option.bind_some]
  congr 2
  refine (foldlM_eq_of_room (fun _ _ => True) o.enemies (fun enemy henemy _ s _ => ?_) trivial).1
  refine ⟨?_, fun _ _ => trivial⟩
  rw [hb.intInGrenadeRange_eq hm henemy, hb.intAfterGrenade_eq hm henemy]
  simp only [Option.bind_some]

theorem Bounded.intMoveBranch_eq :
    o.intMoveBranch g visit node.points node.state s
      = o.moveBranch g visit node.points node.state s := by
  have hpay := hb.pay_eq hm (.move node.state.pos)
  simp only [cost] at hpay
  have hpos : node.state.pos.isCorrect g.size = true := by
    rw [hb.size]
    exact hb.pos
  have hsides : g.size.sizeX < 2 ^ 31 ∧ g.size.sizeY < 2 ^ 31 := by
    obtain ⟨hx, hy⟩ := Point.sides_lt hm.board_lt hb.pos
    rw [hb.size]
    exact ⟨by omega, by omega⟩
  unfold intMoveBranch moveBranch
  simp only [hpay, Point.intNeighs_eq hsides hpos, Option.bind_eq_bind, Option.bind_some]

theorem Bounded.intStanceBranch_eq :
    o.intStanceBranch visit node.points node.state s
      = o.stanceBranch visit node.points node.state s := by
  have hpay := hb.pay_eq hm .raiseStance
  simp only [cost] at hpay
  unfold intStanceBranch stanceBranch
  simp only [hpay, Option.bind_eq_bind, Option.bind_some]

theorem Bounded.intRationBranch_eq :
    o.intRationBranch visit node.points node.state s
      = o.rationBranch visit node.points node.state s := by
  have hpoints := abs_le.mp hb.points
  have hcost := hm.cost_le node.state .eatFieldRation
  have hration := hm.game o.game.fieldRationBonusActionPoints (by simp [Game.amounts])
  have hpay := hb.pay_eq hm .eatFieldRation
  simp only [cost] at hpay hcost
  have hgain := @checkedInt_eq (node.points - o.game.fieldRationEatCost.toInt
    + o.game.fieldRationBonusActionPoints.toInt) (by omega)
  unfold intRationBranch rationBranch
  simp only [hpay, hgain, Option.bind_eq_bind, Option.bind_some]

end Node

/-! ## The nodes of the search -/

section Plans

variable {turn : Turn} {o : SlavaStrategy} {g₀ g₁ g : Globals}

theorem Moderate.bounded (hm : o.Moderate) {path : List Step} {node : Node}
    (hrun : o.Run g o.root path node) (hlen : path.length ≤ 10) (hsize : g.size = o.world.size)
    (hpos : node.state.pos.isCorrect o.world.size = true)
    (hstance : node.state.stance ∈ allStances)
    (hdistances : ∀ q ∈ g.target :: o.teammates.map Trooper.pos,
      ∃ v, minDistance g.floydDist node.state.pos q = some v ∧ 0 ≤ v ∧ v ≤ 27000) :
    o.Bounded g node := by
  have hdrift : ∀ (f : Node → Int) (c : Int),
      (∀ node, ∀ step ∈ o.steps g node, |f (o.next g node step) - f node| ≤ c) →
      |f node - f o.root| ≤ c * path.length := fun f c hstep =>
    DepthFirst.Run.drift f (fun s e he => by
      obtain ⟨hmem, hnext⟩ := (o.mem_children_iff g s e).mp he
      rw [hnext]
      exact hstep s e.1 hmem) hrun
  have hpoints := abs_le.mp (hdrift Node.points 2000 fun node step _ => hm.pointsAfter_le node step)
  have hmateDamage := abs_le.mp (hdrift (fun node => node.state.mateDamage) 50000
    fun node step hstep => by
      rw [next_mateDamage, add_sub_cancel_left]
      exact hm.mateDamageOf_le hstep)
  have hdamage := abs_le.mp (hdrift (fun node => node.state.damage) 51000
    fun node step hstep => by
      rw [next_damage, add_sub_cancel_left]
      exact hm.damageOf_le hstep)
  have hkills := abs_le.mp (hdrift (fun node => node.state.kills) 151 fun node step _ => by
    rw [next_kills, add_sub_cancel_left]
    exact hm.killsOf_le step)
  have hroot : o.root.points = o.self.actionPoints.toInt ∧ o.root.state.mateDamage = 0 ∧
      o.root.state.damage = 0 ∧ o.root.state.kills = 0 := by
    simp [root, enter, initialState]
  obtain ⟨hroot₁, hroot₂, hroot₃, hroot₄⟩ := hroot
  have hstart := hm.self o.self.actionPoints (by simp [Trooper.amounts])
  refine ⟨hsize, hpos, hstance, ?_, ?_, ?_, ?_, hdistances⟩ <;> rw [abs_le] <;> omega

/-- **The search does not overflow**, by induction on the levels that are left. -/
theorem Moderate.intMaximizeScore_eq (hm : o.Moderate)
    (hbounded : ∀ path node, o.Run g o.root path node → path.length ≤ 10 → o.Bounded g node)
    (left : ℕ) {path : List Step} {points : Int} {state : State}
    (hrun : o.Run g o.root path (o.enter points state)) (hlen : path.length + left = 10)
    (s : SearchVars) :
    o.intMaximizeScore g left points state s = o.maximizeScore g left points state s := by
  induction left generalizing path points state s with
  | zero =>
      have hscore := (hbounded path _ hrun (by omega)).intScoreState_eq hm
      simp only [enter] at hscore
      rw [intMaximizeScore, maximizeScore, hscore]
  | succ left ih =>
      have hb := hbounded path _ hrun (by omega)
      rw [intMaximizeScore, maximizeScore]
      generalize hnode : o.enter points state = node at hrun hb
      obtain rfl : points = node.points := by rw [← hnode]; rfl
      have hstate : pickUp o.world.bonuses state = node.state := by rw [← hnode]; rfl
      dsimp only
      simp only [hstate, hb.intScoreState_eq hm, hb.intMedikitBranch_eq hm,
        hb.intGrenadeBranch_eq hm, hb.intMedicBranch_eq hm, hb.intShootBranch_eq hm,
        hb.intMoveBranch_eq hm, hb.intStanceBranch_eq hm, hb.intRationBranch_eq hm,
        branches_eq o g _ node]
      -- every edge leads to a node one step further from the root
      have hvisit : ∀ step ∈ o.steps g node, ∀ s,
          o.visitStep g (fun action points newState s => o.intMaximizeScore g left points newState
              (if left + 1 = 10 then { s with cur := action } else s)) node s step
            = o.visitStep g (fun action points newState s => o.maximizeScore g left points newState
              (if left + 1 = 10 then { s with cur := action } else s)) node s step :=
        fun step hstep s => @ih (path ++ [step]) _ _
          (hrun.snoc ((o.mem_children_iff g node _).mpr ⟨hstep, rfl⟩))
          (by rw [List.length_append, List.length_singleton]; omega) _
      have hloop : ∀ s, (o.steps g node).foldlM (o.visitStep g (fun action points newState s =>
              o.intMaximizeScore g left points newState
                (if left + 1 = 10 then { s with cur := action } else s)) node) s
            = (o.steps g node).foldlM (o.visitStep g (fun action points newState s =>
              o.maximizeScore g left points newState
                (if left + 1 = 10 then { s with cur := action } else s)) node) s := fun s =>
        (foldlM_eq_of_room (fun _ _ => True) _
          (fun step hstep _ s _ => ⟨hvisit step hstep s, fun _ _ => trivial⟩) trivial).1
      simp only [hloop]

end Plans

/-! ## An overflow -/

section Overflow

variable {o : SlavaStrategy} {g : Globals} {state : State}

/-- Where `mates_dist` does not overflow it is the sum of the distances. -/
theorem matesDist_of_intMatesDist {d : Int} (h : o.intMatesDist g state = some d) :
    o.matesDist g state = some d := by
  refine foldlM_of_checked (fun d mate _ d' hd' => ?_) h
  obtain ⟨e, he, hsum⟩ := Option.bind_eq_some_iff.mp hd'
  rw [he, Option.map_some, (eq_of_checkedInt hsum).1]

/-- A score has computed sixty times `mates_dist` as an `int`. -/
theorem exists_intMatesDist {score : Int} (h : o.intScoreState g state = some score) :
    ∃ d, o.intMatesDist g state = some d ∧ 60 * d < 2 ^ 31 := by
  have hpeel : ∀ {α : Type} {x : Option α} {f : α → Option Int}, x.bind f = some score →
      ∃ a, x = some a ∧ f a = some score := Option.bind_eq_some_iff.mp
  obtain ⟨d, hd, h⟩ := hpeel h
  obtain ⟨_, _, h⟩ := hpeel h
  obtain ⟨_, _, h⟩ := hpeel h
  obtain ⟨_, _, h⟩ := hpeel h
  by_cases hlen : o.teammates.length = 0
  · rw [if_pos hlen] at h
    exact absurd h (by simp)
  · rw [if_neg hlen] at h
    -- the seven terms before it
    obtain ⟨_, _, h⟩ := hpeel h
    obtain ⟨_, _, h⟩ := hpeel h
    obtain ⟨_, _, h⟩ := hpeel h
    obtain ⟨_, _, h⟩ := hpeel h
    obtain ⟨_, _, h⟩ := hpeel h
    obtain ⟨_, _, h⟩ := hpeel h
    obtain ⟨_, _, h⟩ := hpeel h
    obtain ⟨term, hterm, _⟩ := hpeel h
    exact ⟨d, hd, (eq_of_checkedInt hterm).2.2⟩

end Overflow

/-! ## A whole move -/

theorem intRun_of_targetLoop (o : SlavaStrategy) {rand : ℕ → ℕ} {fuel : ℕ} {g g' : Globals}
    (hloop : targetLoop rand o fuel (o.resetTarget g) = some (true, g')) :
    o.intRun rand fuel g
      = (o.intMaximizeScore g' 10 o.self.actionPoints.toInt o.initialState initialVars).map
          fun s => (s, g') := by
  rw [intRun, hloop, Option.map_eq_bind]
  rfl

section Search

variable {rand : ℕ → ℕ} {fuel : ℕ} {turn : Turn} {g₀ g₁ g : Globals} {o : SlavaStrategy}
  (hturn : turn.Consistent)
  (hcon : construct turn.self turn.world turn.game g₀ = some (o, g₁))
  (hfloyd : floyd turn.world.size turn.world.cells [] = some g₁.floydDist)
  (hloop : targetLoop rand o fuel (o.resetTarget g₁) = some (true, g))

include hturn hcon hfloyd hloop

/-- From everywhere a plan leads, connected cells are near. -/
theorem distances_of_reachable
    (hreach : ∀ mate ∈ o.teammates,
      (freeGraph turn.world.size turn.world.cells).Reachable turn.self.pos mate.pos)
    {p : List Step × Node} (hp : p ∈ o.plans g 10 o.root) :
    ∀ q ∈ g.target :: o.teammates.map Trooper.pos,
      ∃ v, minDistance g.floydDist p.2.state.pos q = some v ∧ 0 ≤ v ∧ v ≤ 27000 := by
  have hfree := hturn.length_freePoints_le
  have hcard := hturn.card_freePoints_le
  obtain ⟨ht, hself, htarget, -⟩ := exactTable_of_targetLoop hcon hturn.cells hfree hfloyd hloop
  obtain ⟨w, -⟩ := exists_walk_of_targetLoop hcon hturn.cells hfree hfloyd hloop hp
  obtain ⟨r, hadj⟩ : ∃ r, (freeGraph turn.world.size turn.world.cells).Adj p.2.state.pos r := by
    by_cases hend : p.2.state.pos = g.target
    · rw [hend]
      exact exists_adj_of_reachable hself.symm htarget.symm
    · exact exists_adj_of_reachable hend (w.reverse.reachable.trans htarget)
  intro q hq
  have hreach' : (freeGraph turn.world.size turn.world.cells).Reachable turn.self.pos q := by
    rcases List.mem_cons.mp hq with rfl | hq
    · exact htarget
    · obtain ⟨mate, hmate, rfl⟩ := List.mem_map.mp hq
      exact hreach mate hmate
  obtain ⟨v, hv, h0, hle⟩ := ht.exists_le_card hadj (w.reverse.reachable.trans hreach')
  exact ⟨v, hv, h0, by omega⟩

/-- The values of the search are small wherever a plan leads. -/
theorem bounded_of_reachable (hmoderate : turn.Moderate) (hsize : g₁.size = turn.world.size)
    (hreach : ∀ mate ∈ o.teammates,
      (freeGraph turn.world.size turn.world.cells).Reachable turn.self.pos mate.pos)
    {p : List Step × Node} (hp : p ∈ o.plans g 10 o.root) : o.Bounded g p.2 := by
  have hc := constructed_construct hcon
  obtain ⟨hrun, hlen⟩ := (o.mem_plans_iff g 10 o.root p).mp hp
  have hinside := Run.inside hturn hc hrun
  refine (Moderate.of_constructed hturn hmoderate hc).bounded hrun hlen ?_ ?_ hinside.stance
    (distances_of_reachable hturn hcon hfloyd hloop hreach hp)
  · rw [hc.world_eq, (exists_minDistance_of_targetLoop hloop).1, hsize]
  · rw [hc.world_eq]
    exact hinside.isCorrect hturn

/-- The distance to a teammate that is not connected is too much for the first score. -/
theorem intScoreState_root_eq_none {mate : Trooper} (hmate : mate ∈ o.teammates)
    (hunreachable :
      ¬ (freeGraph turn.world.size turn.world.cells).Reachable turn.self.pos mate.pos) :
    o.intScoreState g o.root.state = none := by
  obtain ⟨ht, _⟩ :=
    exactTable_of_targetLoop hcon hturn.cells hturn.length_freePoints_le hfloyd hloop
  have hc := constructed_construct hcon
  have hroot : o.root.state.pos = turn.self.pos := by rw [o.root_state.2.1, hc.self_eq]
  refine Option.eq_none_iff_forall_ne_some.mpr fun score hscore => ?_
  obtain ⟨d, hd, hlt⟩ := exists_intMatesDist hscore
  have hexact := matesDist_of_intMatesDist hd
  rw [matesDist_eq, Option.map_eq_some_iff] at hexact
  obtain ⟨distances, hrun, rfl⟩ := hexact
  have hself := hturn.self_placed.1
  rw [← hroot] at hself hunreachable
  have hinf := ht.unconnected _ _ hself (mate_placed hturn hc hmate).1 hunreachable
  have hmem := mem_of_mapM hrun hmate hinf
  obtain ⟨distances', hrun', _, hnonneg⟩ := exists_mapM _ (fun v => 0 ≤ v) o.teammates
    fun mate' hmate' => ht.exists_nonneg hself (mate_placed hturn hc hmate').1
  obtain rfl : distances' = distances := Option.some.inj (hrun'.symm.trans hrun)
  have hle := List.single_le_sum hnonneg inf hmem
  unfold inf at hle
  omega

/-- With a connected team nothing overflows, and every access is defined. -/
theorem exists_intRun (hmoderate : turn.Moderate) (hsize : g₁.size = turn.world.size)
    (hreach : ∀ mate ∈ o.teammates,
      (freeGraph turn.world.size turn.world.cells).Reachable turn.self.pos mate.pos) :
    ∃ s, o.intRun rand fuel g₁ = some (s, g) ∧ o.run rand fuel g₁ = some (s, g) := by
  have hc := constructed_construct hcon
  have hm := Moderate.of_constructed hturn hmoderate hc
  have hbounded : ∀ path node, o.Run g o.root path node → path.length ≤ 10 → o.Bounded g node :=
    fun path node hpath hlen => bounded_of_reachable hturn hcon hfloyd hloop hmoderate hsize hreach
      ((o.mem_plans_iff g 10 o.root (path, node)).mpr ⟨hpath, hlen⟩)
  have hsearch : o.intMaximizeScore g 10 o.self.actionPoints.toInt o.initialState initialVars
      = o.search g := hm.intMaximizeScore_eq hbounded 10 (.nil o.root) rfl initialVars
  -- the exact search is defined
  obtain ⟨hsize', htable, d, hd, _⟩ := exists_minDistance_of_targetLoop hloop
  obtain ⟨t, _, hexact, hrep, _⟩ := exists_floyd hturn.cells
  have hfits : TableFits turn.world.size g.floydDist := by
    rw [hfloyd, Option.some.injEq] at hexact
    rw [htable, hexact]
    exact hrep.fits
  have hon : g.target.isCorrect turn.world.size = true := by
    rw [htable] at hfits
    exact (hfits.isCorrect_of_minDistance hd).2
  have hdef : o.Defined g 10 o.root :=
    (inside_root hturn hc).defined hturn hc (hsize'.trans hsize) hfits hon 10
  have hsome := o.search_eq g
  rw [if_pos hdef] at hsome
  exact ⟨_, by rw [o.intRun_of_targetLoop hloop, hsearch, hsome]; rfl,
    (run_eq_some_iff ..).mpr ⟨hloop, hsome⟩⟩

/-- **When the integers of the machine are enough.** A moderate move that has found its target is
    the exact one, with every access defined and no overflow on the way, if every teammate is
    connected to the trooper's cell. One that is not overflows in the first score, and the move is
    undefined. -/
theorem intRun_eq (hmoderate : turn.Moderate) (hsize : g₁.size = turn.world.size) :
    ((∀ mate ∈ o.teammates,
        (freeGraph turn.world.size turn.world.cells).Reachable turn.self.pos mate.pos) →
      ∃ s, o.intRun rand fuel g₁ = some (s, g) ∧ o.run rand fuel g₁ = some (s, g)) ∧
    ((∃ mate ∈ o.teammates,
        ¬ (freeGraph turn.world.size turn.world.cells).Reachable turn.self.pos mate.pos) →
      o.intRun rand fuel g₁ = none) := by
  constructor
  · intro hreach
    exact exists_intRun hturn hcon hfloyd hloop hmoderate hsize hreach
  · intro hunreachable
    obtain ⟨mate, hmate, hunreachable⟩ := hunreachable
    have hscore := intScoreState_root_eq_none hturn hcon hfloyd hloop hmate hunreachable
    have hroot : pickUp o.world.bonuses o.initialState = o.root.state := rfl
    rw [o.intRun_of_targetLoop hloop, intMaximizeScore]
    dsimp only
    rw [hroot, hscore]
    rfl

end Search

end SlavaStrategy

theorem yardTurn_moderate : yardTurn.Moderate := by decide

theorem commanderTurn_moderate : commanderTurn.Moderate := by decide

theorem yardTurn_reachable : ∀ mate ∈ yardStrategy.teammates,
    (freeGraph ⟨4, 3⟩ yardCells).Reachable ⟨1, 0⟩ mate.pos := by
  intro mate hmate
  obtain rfl | rfl : mate = yardMedic ∨ mate = yardCommander := by
    simpa [yardStrategy] using hmate
  · exact SimpleGraph.Reachable.refl _
  · exact yard_reachable.symm

theorem splitTurn_consistent : splitTurn.Consistent where
  cells := ⟨by decide, by decide, by decide⟩
  visibilities := by
    rw [show splitTurn.world.cellVisibilities.length = 243 from List.length_replicate]
    decide
  visibilities_lt := by
    rw [show splitTurn.world.cellVisibilities.length = 243 from List.length_replicate]
    decide
  self_placed := by decide
  placed := by decide
  teammate := ⟨woundedTrooper, List.mem_cons_self, rfl⟩

theorem splitTurn_unreachable : ¬ (freeGraph ⟨9, 1⟩ splitCells).Reachable ⟨0, 0⟩ ⟨8, 0⟩ := by
  intro hreach
  have ht := ExactTable.of_floyd cellsFit_split (by decide) floyd_split
  have hadj : (freeGraph ⟨9, 1⟩ splitCells).Adj ⟨0, 0⟩ ⟨1, 0⟩ := by
    show FreeCell _ _ _ ∧ FreeCell _ _ _ ∧ _
    unfold FreeCell
    decide
  have hinf : minDistance (splitGlobals ⟨0, 0⟩ 0).floydDist ⟨0, 0⟩ ⟨8, 0⟩ = some inf := by decide
  have hcard : (freePoints ⟨9, 1⟩ splitCells).length = 8 := by decide
  obtain ⟨v, hv, _, hle⟩ := ht.exists_le_card hadj hreach
  obtain rfl : v = inf := Option.some.inj (hv.symm.trans hinf)
  rw [hcard] at hle
  exact absurd hle (by decide)

/-- The medic whose commander is next to it, and the trooper behind the covered cell. -/
theorem intRun_eq_yard_split :
    (∃ s, yardStrategy.intRun (fun _ => 8) 1 openingGlobals = some (s, yardGlobals) ∧
      yardStrategy.run (fun _ => 8) 1 openingGlobals = some (s, yardGlobals)) ∧
    splitStrategy.intRun (fun _ => 6) 1 (splitGlobals ⟨0, 0⟩ 0) = none := by
  constructor
  · exact (SlavaStrategy.intRun_eq yardTurn_consistent construct_yard floyd_yard
      (targetLoop_yard rfl) yardTurn_moderate rfl).1 yardTurn_reachable
  · exact (SlavaStrategy.intRun_eq splitTurn_consistent construct_split floyd_split targetLoop_split
      (by decide) rfl).2 ⟨_, List.mem_cons_of_mem _ List.mem_cons_self, splitTurn_unreachable⟩

end CodeTroopers
