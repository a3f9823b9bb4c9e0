import CodeTroopers.Strategy.BestPlan
import CodeTroopers.Strategy.PlanRuns

set_option autoImplicit false

/-! # More resources never hurt

Two troopers differ only in that the second has more action points and more items. The searches of
the two differ in shape, since the second trooper can pay for more steps and starts them from more
items; but every step the first one takes, the second one can take, and what it then holds is still
no less (`NodeLe.next`, `exists_step`): a used item is barred from being picked up again in both
plans alike, since the flags of used items are the same. The scores compare along the way. -/

namespace CodeTroopers

/-- The second trooper differs from the first only by more action points and more items. -/
structure Trooper.MoreResources (t t' : Trooper) : Prop where
  same : t' = { t with
    actionPoints := t'.actionPoints, holdingGrenade := t'.holdingGrenade
    holdingMedikit := t'.holdingMedikit, holdingFieldRation := t'.holdingFieldRation }
  points : t.actionPoints.toInt ≤ t'.actionPoints.toInt
  grenade : t.holdingGrenade = true → t'.holdingGrenade = true
  medikit : t.holdingMedikit = true → t'.holdingMedikit = true
  fieldRation : t.holdingFieldRation = true → t'.holdingFieldRation = true

/-- The second node differs from the first only by more action points and more items. -/
structure NodeLe (node node' : Node) : Prop where
  points : node.points ≤ node'.points
  pos : node'.state.pos = node.state.pos
  stance : node'.state.stance = node.state.stance
  mateDamage : node'.state.mateDamage = node.state.mateDamage
  damage : node'.state.damage = node.state.damage
  kills : node'.state.kills = node.state.kills
  usedFieldRation : node'.state.usedFieldRation = node.state.usedFieldRation
  usedGrenade : node'.state.usedGrenade = node.state.usedGrenade
  hasMedkit : node.state.hasMedkit = true → node'.state.hasMedkit = true
  hasFieldRation : node.state.hasFieldRation = true → node'.state.hasFieldRation = true
  hasGrenade : node.state.hasGrenade = true → node'.state.hasGrenade = true

/-- Steps with the same effect: the patient of a heal may be another one. -/
inductive Step.Like : Step → Step → Prop where
  | refl (step : Step) : Like step step
  | useMedikit (patient patient' : Trooper) (amount : Int) :
      Like (.useMedikit patient amount) (.useMedikit patient' amount)
  | heal (patient patient' : Trooper) (amount : Int) :
      Like (.heal patient amount) (.heal patient' amount)

namespace SlavaStrategy

/-- Two strategy objects that differ only in the resources of the trooper, and globals that agree in
    all the search reads. -/
structure Outfitted (o : SlavaStrategy) (g : Globals) (o' : SlavaStrategy) (g' : Globals) :
    Prop where
  self : o.self.MoreResources o'.self
  world : o'.world = o.world
  game : o'.game = o.game
  teammates : o'.teammates = o.teammates
  enemies : o'.enemies = o.enemies
  stances : o'.stances = o.stances
  cells : ∀ p, cellAt o'.cells p = cellAt o.cells p
  size : g'.size = g.size
  table : g'.floydDist = g.floydDist
  target : g'.target = g.target

section Compare

variable {o o' : SlavaStrategy} {g g' : Globals} (h : Outfitted o g o' g')

include h

theorem Outfitted.self_eq : o'.self.pos = o.self.pos ∧ o'.self.stance = o.self.stance ∧
    o'.self.type = o.self.type ∧ o'.self.shootCost = o.self.shootCost ∧
    o'.self.shootingRange = o.self.shootingRange ∧ o'.self.getDamage = o.self.getDamage ∧
    ∀ bonus, healOf bonus o'.self = healOf bonus o.self := by
  rw [h.self.same]
  exact ⟨rfl, rfl, rfl, rfl, rfl, rfl, fun _ => rfl⟩

theorem Outfitted.root : NodeLe o.root o'.root := by
  obtain ⟨hpos, hstance, _⟩ := h.self_eq
  have hmedikit := h.self.medikit
  have hration := h.self.fieldRation
  have hgrenade := h.self.grenade
  refine ⟨h.self.points, ?_, ?_, ?_, ?_, ?_, ?_, ?_, ?_, ?_, ?_⟩ <;>
    simp only [SlavaStrategy.root, enter, initialState, pickUp_pos, pickUp_stance,
      pickUp_mateDamage, pickUp_damage, pickUp_kills, pickUp_usedFieldRation, pickUp_usedGrenade,
      pickUp_hasMedkit, pickUp_hasFieldRation, pickUp_hasGrenade, h.world, hpos, hstance,
      Bool.or_eq_true]
  · exact Or.imp_left hmedikit
  · exact Or.imp_left hration
  · exact Or.imp_left hgrenade

/-! ## Steps -/

theorem Outfitted.blast_eq (enemy : Trooper) :
    o'.blastEnemies g' enemy = o.blastEnemies g enemy ∧
      o'.blastMates g' enemy = o.blastMates g enemy := by
  simp only [blastEnemies, blastMates, h.enemies, h.teammates, h.size, and_self]

variable {node node' : Node} (hle : NodeLe node node')

include hle

theorem Outfitted.cost_eq {step step' : Step} (hlike : step.Like step') :
    o'.cost node'.state step' = o.cost node.state step := by
  obtain ⟨_, _, _, hshoot, _⟩ := h.self_eq
  cases hlike with
  | refl => cases step <;> simp [cost, moveCost, h.game, hshoot, hle.stance]
  | useMedikit => simp [cost, h.game]
  | heal => simp [cost, h.game]

/-- **What the first trooper can do, the second can.** -/
theorem Outfitted.exists_step {step : Step} (hstep : step ∈ o.steps g node) :
    ∃ step' ∈ o'.steps g' node', step.Like step' := by
  obtain ⟨hcost, henabled⟩ := (o.mem_steps_iff g node step).mp hstep
  obtain ⟨_, _, htype, _, hrange, hdamage, hheal⟩ := h.self_eq
  -- it is enough to find a step of the same effect that the state allows
  have hpaid : ∀ step', step.Like step' → o'.Enabled g' node'.state step' →
      ∃ step' ∈ o'.steps g' node', step.Like step' := by
    intro step' hlike hen
    refine ⟨step', (o'.mem_steps_iff g' node' step').mpr ⟨?_, hen⟩, hlike⟩
    rw [h.cost_eq hle hlike]
    exact hcost.trans hle.points
  have hpatient : ∀ {bonus selfBonus : Int32} {patient : Trooper} {heal : Int},
      o.HealEnabled g node.state bonus selfBonus patient heal →
        ∃ patient', o'.HealEnabled g' node'.state bonus selfBonus patient' heal := by
    intro bonus selfBonus patient heal hen
    obtain ⟨hpos, ⟨hmem, hneigh, hamount⟩ | ⟨_, hamount⟩⟩ := hen
    · refine ⟨patient, hpos, Or.inl ⟨?_, ?_, hamount⟩⟩
      · rw [h.teammates]
        exact hmem
      · rw [h.size, hle.pos]
        exact hneigh
    · exact ⟨o'.self, hpos, Or.inr ⟨rfl, by rw [hheal]; exact hamount⟩⟩
  cases step with
  | useMedikit patient heal =>
      obtain ⟨hhas, hen⟩ := henabled
      obtain ⟨patient', hen'⟩ := hpatient hen
      refine hpaid _ (.useMedikit patient patient' heal) ⟨hle.hasMedkit hhas, ?_⟩
      rw [h.game]
      exact hen'
  | throwGrenade enemy =>
      obtain ⟨hhas, hmem, hrange⟩ := henabled
      refine hpaid _ (.refl _) ⟨hle.hasGrenade hhas, by rw [h.enemies]; exact hmem, ?_⟩
      rw [inGrenadeRange, hle.pos, h.game]
      exact hrange
  | heal patient heal =>
      obtain ⟨hmedic, hen⟩ := henabled
      obtain ⟨patient', hen'⟩ := hpatient hen
      refine hpaid _ (.heal patient patient' heal) ⟨by rw [htype]; exact hmedic, ?_⟩
      rw [h.game]
      exact hen'
  | shoot enemy damage =>
      obtain ⟨hmem, hsees, hdealt⟩ := henabled
      refine hpaid _ (.refl _) ⟨by rw [h.enemies]; exact hmem, ?_, ?_⟩
      · rw [seesEnemy, h.world, hrange, hle.pos, hle.stance]
        exact hsees
      · rw [hdamage, hle.stance]
        exact hdealt
  | move n =>
      obtain ⟨hneigh, hfree⟩ := henabled
      refine hpaid _ (.refl _) ⟨?_, by rw [h.cells]; exact hfree⟩
      rw [h.size, hle.pos]
      exact hneigh
  | raiseStance => exact hpaid _ (.refl _) (by simpa [Enabled, hle.stance] using henabled)
  | lowerStance => exact hpaid _ (.refl _) (by simpa [Enabled, hle.stance] using henabled)
  | eatFieldRation => exact hpaid _ (.refl _) (hle.hasFieldRation henabled)

/-- **A step of the same effect keeps the second node ahead.** -/
theorem Outfitted.next {step step' : Step} (hlike : step.Like step') :
    NodeLe (o.next g node step) (o'.next g' node' step') := by
  have hcost := h.cost_eq hle hlike
  have hpoints : (o.next g node step).points ≤ (o'.next g' node' step').points := by
    have hle := hle.points
    show o.pointsAfter node step ≤ o'.pointsAfter node' step'
    cases hlike with
    | refl => cases step <;> simp only [pointsAfter, hcost, h.game] <;> omega
    | useMedikit => simp only [pointsAfter, hcost]; omega
    | heal => simp only [pointsAfter, hcost]; omega
  have hpos : (o'.next g' node' step').state.pos = (o.next g node step).state.pos := by
    rw [next_pos, next_pos, hle.pos]
    cases hlike <;> rfl
  have husedRation : (o'.next g' node' step').state.usedFieldRation
      = (o.next g node step).state.usedFieldRation := by
    rw [next_usedFieldRation, next_usedFieldRation, hle.usedFieldRation]
    cases hlike <;> rfl
  have husedGrenade : (o'.next g' node' step').state.usedGrenade
      = (o.next g node step).state.usedGrenade := by
    rw [next_usedGrenade, next_usedGrenade, hle.usedGrenade]
    cases hlike <;> rfl
  refine ⟨hpoints, hpos, ?_, ?_, ?_, ?_, husedRation, husedGrenade, ?_, ?_, ?_⟩
  · rw [next_stance, next_stance, hle.stance]
    cases hlike <;> rfl
  · rw [next_mateDamage, next_mateDamage, hle.mateDamage]
    cases hlike with
    | refl => cases step <;> simp only [mateDamageOf, h.game, (h.blast_eq _).2]
    | useMedikit => rfl
    | heal => rfl
  · rw [next_damage, next_damage, hle.damage]
    cases hlike with
    | refl => cases step <;> simp only [damageOf, h.game, (h.blast_eq _).1]
    | useMedikit => rfl
    | heal => rfl
  · rw [next_kills, next_kills, hle.kills]
    cases hlike with
    | refl =>
        cases step <;>
          simp only [killsOf, grenadeKills, h.game, (h.blast_eq _).1, (h.blast_eq _).2]
    | useMedikit => rfl
    | heal => rfl
  · rw [next_hasMedkit, next_hasMedkit, hpos, h.world, Bool.or_eq_true, Bool.or_eq_true]
    refine Or.imp_left ?_
    cases hlike with
    | refl => cases step <;> first | exact hle.hasMedkit | exact id
    | useMedikit => exact id
    | heal => exact hle.hasMedkit
  · -- the flag of the used ration bars the same pickups
    rw [next_hasFieldRation, next_hasFieldRation, hpos, husedRation, h.world, Bool.or_eq_true,
      Bool.or_eq_true]
    refine Or.imp_left ?_
    cases hlike with
    | refl => cases step <;> first | exact hle.hasFieldRation | exact id
    | useMedikit => exact hle.hasFieldRation
    | heal => exact hle.hasFieldRation
  · rw [next_hasGrenade, next_hasGrenade, hpos, husedGrenade, h.world, Bool.or_eq_true,
      Bool.or_eq_true]
    refine Or.imp_left ?_
    cases hlike with
    | refl => cases step <;> first | exact hle.hasGrenade | exact id
    | useMedikit => exact hle.hasGrenade
    | heal => exact hle.hasGrenade

/-! ## Scores -/

/-- **The score of the second node is no less**: the items it has more of count for it, and nothing
    else differs. -/
theorem Outfitted.score_le : o.score g node ≤ o'.score g' node' := by
  obtain ⟨_, _, htype, _⟩ := h.self_eq
  have hmates : o'.matesDist g' node'.state = o.matesDist g node.state := by
    rw [matesDist, matesDist, h.teammates, h.table, hle.pos]
  have hseen : o'.seenFrom node'.state = o.seenFrom node.state := by
    funext enemy stance
    rw [seenFrom, seenFrom, h.world, hle.pos, hle.stance]
  have hrange : o'.inGrenadeRange node'.state = o.inGrenadeRange node.state := by
    funext enemy
    rw [inGrenadeRange, inGrenadeRange, h.game, hle.pos]
  have henemies : o'.shootingEnemies node'.state = o.shootingEnemies node.state := by
    simp only [shootingEnemies, isShooting, hrange, hseen, h.enemies, h.stances]
  have hclose : o'.closeToCommander node'.state = o.closeToCommander node.state := by
    rw [closeToCommander, closeToCommander, h.teammates, h.game, hle.pos]
  have hitem : ∀ {b b' : Bool}, (b = true → b' = true) → boolToInt b ≤ boolToInt b' := by
    intro b b' himp
    cases b <;> cases b' <;> simp [boolToInt] at himp ⊢
  have hmedkit := hitem hle.hasMedkit
  have hration := hitem hle.hasFieldRation
  have hgrenade := hitem hle.hasGrenade
  unfold score scoreState
  rw [hmates, henemies, hclose, htype, h.table, h.target, h.teammates, hle.pos, hle.mateDamage,
    hle.damage, hle.kills]
  cases o.matesDist g node.state with
  | none => exact le_refl _
  | some matesDist =>
      cases o.shootingEnemies node.state with
      | none => exact le_refl _
      | some shootingEnemies =>
          cases minDistance g.floydDist node.state.pos g.target with
          | none => exact le_refl _
          | some targetDist =>
              simp only [Option.bind_eq_bind, Option.bind_some]
              split_ifs <;> simp only [Option.getD_some, Option.getD_none, le_refl] <;> omega

end Compare

/-- **More resources never hurt.** For two troopers that differ only in that the second has at least
    the action points and the items of the first, on the same move and with the same target, the
    best score of the second is at least that of the first. -/
theorem bestScore_le_of_moreResources {rand rand' : ℕ → ℕ} {fuel fuel' : ℕ} {self self' : Trooper}
    {world : World} {game : Game} {g₀ g₁ g₁' g g' : Globals} {o o' : SlavaStrategy}
    {s s' : SearchVars} (hself : self.MoreResources self')
    (hcon : construct self world game g₀ = some (o, g₁))
    (hcon' : construct self' world game g₀ = some (o', g₁'))
    (hrun : o.run rand fuel g₁ = some (s, g)) (hrun' : o'.run rand' fuel' g₁' = some (s', g'))
    (htarget : g'.target = g.target) : s.bestScore ≤ s'.bestScore := by
  have hc : Constructed ⟨self, world, game⟩ g₀ o g₁ := constructed_construct hcon
  have hc' : Constructed ⟨self', world, game⟩ g₀ o' g₁' := constructed_construct hcon'
  have hglobals : g₁' = g₁ := construct_globals hcon hcon' rfl rfl rfl
  obtain ⟨hsize, _, htable⟩ := run_frame hrun
  obtain ⟨hsize', _, htable'⟩ := run_frame hrun'
  have hcells : ∀ p, cellAt o'.cells p = cellAt o.cells p := by
    intro p
    by_cases htrooper : ∃ t ∈ world.troopers, t.pos = p
    · rw [hc.cellAt_of_trooper p htrooper, hc'.cellAt_of_trooper p htrooper]
    · have hempty : ∀ t ∈ world.troopers, t.pos ≠ p := fun t ht htp => htrooper ⟨t, ht, htp⟩
      rw [hc.cellAt_of_empty p hempty, hc'.cellAt_of_empty p hempty]
  have h : Outfitted o g o' g' := by
    refine ⟨by rw [hc.self_eq, hc'.self_eq]; exact hself, hc'.world_eq.trans hc.world_eq.symm,
      hc'.game_eq.trans hc.game_eq.symm, hc'.teammates_eq.trans hc.teammates_eq.symm,
      hc'.enemies_eq.trans hc.enemies_eq.symm, ?_, hcells, ?_, ?_, htarget⟩
    · rw [hc.stances_eq, hc'.stances_eq, hglobals]
    · rw [hsize, hsize', hglobals]
    · rw [htable, htable', hglobals]
  -- both runs are searches, and the second tree follows the first
  have hsearch := ((run_eq_some_iff ..).mp hrun).2
  have hsearch' := ((run_eq_some_iff ..).mp hrun').2
  rw [search_eq] at hsearch hsearch'
  split_ifs at hsearch hsearch'
  cases hsearch
  cases hsearch'
  refine DepthFirst.explore_bestScore_mono (R := NodeLe) (fun node node' hle c hc => ?_)
    (fun node node' hle => h.score_le hle) 10 h.root (le_refl _)
  obtain ⟨hstep, hnext⟩ := (o.mem_children_iff g node c).mp hc
  obtain ⟨step', hstep', hlike⟩ := h.exists_step hle hstep
  refine ⟨(step', o'.next g' node' step'), (o'.mem_children_iff g' node' _).mpr ⟨hstep', rfl⟩, ?_⟩
  rw [hnext]
  exact h.next hle hlike

end SlavaStrategy

/-- The trooper in the corridor with two more action points and a medikit. -/
def equippedTrooper : Trooper := { woundedTrooper with actionPoints := 4, holdingMedikit := true }

/-- The object built for either trooper on the same move. -/
def outfittedStrategy (self : Trooper) : SlavaStrategy where
  self := self
  world := corridorTurn.world
  game := corridorTurn.game
  cells := [.lowCover] :: List.replicate 7 [.free]
  teammates := [woundedTrooper]
  enemies := []
  stances := []

theorem bestScore_le_equipped : ∃ s s' g g',
    (outfittedStrategy woundedTrooper).run (fun _ => 7) 0 secondGlobals = some (s, g) ∧
      (outfittedStrategy equippedTrooper).run (fun _ => 7) 0 secondGlobals = some (s', g') ∧
      s.bestScore ≤ s'.bestScore := by
  have hcon : ∀ self, SlavaStrategy.construct self corridorTurn.world corridorTurn.game
      corridorGlobals = some (outfittedStrategy self, secondGlobals) := fun _ => rfl
  have hruns : ∀ self ∈ [woundedTrooper, equippedTrooper],
      ((outfittedStrategy self).run (fun _ => 7) 0 secondGlobals).map (fun r => r.2)
        = some secondGlobals := by decide +kernel
  simp only [List.forall_mem_cons, Option.map_eq_some_iff] at hruns
  obtain ⟨⟨⟨s, g⟩, hrun, hg⟩, ⟨⟨s', g'⟩, hrun', hg'⟩, _⟩ := hruns
  have htarget : g'.target = g.target := congrArg Globals.target (hg'.trans hg.symm)
  refine ⟨s, s', g, g', hrun, hrun', ?_⟩
  refine SlavaStrategy.bestScore_le_of_moreResources ⟨rfl, by decide, ?_, ?_, ?_⟩ (hcon _)
    (hcon _) hrun hrun' htarget
  · exact id
  · exact fun _ => rfl
  · exact id

end CodeTroopers
