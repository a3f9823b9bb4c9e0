import CodeTroopers.Strategy.Credit
import CodeTroopers.Strategy.Process
import CodeTroopers.Strategy.Reordering

set_option autoImplicit false

/-! # Better terms never hurt

A move on better terms differs from another one only by lower prices of the actions, by higher
yields (what heals, hits and the ration bring, and the points to begin with), and by more items in
hand (`Turn.Favours`). Whatever the trooper of the first move can do, that of the second can do as
well, for no more points and to no less effect (`Favoured.exists_step`), and it stays ahead
(`Favoured.next`). So the second move returns whenever the first one does, and its best score is no
lower (`bestScore_le_of_favours`). -/

namespace CodeTroopers

open SlavaStrategy

/-- What the trooper pays for its actions. -/
def Turn.prices (turn : Turn) : List Int32 :=
  [turn.game.medikitUseCost, turn.game.grenadeThrowCost, turn.game.fieldMedicHealCost,
    turn.self.shootCost, turn.game.standingMoveCost, turn.game.kneelingMoveCost,
    turn.game.proneMoveCost, turn.game.stanceChangeCost, turn.game.fieldRationEatCost]

/-- What the trooper has to spend, and what its actions bring. -/
def Turn.yields (turn : Turn) : List Int32 :=
  [turn.self.actionPoints, turn.self.standingDamage, turn.self.kneelingDamage,
    turn.self.proneDamage, turn.game.medikitBonusHitpoints,
    turn.game.medikitHealSelfBonusHitpoints, turn.game.fieldMedicHealBonusHitpoints,
    turn.game.fieldMedicHealSelfBonusHitpoints, turn.game.grenadeDirectDamage,
    turn.game.fieldRationBonusActionPoints]

/-- The second move differs from the first only by better terms. -/
structure Turn.Favours (turn turn' : Turn) : Prop where
  self : turn'.self = { turn.self with
    actionPoints := turn'.self.actionPoints, shootCost := turn'.self.shootCost
    standingDamage := turn'.self.standingDamage, kneelingDamage := turn'.self.kneelingDamage
    proneDamage := turn'.self.proneDamage, holdingGrenade := turn'.self.holdingGrenade
    holdingMedikit := turn'.self.holdingMedikit
    holdingFieldRation := turn'.self.holdingFieldRation }
  world : turn'.world = turn.world
  game : turn'.game = { turn.game with
    medikitUseCost := turn'.game.medikitUseCost, grenadeThrowCost := turn'.game.grenadeThrowCost
    fieldMedicHealCost := turn'.game.fieldMedicHealCost
    standingMoveCost := turn'.game.standingMoveCost
    kneelingMoveCost := turn'.game.kneelingMoveCost, proneMoveCost := turn'.game.proneMoveCost
    stanceChangeCost := turn'.game.stanceChangeCost
    fieldRationEatCost := turn'.game.fieldRationEatCost
    medikitBonusHitpoints := turn'.game.medikitBonusHitpoints
    medikitHealSelfBonusHitpoints := turn'.game.medikitHealSelfBonusHitpoints
    fieldMedicHealBonusHitpoints := turn'.game.fieldMedicHealBonusHitpoints
    fieldMedicHealSelfBonusHitpoints := turn'.game.fieldMedicHealSelfBonusHitpoints
    grenadeDirectDamage := turn'.game.grenadeDirectDamage
    fieldRationBonusActionPoints := turn'.game.fieldRationBonusActionPoints }
  prices : List.Forall₂ (fun n n' => n'.toInt ≤ n.toInt) turn.prices turn'.prices
  yields : List.Forall₂ (fun n n' => n.toInt ≤ n'.toInt) turn.yields turn'.yields
  grenade : turn.self.holdingGrenade = true → turn'.self.holdingGrenade = true
  medikit : turn.self.holdingMedikit = true → turn'.self.holdingMedikit = true
  fieldRation : turn.self.holdingFieldRation = true → turn'.self.holdingFieldRation = true

theorem Turn.Favours.playsOn {b : BoardSize} {cells : Cells} {turn turn' : Turn}
    (hterms : turn.Favours turn') (h : turn.PlaysOn b cells) : turn'.PlaysOn b cells := by
  have hplaced : turn'.self.Placed turn.world := by
    rw [hterms.self]
    exact h.self_placed
  obtain ⟨⟨hcells, hvisibilities, hlt, _, hlisted, hteam⟩, hsize, hmap⟩ := h
  have hworld := hterms.world
  constructor
  · constructor <;> rw [hworld] <;> assumption
  · rw [hworld]
    exact hsize
  · rw [hworld]
    exact hmap

/-- The second node is where the first one is, with no fewer points, no less credit and no fewer
    items. -/
structure Ahead (node node' : Node) : Prop where
  points : node.points ≤ node'.points
  pos : node'.state.pos = node.state.pos
  stance : node'.state.stance = node.state.stance
  mateDamage : node'.state.mateDamage ≤ node.state.mateDamage
  damage : node.state.damage ≤ node'.state.damage
  kills : node.state.kills ≤ node'.state.kills
  usedFieldRation : node'.state.usedFieldRation = node.state.usedFieldRation
  usedGrenade : node'.state.usedGrenade = node.state.usedGrenade
  hasMedkit : node.state.hasMedkit = true → node'.state.hasMedkit = true
  hasFieldRation : node.state.hasFieldRation = true → node'.state.hasFieldRation = true
  hasGrenade : node.state.hasGrenade = true → node'.state.hasGrenade = true

/-- The same action to no less effect; the patient of a heal may be another one. -/
inductive Step.Follows : Step → Step → Prop where
  | useMedikit (patient patient' : Trooper) {heal heal' : Int} (h : heal ≤ heal') :
      Follows (.useMedikit patient heal) (.useMedikit patient' heal')
  | throwGrenade (enemy : Trooper) : Follows (.throwGrenade enemy) (.throwGrenade enemy)
  | heal (patient patient' : Trooper) {heal heal' : Int} (h : heal ≤ heal') :
      Follows (.heal patient heal) (.heal patient' heal')
  | shoot (enemy : Trooper) {damage damage' : Int} (h : damage ≤ damage') :
      Follows (.shoot enemy damage) (.shoot enemy damage')
  | move (n : Point) : Follows (.move n) (.move n)
  | raiseStance : Follows .raiseStance .raiseStance
  | lowerStance : Follows .lowerStance .lowerStance
  | eatFieldRation : Follows .eatFieldRation .eatFieldRation

namespace SlavaStrategy

/-- The objects built for the two moves. -/
structure Favoured (o o' : SlavaStrategy) : Prop where
  terms : Turn.Favours ⟨o.self, o.world, o.game⟩ ⟨o'.self, o'.world, o'.game⟩
  teammates : o'.teammates = o.teammates
  enemies : o'.enemies = o.enemies
  stances : o'.stances = o.stances
  cells : ∀ p, cellAt o'.cells p = cellAt o.cells p

theorem healOf_le {bonus bonus' : Int32} (h : bonus.toInt ≤ bonus'.toInt) (patient : Trooper) :
    healOf bonus patient ≤ healOf bonus' patient := min_le_min_right _ h

theorem lethal_le {damage damage' : Int} (h : damage ≤ damage') (t : Trooper) :
    boolToInt (lethal damage t) ≤ boolToInt (lethal damage' t) := by
  refine boolToInt_le fun hkill => ?_
  rw [lethal, decide_eq_true_eq] at hkill ⊢
  exact hkill.trans h

section Compare

variable {o o' : SlavaStrategy} (h : Favoured o o')

include h

theorem Favoured.self_eq : o'.self.pos = o.self.pos ∧ o'.self.stance = o.self.stance ∧
    o'.self.type = o.self.type ∧ o'.self.shootingRange = o.self.shootingRange ∧
    ∀ bonus, healOf bonus o'.self = healOf bonus o.self := by
  have hself : o'.self = _ := h.terms.self
  rw [hself]
  exact ⟨rfl, rfl, rfl, rfl, fun _ => rfl⟩

theorem Favoured.game_eq : o'.game.grenadeThrowRange = o.game.grenadeThrowRange ∧
    o'.game.grenadeCollateralDamage = o.game.grenadeCollateralDamage ∧
    o'.game.commanderAuraRange = o.game.commanderAuraRange := by
  have hgame : o'.game = _ := h.terms.game
  rw [hgame]
  exact ⟨rfl, rfl, rfl⟩

theorem Favoured.getDamage_le (stance : TrooperStance) :
    (o.self.getDamage stance).getD 0 ≤ (o'.self.getDamage stance).getD 0 := by
  have hyields := h.terms.yields
  simp only [Turn.yields, List.forall₂_cons] at hyields
  obtain ⟨_, hstanding, hkneeling, hprone, _⟩ := hyields
  cases stance <;> simp only [Trooper.getDamage, Option.getD_some, Option.getD_none] <;>
    first | assumption | exact le_refl _

theorem Favoured.root : Ahead o.root o'.root := by
  obtain ⟨hpos, hstance, _⟩ := h.self_eq
  have hyields := h.terms.yields
  simp only [Turn.yields, List.forall₂_cons] at hyields
  have hworld : o'.world = o.world := h.terms.world
  refine ⟨hyields.1, ?_, ?_, ?_, ?_, ?_, ?_, ?_, ?_, ?_, ?_⟩ <;>
    simp only [SlavaStrategy.root, enter, initialState, pickUp_pos, pickUp_stance,
      pickUp_mateDamage, pickUp_damage, pickUp_kills, pickUp_usedFieldRation, pickUp_usedGrenade,
      pickUp_hasMedkit, pickUp_hasFieldRation, pickUp_hasGrenade, hworld, hpos, hstance,
      Bool.or_eq_true, le_refl]
  · exact Or.imp_left h.terms.medikit
  · exact Or.imp_left h.terms.fieldRation
  · exact Or.imp_left h.terms.grenade

/-! ## Steps -/

variable {g : Globals}

theorem Favoured.blast_eq (enemy : Trooper) :
    o'.blastEnemies g enemy = o.blastEnemies g enemy ∧
      o'.blastMates g enemy = o.blastMates g enemy := by
  simp only [blastEnemies, blastMates, h.enemies, h.teammates, and_self]

theorem Favoured.cost_le {state state' : State} (hstance : state'.stance = state.stance)
    {step step' : Step} (hfollows : step.Follows step') :
    o'.cost state' step' ≤ o.cost state step := by
  have hprices := h.terms.prices
  simp only [Turn.prices, List.forall₂_cons] at hprices
  obtain ⟨h₁, h₂, h₃, h₄, h₅, h₆, h₇, h₈, h₉, _⟩ := hprices
  cases hfollows <;> simp only [cost] <;> try assumption
  · unfold moveCost
    rw [hstance]
    split_ifs <;> assumption

variable {node node' : Node} (hle : Ahead node node')

include hle

/-- **What the first trooper can do, the second can**, to no less effect. -/
theorem Favoured.exists_step {step : Step} (hstep : step ∈ o.steps g node) :
    ∃ step' ∈ o'.steps g node', step.Follows step' := by
  obtain ⟨hcost, henabled⟩ := (o.mem_steps_iff g node step).mp hstep
  obtain ⟨_, _, htype, hrange, hheal⟩ := h.self_eq
  obtain ⟨hthrow, _⟩ := h.game_eq
  have hworld : o'.world = o.world := h.terms.world
  have hyields := h.terms.yields
  simp only [Turn.yields, List.forall₂_cons] at hyields
  obtain ⟨_, _, _, _, hmedikit, hmedikitSelf, hmedic, hmedicSelf, _⟩ := hyields
  -- it is enough to find a step of no less effect that the state allows
  have hpaid : ∀ step', step.Follows step' → o'.Enabled g node'.state step' →
      ∃ step' ∈ o'.steps g node', step.Follows step' := fun step' hfollows hen =>
    ⟨step', (o'.mem_steps_iff g node' step').mpr
      ⟨(h.cost_le hle.stance hfollows).trans (hcost.trans hle.points), hen⟩, hfollows⟩
  have hpatient : ∀ {bonus bonus' selfBonus selfBonus' : Int32} {patient : Trooper} {heal : Int},
      bonus.toInt ≤ bonus'.toInt → selfBonus.toInt ≤ selfBonus'.toInt →
      o.HealEnabled g node.state bonus selfBonus patient heal →
        ∃ patient' heal', heal ≤ heal' ∧
          o'.HealEnabled g node'.state bonus' selfBonus' patient' heal' := by
    intro bonus bonus' selfBonus selfBonus' patient heal hbonus hself hen
    obtain ⟨hpos, ⟨hmem, hneigh, rfl⟩ | ⟨_, rfl⟩⟩ := hen
    · have hmore := healOf_le hbonus patient
      refine ⟨patient, _, hmore, lt_of_lt_of_le hpos hmore, Or.inl ⟨?_, ?_, rfl⟩⟩
      · rw [h.teammates]
        exact hmem
      · rw [hle.pos]
        exact hneigh
    · have hmore := healOf_le hself o.self
      refine ⟨o'.self, _, hmore, lt_of_lt_of_le hpos hmore, Or.inr ⟨rfl, ?_⟩⟩
      rw [hheal]
  cases step with
  | useMedikit patient heal =>
      obtain ⟨hhas, hen⟩ := henabled
      obtain ⟨patient', heal', hmore, hen'⟩ := hpatient hmedikit hmedikitSelf hen
      exact hpaid _ (.useMedikit patient patient' hmore) ⟨hle.hasMedkit hhas, hen'⟩
  | throwGrenade enemy =>
      obtain ⟨hhas, hmem, hinRange⟩ := henabled
      refine hpaid _ (.throwGrenade enemy) ⟨hle.hasGrenade hhas, by rw [h.enemies]; exact hmem, ?_⟩
      rw [inGrenadeRange, hle.pos, hthrow]
      exact hinRange
  | heal patient heal =>
      obtain ⟨hismedic, hen⟩ := henabled
      obtain ⟨patient', heal', hmore, hen'⟩ := hpatient hmedic hmedicSelf hen
      exact hpaid _ (.heal patient patient' hmore) ⟨by rw [htype]; exact hismedic, hen'⟩
  | shoot enemy damage =>
      obtain ⟨hmem, hsees, rfl⟩ := henabled
      refine hpaid _ (.shoot enemy (h.getDamage_le node.state.stance))
        ⟨by rw [h.enemies]; exact hmem, ?_, by rw [hle.stance]⟩
      rw [seesEnemy, hworld, hrange, hle.pos, hle.stance]
      exact hsees
  | move n =>
      obtain ⟨hneigh, hfree⟩ := henabled
      refine hpaid _ (.move n) ⟨?_, by rw [h.cells]; exact hfree⟩
      rw [hle.pos]
      exact hneigh
  | raiseStance => exact hpaid _ .raiseStance (by simpa [Enabled, hle.stance] using henabled)
  | lowerStance => exact hpaid _ .lowerStance (by simpa [Enabled, hle.stance] using henabled)
  | eatFieldRation => exact hpaid _ .eatFieldRation (hle.hasFieldRation henabled)

/-- **A step to no less effect keeps the second node ahead.** -/
theorem Favoured.next {step step' : Step} (hfollows : step.Follows step') :
    Ahead (o.next g node step) (o'.next g node' step') := by
  obtain ⟨_, hcollateral, _⟩ := h.game_eq
  have hworld : o'.world = o.world := h.terms.world
  have hyields := h.terms.yields
  simp only [Turn.yields, List.forall₂_cons] at hyields
  obtain ⟨_, _, _, _, _, _, _, _, hdirect, hration, _⟩ := hyields
  have hcost := h.cost_le hle.stance hfollows
  have hpoints : (o.next g node step).points ≤ (o'.next g node' step').points := by
    have hle := hle.points
    show o.pointsAfter node step ≤ o'.pointsAfter node' step'
    cases hfollows <;> simp only [pointsAfter] <;> omega
  have hpos : (o'.next g node' step').state.pos = (o.next g node step).state.pos := by
    rw [next_pos, next_pos, hle.pos]
    cases hfollows <;> rfl
  have husedRation : (o'.next g node' step').state.usedFieldRation
      = (o.next g node step).state.usedFieldRation := by
    rw [next_usedFieldRation, next_usedFieldRation, hle.usedFieldRation]
    cases hfollows <;> rfl
  have husedGrenade : (o'.next g node' step').state.usedGrenade
      = (o.next g node step).state.usedGrenade := by
    rw [next_usedGrenade, next_usedGrenade, hle.usedGrenade]
    cases hfollows <;> rfl
  have hmateDamage : o'.mateDamageOf g step' ≤ o.mateDamageOf g step := by
    cases hfollows <;>
      simp only [mateDamageOf, hcollateral, (h.blast_eq _).2, le_refl, neg_le_neg_iff] <;>
      assumption
  have hdamage : o.damageOf g step ≤ o'.damageOf g step' := by
    cases hfollows <;>
      simp only [damageOf, hcollateral, (h.blast_eq _).1, le_refl, add_le_add_iff_right] <;>
        assumption
  have hkills : o.killsOf g step ≤ o'.killsOf g step' := by
    cases hfollows with
    | shoot enemy hmore => exact lethal_le hmore enemy
    | throwGrenade enemy =>
        have hmore := lethal_le hdirect enemy
        simp only [killsOf, grenadeKills, hcollateral, (h.blast_eq _).1, (h.blast_eq _).2]
        omega
    | _ => exact le_refl 0
  refine ⟨hpoints, hpos, ?_, ?_, ?_, ?_, husedRation, husedGrenade, ?_, ?_, ?_⟩
  · rw [next_stance, next_stance, hle.stance]
    cases hfollows <;> rfl
  · rw [next_mateDamage, next_mateDamage]
    exact add_le_add hle.mateDamage hmateDamage
  · rw [next_damage, next_damage]
    exact add_le_add hle.damage hdamage
  · rw [next_kills, next_kills]
    exact add_le_add hle.kills hkills
  · rw [next_hasMedkit, next_hasMedkit, hpos, hworld, Bool.or_eq_true, Bool.or_eq_true]
    refine Or.imp_left ?_
    cases hfollows <;> first | exact hle.hasMedkit | exact id
  · -- the flag of the used ration bars the same pickups
    rw [next_hasFieldRation, next_hasFieldRation, hpos, husedRation, hworld, Bool.or_eq_true,
      Bool.or_eq_true]
    refine Or.imp_left ?_
    cases hfollows <;> first | exact hle.hasFieldRation | exact id
  · rw [next_hasGrenade, next_hasGrenade, hpos, husedGrenade, hworld, Bool.or_eq_true,
      Bool.or_eq_true]
    refine Or.imp_left ?_
    cases hfollows <;> first | exact hle.hasGrenade | exact id

/-! ## Scores -/

theorem Favoured.sameView : SameView o g node.state o' g node'.state := by
  obtain ⟨_, _, htype, _⟩ := h.self_eq
  obtain ⟨hthrow, _, haura⟩ := h.game_eq
  have hworld : o'.world = o.world := h.terms.world
  have hseen : o'.seenFrom node'.state = o.seenFrom node.state := by
    funext enemy stance
    rw [seenFrom, seenFrom, hworld, hle.pos, hle.stance]
  have hrange : o'.inGrenadeRange node'.state = o.inGrenadeRange node.state := by
    funext enemy
    rw [inGrenadeRange, inGrenadeRange, hthrow, hle.pos]
  refine ⟨?_, ?_, ?_, by rw [hle.pos], by rw [h.teammates], htype⟩
  · rw [matesDist, matesDist, h.teammates, hle.pos]
  · simp only [shootingEnemies, isShooting, hrange, hseen, h.enemies, h.stances]
  · rw [closeToCommander, closeToCommander, h.teammates, haura, hle.pos]

/-- **The score of the node ahead is no less.** -/
theorem Favoured.score_le (hdone : 0 ≤ node.state.damage)
    (hdef : (o.scoreState g node.state).isSome)
    (htarget : ∀ d, minDistance g.floydDist node.state.pos g.target = some d → 0 ≤ d) :
    o.score g node ≤ o'.score g node' := by
  have hmedkit := boolToInt_le hle.hasMedkit
  have hration := boolToInt_le hle.hasFieldRation
  have hgrenade := boolToInt_le hle.hasGrenade
  have hmateDamage := hle.mateDamage
  have hdamage := hle.damage
  have hkills := hle.kills
  have hcredit : credit node.state ≤ credit node'.state := by
    unfold credit
    omega
  have hscore := (h.sameView hle).score_add_le hdef htarget fun hcounts => by
    obtain ⟨hmate, hzero⟩ := hcounts
    exact ⟨by omega, by omega⟩
  omega

end Compare

/-! ## The move -/

theorem Constructed.favoured {turn turn' : Turn} {g₀ g₁ : Globals} {o o' : SlavaStrategy}
    (hc : Constructed turn g₀ o g₁) (hc' : Constructed turn' g₀ o' g₁)
    (hterms : turn.Favours turn') : Favoured o o' := by
  refine ⟨?_, ?_, ?_, hc'.stances_eq.trans hc.stances_eq.symm, fun p => ?_⟩
  · rw [hc.self_eq, hc.world_eq, hc.game_eq, hc'.self_eq, hc'.world_eq, hc'.game_eq]
    exact hterms
  · rw [hc.teammates_eq, hc'.teammates_eq, hterms.world]
  · rw [hc.enemies_eq, hc'.enemies_eq, hterms.world]
  · by_cases htrooper : ∃ t ∈ turn.world.troopers, t.pos = p
    · rw [hc.cellAt_of_trooper p htrooper,
        hc'.cellAt_of_trooper p (by rw [hterms.world]; exact htrooper)]
    · have hempty : ∀ t ∈ turn.world.troopers, t.pos ≠ p := fun t ht htp => htrooper ⟨t, ht, htp⟩
      rw [hc.cellAt_of_empty p hempty,
        hc'.cellAt_of_empty p (by rw [hterms.world]; exact hempty), hterms.world]

/-- **Better terms never hurt.** On the same board with the same draws, a move on better terms
    returns if the other one does, with the same target, and with a best score that is no less. -/
theorem bestScore_le_of_favours {b : BoardSize} {cells : Cells} {turn turn' : Turn}
    {g g₁ g₂ : Globals} {o : SlavaStrategy} {s : SearchVars} {rand : ℕ → ℕ} {fuel : ℕ}
    (hturn : turn.PlaysOn b cells) (hterms : turn.Favours turn')
    (hdamages : ∀ n ∈ damages turn.self turn.game, 0 ≤ n.toInt) (hg : g.OnMap b cells)
    (hcon : construct turn.self turn.world turn.game g = some (o, g₁))
    (hrun : o.run rand fuel g₁ = some (s, g₂)) :
    ∃ o' s', construct turn'.self turn'.world turn'.game g = some (o', g₁) ∧
      o'.run rand fuel g₁ = some (s', g₂) ∧ s.bestScore ≤ s'.bestScore := by
  have hturn' := hterms.playsOn hturn
  have hc := constructed_construct hcon
  obtain ⟨o', g₁', hcon', hc', hboard', _⟩ := hg.construct hturn'
  obtain rfl : g₁' = g₁ := by
    refine construct_globals hcon hcon' ?_ ?_ ?_ <;> rw [hterms.world]
  have h : Favoured o o' := hc.favoured hc' hterms
  obtain ⟨hloop, hsearch⟩ := (run_eq_some_iff ..).mp hrun
  have hloop' : targetLoop rand o' fuel (o'.resetTarget g₁') = some (true, g₂) := by
    rw [targetLoop_congr h.self_eq.1]
    exact hloop
  obtain ⟨hsize, hfits, htarget⟩ := hturn'.of_targetLoop hboard' hloop'
  have hdef' : o'.Defined g₂ 10 o'.root :=
    (inside_root hturn'.toConsistent hc').defined hturn'.toConsistent hc' hsize hfits htarget 10
  have hsearch' := o'.search_eq g₂
  rw [if_pos hdef'] at hsearch'
  refine ⟨o', _, hcon', (run_eq_some_iff ..).mpr ⟨hloop', hsearch'⟩, ?_⟩
  rw [search_eq] at hsearch
  split_ifs at hsearch
  cases hsearch
  rw [hterms.world] at hsize hfits htarget
  rw [← hc.self_eq, ← hc.game_eq] at hdamages
  have htable : ExactTable turn.world.size cells g₂.floydDist := by
    rw [hturn.size_eq, (run_frame hrun).2.2]
    exact .of_floyd hboard'.fit hboard'.free hboard'.table
  -- the second tree follows the first one, which stays on the board and does no negative damage
  refine DepthFirst.explore_bestScore_mono
    (R := fun node node' => Ahead node node' ∧ 0 ≤ node.state.damage ∧ Inside turn node)
    (fun node node' hnode c hchild => ?_) (fun node node' hnode => ?_) 10
    ⟨h.root, by simp [root, enter, initialState], inside_root hturn.toConsistent hc⟩ (le_refl _)
  · obtain ⟨hle, hdone, hinside⟩ := hnode
    obtain ⟨hstep, hnext⟩ := (o.mem_children_iff g₂ node c).mp hchild
    obtain ⟨step', hstep', hfollows⟩ := h.exists_step hle hstep
    refine ⟨(step', o'.next g₂ node' step'), (o'.mem_children_iff g₂ node' _).mpr ⟨hstep', rfl⟩, ?_⟩
    rw [hnext]
    refine ⟨h.next hle hfollows, ?_, hinside.next hturn.toConsistent hc hstep⟩
    rw [next_damage]
    exact add_nonneg hdone (damageOf_nonneg hdamages hstep)
  · obtain ⟨hle, hdone, hinside⟩ := hnode
    refine h.score_le hle hdone
      (hinside.isSome_scoreState hturn.toConsistent hc hsize hfits htarget) fun d hd => ?_
    obtain ⟨v, hv, hnonneg⟩ := htable.exists_nonneg (hinside.isCorrect hturn.toConsistent) htarget
    obtain rfl : d = v := Option.some.inj (hd.symm.trans hv)
    exact hnonneg

end SlavaStrategy

/-- The move of the corridor with cheaper steps and shots, a better medikit, and one in hand. -/
def favouredTurn : Turn where
  self := { woundedTrooper with actionPoints := 4, shootCost := 1, holdingMedikit := true }
  world := corridorTurn.world
  game := { medikitGame with standingMoveCost := 1, medikitHealSelfBonusHitpoints := 50 }

theorem corridorTurn_playsOn : corridorTurn.PlaysOn ⟨8, 1⟩ (corridor [] []).cells where
  cells := watchedTurn_consistent.cells
  visibilities := watchedTurn_consistent.visibilities
  visibilities_lt := watchedTurn_consistent.visibilities_lt
  self_placed := by decide
  placed := by decide
  teammate := ⟨corridorTurn.self, List.mem_cons_self, rfl⟩
  size_eq := rfl
  cells_eq := rfl

theorem bestScore_le_favoured : ∃ (o o' : SlavaStrategy) (s s' : SearchVars) (g₁ g₂ : Globals),
    SlavaStrategy.construct favouredTurn.self favouredTurn.world favouredTurn.game Globals.initial
        = some (o', g₁) ∧
      o.run (fun _ => 7) 1 g₁ = some (s, g₂) ∧ o'.run (fun _ => 7) 1 g₁ = some (s', g₂) ∧
      s.bestScore ≤ s'.bestScore := by
  have hmove : (MyStrategy.move (fun _ => 7) 1 corridorTurn Globals.initial).isSome := by
    decide +kernel
  obtain ⟨⟨action, g₂⟩, hmove⟩ := Option.isSome_iff_exists.mp hmove
  obtain ⟨o, g₁, s, hcon, hrun, _⟩ := (MyStrategy.move_eq_some_iff ..).mp hmove
  have hdamages : ((damages corridorTurn.self corridorTurn.game).all fun n => decide (0 ≤ n.toInt))
      = true := by decide
  have hterms : corridorTurn.Favours favouredTurn :=
    ⟨rfl, rfl, rfl, by decide, by decide, by decide, by decide, by decide⟩
  obtain ⟨o', s', hcon', hrun', hle⟩ := SlavaStrategy.bestScore_le_of_favours corridorTurn_playsOn
    hterms (fun n hn => of_decide_eq_true (List.all_eq_true.mp hdamages n hn)) (Or.inl rfl) hcon
    hrun
  exact ⟨o, o', s, s', g₁, g₂, hcon', hrun, hrun', hle⟩

end CodeTroopers
