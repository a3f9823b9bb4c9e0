import CodeTroopers.Strategy.BestPlan

set_option autoImplicit false

/-! # Items that are used without being held

`maximize_score` keeps what the trooper holds in flags of `State`, and its pickup loop runs at every
node: at the end of a move it picks up what lies on the new cell, but at the root it picks up what
lies on the cell the trooper already stands on, which the server has not handed over. So the search
considers plans that begin with an item the trooper does not hold, exactly if such an item lies on
its own cell and is of use there at once (`exists_beginsUnheld_iff`). Without one, `run()` returns
an action whose item is held (`heldItem_of_not_unheldUsable`); with one, it is a matter of the
scores of all plans. -/

namespace CodeTroopers

/-- The item an action uses is held. -/
def Trooper.HoldsItemFor (t : Trooper) : ActionType → Prop
  | .useMedikit => t.holdingMedikit = true
  | .throwGrenade => t.holdingGrenade = true
  | .eatFieldRation => t.holdingFieldRation = true
  | _ => True

/-- The item a bonus gives is held. -/
def Trooper.HoldsBonus (t : Trooper) : BonusType → Prop
  | .medikit => t.holdingMedikit = true
  | .grenade => t.holdingGrenade = true
  | .fieldRation => t.holdingFieldRation = true
  | _ => True

namespace SlavaStrategy

variable (o : SlavaStrategy) (g : Globals)

/-- An item of the type lies on the trooper's own cell, and it does not hold one. -/
def LiesUnheld (type : BonusType) : Prop :=
  bonusAt o.world.bonuses o.self.pos type = true ∧ ¬ o.self.HoldsBonus type

/-- An item that lies on the trooper's own cell without being held is of use there at once and
    within its action points: a medikit if there is somebody to heal, a grenade if there is an enemy
    in range, a ration. -/
def UnheldUsable : Prop :=
  (o.LiesUnheld .medikit ∧ o.game.medikitUseCost.toInt ≤ o.self.actionPoints.toInt ∧
    ∃ patient heal, o.HealEnabled g o.initialState o.game.medikitBonusHitpoints
      o.game.medikitHealSelfBonusHitpoints patient heal) ∨
  (o.LiesUnheld .grenade ∧ o.game.grenadeThrowCost.toInt ≤ o.self.actionPoints.toInt ∧
    ∃ enemy ∈ o.enemies, o.inGrenadeRange o.initialState enemy = true) ∨
  (o.LiesUnheld .fieldRation ∧ o.game.fieldRationEatCost.toInt ≤ o.self.actionPoints.toInt)

/-- The flags of the root are the items held and those on the cell. -/
theorem root_eq : o.root = ⟨o.self.actionPoints.toInt, { o.initialState with
    hasMedkit := o.self.holdingMedikit || bonusAt o.world.bonuses o.self.pos .medikit
    hasFieldRation := o.self.holdingFieldRation ||
      bonusAt o.world.bonuses o.self.pos .fieldRation
    hasGrenade := o.self.holdingGrenade || bonusAt o.world.bonuses o.self.pos .grenade }⟩ := by
  rw [root, enter, pickUp_eq]
  simp [initialState]

/-- The unheld items the root allows to use are those of use on the own cell. -/
theorem exists_unheld_step_iff :
    (∃ step ∈ o.steps g o.root, ¬ o.self.HoldsItemFor step.label.action) ↔ o.UnheldUsable g := by
  simp only [mem_steps_iff, root_eq]
  constructor
  · rintro ⟨step, ⟨hcost, henabled⟩, hnot⟩
    cases step with
    | useMedikit patient heal =>
        obtain ⟨hhas, hheal⟩ := henabled
        have hheld : o.self.holdingMedikit = false := Bool.eq_false_iff.mpr hnot
        rw [hheld, Bool.false_or] at hhas
        exact Or.inl ⟨⟨hhas, hnot⟩, hcost, patient, heal, hheal⟩
    | throwGrenade enemy =>
        obtain ⟨hhas, henemy, hrange⟩ := henabled
        have hheld : o.self.holdingGrenade = false := Bool.eq_false_iff.mpr hnot
        rw [hheld, Bool.false_or] at hhas
        exact Or.inr (Or.inl ⟨⟨hhas, hnot⟩, hcost, enemy, henemy, hrange⟩)
    | eatFieldRation =>
        have hheld : o.self.holdingFieldRation = false := Bool.eq_false_iff.mpr hnot
        have hhas : bonusAt o.world.bonuses o.self.pos .fieldRation = true := by
          simpa [Enabled, hheld] using henabled
        exact Or.inr (Or.inr ⟨⟨hhas, hnot⟩, hcost⟩)
    | _ => exact absurd trivial hnot
  · rintro (⟨⟨hlies, hnot⟩, hcost, patient, heal, hheal⟩ |
      ⟨⟨hlies, hnot⟩, hcost, enemy, henemy, hrange⟩ | ⟨⟨hlies, hnot⟩, hcost⟩)
    · exact ⟨.useMedikit patient heal, ⟨hcost, by simp [hlies], hheal⟩, hnot⟩
    · exact ⟨.throwGrenade enemy, ⟨hcost, by simp [hlies], henemy, hrange⟩, hnot⟩
    · exact ⟨.eatFieldRation, ⟨hcost, by simp [Enabled, hlies]⟩, hnot⟩

/-- The plan begins with an item the trooper does not hold. -/
def BeginsUnheld (p : List Step × Node) : Prop :=
  ∃ step ∈ p.1.head?, ¬ o.self.HoldsItemFor step.label.action

/-- **Which searches consider an unheld item**: those with one of use on the own cell. -/
theorem exists_beginsUnheld_iff :
    (∃ p ∈ o.plans g 10 o.root, o.BeginsUnheld p) ↔ o.UnheldUsable g := by
  rw [← exists_unheld_step_iff]
  constructor
  · rintro ⟨p, hp, step, hhead, hnot⟩
    exact ⟨step, o.head_mem_steps g hp hhead, hnot⟩
  · rintro ⟨step, hstep, hnot⟩
    -- the plan of this step alone
    refine ⟨([step], o.next g o.root step), ?_, step, rfl, hnot⟩
    exact (DepthFirst.mem_plans_succ_iff _ 9 o.root _).mpr (Or.inr
      ⟨(step, o.next g o.root step), List.mem_map_of_mem hstep, _,
        DepthFirst.nil_mem_plans _ 9 _, rfl⟩)

/-- **Which runs use held items only.** The search considers plans that begin with an item the
    trooper does not hold exactly if one lies on its own cell and is of use there. A run without one
    returns an action whose item the trooper holds; so does, in particular, every run of a trooper
    that holds all items on its cell. -/
theorem heldItem_of_not_unheldUsable {rand : ℕ → ℕ} {fuel : ℕ} {g g' : Globals} {s : SearchVars}
    (h : o.run rand fuel g = some (s, g')) :
    ((∃ p ∈ o.plans g' 10 o.root, o.BeginsUnheld p) ↔ o.UnheldUsable g) ∧
      (¬ o.UnheldUsable g → o.self.HoldsItemFor s.best.action) ∧
      ((∀ bonus ∈ o.world.bonuses, o.self.pos = bonus.pos → o.self.HoldsBonus bonus.type) →
        o.self.HoldsItemFor s.best.action) := by
  have hsize : o.UnheldUsable g' ↔ o.UnheldUsable g := by
    simp only [UnheldUsable, HealEnabled, (run_frame h).1]
  have hheld : ¬ o.UnheldUsable g → o.self.HoldsItemFor s.best.action := by
    intro hnone
    by_contra hnot
    rcases o.best_cases g' ((run_eq_some_iff ..).mp h).2 with hend | ⟨step, hstep, hbest⟩
    · rw [hend] at hnot
      exact hnot trivial
    · rw [hbest] at hnot
      exact hnone (hsize.mp ((o.exists_unheld_step_iff g').mp ⟨step, hstep, hnot⟩))
  refine ⟨(o.exists_beginsUnheld_iff g').trans hsize, hheld, fun hall => hheld ?_⟩
  have hlies : ∀ type, ¬ o.LiesUnheld type := by
    rintro type ⟨hat, hnot⟩
    obtain ⟨bonus, hmem, hpos, rfl⟩ : ∃ bonus ∈ o.world.bonuses, o.self.pos = bonus.pos ∧
        bonus.type = type := by simpa [bonusAt] using hat
    exact hnot (hall bonus hmem hpos)
  rintro (⟨hunheld, _⟩ | ⟨hunheld, _⟩ | ⟨hunheld, _⟩) <;> exact hlies _ hunheld

end SlavaStrategy

/-- A wounded trooper without items stands on a medikit. -/
def medikitTurn : Turn :=
  ⟨woundedTrooper, corridor [woundedTrooper] [⟨0, 0, 0, .medikit⟩], medikitGame⟩

/-- The trooper uses the medikit it does not hold. -/
theorem unheld_medikit_used :
    medikitTurn.self.holdingMedikit = false ∧
      ∃ action g, MyStrategy.move (fun _ => 7) 1 medikitTurn Globals.initial = some (action, g) ∧
        action.action = .useMedikit ∧ ¬ medikitTurn.self.HoldsItemFor action.action := by
  refine ⟨rfl, makeActionAt .useMedikit ⟨0, 0⟩, corridorGlobals, by decide +kernel, rfl, ?_⟩
  exact Bool.false_ne_true

-- A ration of use on the own cell need not be eaten: this one gives no action points.
example : MyStrategy.move (fun _ => 7) 1 ⟨woundedTrooper,
    corridor [woundedTrooper] [⟨0, 0, 0, .fieldRation⟩],
    { medikitGame with fieldRationEatCost := 0 }⟩ Globals.initial
      = some (makeAction .endTurn, corridorGlobals) := by decide +kernel

/-- A healthy trooper on a medikit has nobody to heal. -/
def healthyStrategy : SlavaStrategy :=
  let self := { woundedTrooper with hitpoints := 100 }
  { self := self, world := corridor [self] [⟨0, 0, 0, .medikit⟩], game := medikitGame
    cells := [.lowCover] :: List.replicate 7 [.free]
    teammates := [self], enemies := [], stances := [.prone, .kneeling, .standing] }

theorem heldItem_of_not_unheldUsable_healthy :
    ∃ s g', healthyStrategy.run (fun _ => 7) 1 corridorGlobals = some (s, g') ∧
      healthyStrategy.LiesUnheld .medikit ∧
      healthyStrategy.self.HoldsItemFor s.best.action := by
  have hruns : (healthyStrategy.run (fun _ => 7) 1 corridorGlobals).isSome := by decide
  obtain ⟨⟨s, g'⟩, h⟩ := Option.isSome_iff_exists.mp hruns
  have hlies : healthyStrategy.LiesUnheld .medikit := ⟨by decide, Bool.false_ne_true⟩
  refine ⟨s, g', h, hlies, (healthyStrategy.heldItem_of_not_unheldUsable h).2.1 ?_⟩
  rintro (⟨_, _, patient, heal, hpos, ⟨hmate, _, rfl⟩ | ⟨_, rfl⟩⟩ | ⟨hunheld, _⟩ | ⟨hunheld, _⟩)
  · obtain rfl := List.mem_singleton.mp hmate
    exact absurd hpos (by decide)
  · exact absurd hpos (by decide)
  · exact absurd hunheld.1 (by decide)
  · exact absurd hunheld.1 (by decide)

end CodeTroopers
