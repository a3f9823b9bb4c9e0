import CodeTroopers.Strategy.LegalAction
import CodeTroopers.Strategy.PlanRuns
import CodeTroopers.Strategy.Threat

set_option autoImplicit false

/-! # The trooper's own entry

The server lists the acting trooper among the others, at the cell it starts from. The constructor
copies this entry into `teammates` and covers its cell on the copy of the map, and both stay there
while `state.pos` moves on. A plan that has left the start cell meets its own entry there:

* a heal of the entry credits what a teammate gets, and a grenade is taken to hit the trooper on the
  start cell (`ownEntry_iff`);
* the start cell is never entered again (`move_explored_iff`). -/

namespace CodeTroopers

namespace SlavaStrategy

variable (o : SlavaStrategy) (g : Globals)

/-! ## What is intended at a node -/

/-- The plan explores the step at its end. -/
def Explores (p : List Step × Node) (step : Step) : Prop :=
  (p.1 ++ [step], o.next g p.2 step) ∈ o.plans g 10 o.root

/-- A heal of the acting trooper is credited with what it restores to the trooper itself. -/
def OwnHealLaw (p : List Step × Node) : Prop :=
  ∀ heal, (o.Explores g p (.useMedikit o.self heal) →
      heal = healOf o.game.medikitHealSelfBonusHitpoints o.self) ∧
    (o.Explores g p (.heal o.self heal) →
      heal = healOf o.game.fieldMedicHealSelfBonusHitpoints o.self)

/-- A grenade hits the acting trooper if and only if it stands next to the cell thrown at. -/
def OwnBlastLaw (p : List Step × Node) : Prop :=
  ∀ enemy, o.Explores g p (.throwGrenade enemy) →
    (o.self ∈ o.blastMates g enemy ↔ p.2.state.pos.Adjacent enemy.pos)

/-! ## Where the code does that -/

/-- Healing the own entry from a cell next to it is no different from healing oneself. -/
def EntryHealsAlike (node : Node) (bonusHitpoints selfBonusHitpoints : Int32) : Prop :=
  node.state.pos.hasNeigh g.size o.self.pos = true → 0 < healOf bonusHitpoints o.self →
    healOf bonusHitpoints o.self = healOf selfBonusHitpoints o.self

/-- The medikit and the field medic heal the own entry as they heal the trooper. -/
def OwnHealCondition (node : Node) : Prop :=
  (node.state.hasMedkit = true → o.game.medikitUseCost.toInt ≤ node.points →
    o.EntryHealsAlike g node o.game.medikitBonusHitpoints
      o.game.medikitHealSelfBonusHitpoints) ∧
  (o.self.type = .fieldMedic → o.game.fieldMedicHealCost.toInt ≤ node.points →
    o.EntryHealsAlike g node o.game.fieldMedicHealBonusHitpoints
      o.game.fieldMedicHealSelfBonusHitpoints)

/-- The start cell is as near to each enemy within grenade range as the trooper is. -/
def OwnBlastCondition (node : Node) : Prop :=
  node.state.hasGrenade = true → o.game.grenadeThrowCost.toInt ≤ node.points →
    ∀ enemy ∈ o.enemies, o.inGrenadeRange node.state enemy = true →
      (enemy.pos.hasNeigh g.size o.self.pos = true ↔ node.state.pos.Adjacent enemy.pos)

section Entry

variable {o g} (hown : o.self ∈ o.teammates)

include hown

/-- The amounts a heal of the acting trooper can credit. -/
theorem healEnabled_self_iff (state : State) (bonus selfBonus : Int32) (heal : Int) :
    o.HealEnabled g state bonus selfBonus o.self heal
      ↔ 0 < heal ∧ ((state.pos.hasNeigh g.size o.self.pos = true ∧ heal = healOf bonus o.self) ∨
          heal = healOf selfBonus o.self) := by
  simp [HealEnabled, hown]

theorem entryHealsAlike_iff (node : Node) (bonus selfBonus : Int32) :
    o.EntryHealsAlike g node bonus selfBonus
      ↔ ∀ heal, o.HealEnabled g node.state bonus selfBonus o.self heal →
          heal = healOf selfBonus o.self := by
  constructor
  · intro hentry heal hheal
    obtain ⟨hpos, ⟨hnear, rfl⟩ | hself⟩ := (healEnabled_self_iff hown _ _ _ _).mp hheal
    · exact hentry hnear hpos
    · exact hself
  · intro hall hnear hpos
    exact hall _ ((healEnabled_self_iff hown _ _ _ _).mpr ⟨hpos, Or.inl ⟨hnear, rfl⟩⟩)

variable {p : List Step × Node} (hp : p ∈ o.plans g 10 o.root) (hlen : p.1.length < 10)

include hp hlen

omit hown in
theorem explores_iff (step : Step) : o.Explores g p step ↔ step ∈ o.steps g p.2 := by
  rw [Explores, o.snoc_mem_plans_iff g hp hlen]
  simp

theorem ownHealLaw_iff : o.OwnHealLaw g p ↔ o.OwnHealCondition g p.2 := by
  simp only [OwnHealLaw, explores_iff hp hlen, mem_steps_iff, cost, Enabled, forall_and,
    OwnHealCondition, entryHealsAlike_iff hown]
  constructor
  · intro h
    exact ⟨fun hhas hcost heal hheal => h.1 heal ⟨hcost, hhas, hheal⟩,
      fun htype hcost heal hheal => h.2 heal ⟨hcost, htype, hheal⟩⟩
  · intro h
    exact ⟨fun heal hstep => h.1 hstep.2.1 hstep.1 heal hstep.2.2,
      fun heal hstep => h.2 hstep.2.1 hstep.1 heal hstep.2.2⟩

theorem ownBlastLaw_iff : o.OwnBlastLaw g p ↔ o.OwnBlastCondition g p.2 := by
  have hblast : ∀ enemy, o.self ∈ o.blastMates g enemy
      ↔ enemy.pos.hasNeigh g.size o.self.pos = true := by
    intro enemy
    simp [blastMates, hown]
  simp only [OwnBlastLaw, explores_iff hp hlen, mem_steps_iff, cost, Enabled, OwnBlastCondition,
    hblast]
  constructor
  · intro h hhas hcost enemy hmem hrange
    exact h enemy ⟨hcost, hhas, hmem, hrange⟩
  · intro h enemy hstep
    exact h hstep.2.1 hstep.1 enemy hstep.2.2.1 hstep.2.2.2

end Entry

theorem Constructed.self_mem_teammates {turn : Turn} {g₀ g₁ : Globals} {o : SlavaStrategy}
    (hcon : Constructed turn g₀ o g₁) (hlisted : turn.self ∈ turn.world.troopers)
    (hmate : turn.self.teammate = true) : o.self ∈ o.teammates := by
  rw [hcon.self_eq, hcon.teammates_eq]
  exact List.mem_filter.mpr ⟨hlisted, hmate⟩

/-- **When a plan treats the trooper as standing where it has moved.** At the end of every explored
    plan, all heals of the acting trooper are credited with its own amount, and all grenades hit it
    exactly if they fall next to it, if and only if healing its entry from there would credit the
    same and its start cell is as near to the enemies in range. -/
theorem ownEntry_iff {turn : Turn} {g₀ g₁ : Globals} {o : SlavaStrategy}
    (hcon : construct turn.self turn.world turn.game g₀ = some (o, g₁))
    (hlisted : turn.self ∈ turn.world.troopers) (hmate : turn.self.teammate = true) {g : Globals}
    {p : List Step × Node} (hp : p ∈ o.plans g 10 o.root) (hlen : p.1.length < 10) :
    (o.OwnHealLaw g p ∧ o.OwnBlastLaw g p)
      ↔ o.OwnHealCondition g p.2 ∧ o.OwnBlastCondition g p.2 := by
  have hown := (constructed_construct hcon).self_mem_teammates hlisted hmate
  exact and_congr (ownHealLaw_iff hown hp hlen) (ownBlastLaw_iff hown hp hlen)

/-! ## The cell the trooper started from -/

/-- **Which moves are explored.** At the end of every explored plan with the points for a move, a
    move to a free board cell next to it without another trooper is explored if and only if it is
    not the cell the acting trooper started from. The plans are those of a run in which no `int`
    overflows. -/
theorem move_explored_iff {turn : Turn} {g₀ g₁ : Globals} {o : SlavaStrategy}
    (hcon : construct turn.self turn.world turn.game g₀ = some (o, g₁))
    (hlisted : turn.self ∈ turn.world.troopers) {g : Globals} {p : List Step × Node}
    (hp : p ∈ o.plans g 10 o.root) (hlen : p.1.length < 10)
    (hpoints : o.moveCost p.2.state.stance ≤ p.2.points) {n : Point}
    (hn : n.isCorrect g.size = true) (hadjacent : p.2.state.pos.Adjacent n)
    (hfree : cellAt turn.world.cells n = some .free)
    (hothers : ∀ t ∈ turn.world.troopers, t ≠ turn.self → t.pos ≠ n) :
    o.Explores g p (.move n) ↔ n ≠ turn.self.pos := by
  have hc := constructed_construct hcon
  rw [explores_iff hp hlen, mem_steps_iff]
  simp only [cost, Enabled, hpoints, Point.mem_neighs_of_adjacent hn hadjacent, true_and]
  constructor
  · intro hcell
    exact ((hc.free_of_cellAt hcell).2 turn.self hlisted).symm
  · intro hne
    rw [hc.cellAt_of_empty n, hfree]
    intro t ht
    by_cases hself : t = turn.self
    · rw [hself]
      exact hne.symm
    · exact hothers t ht hself

end SlavaStrategy

/-! ## One step out of the start cell -/

/-- An enemy two cells from the end of the corridor. -/
def nearEnemy : Trooper := { farEnemy with x := 2 }

/-- A wounded trooper with a medikit and a grenade, with the points to step next to the enemy and
    use one of them or step back. -/
def steppingTurn : Turn :=
  let self := { woundedTrooper with holdingMedikit := true, holdingGrenade := true }
  ⟨self, corridor [self, nearEnemy] [],
    { medikitGame with
      standingMoveCost := 1, medikitUseCost := 1, medikitBonusHitpoints := 50
      grenadeThrowCost := 1, grenadeThrowRange := ⟨0x4014000000000000⟩ }⟩

/-- The object built for it. -/
def steppingStrategy : SlavaStrategy where
  self := steppingTurn.self
  world := steppingTurn.world
  game := steppingTurn.game
  cells := [[.lowCover], [.free], [.lowCover], [.free], [.free], [.free], [.free], [.free]]
  teammates := [steppingTurn.self]
  enemies := [nearEnemy]
  stances := []

/-- The plan that steps next to the enemy. -/
def stepOut : List Step × Node :=
  ([.move ⟨1, 0⟩], steppingStrategy.next secondGlobals steppingStrategy.root (.move ⟨1, 0⟩))

theorem construct_stepping :
    SlavaStrategy.construct steppingTurn.self steppingTurn.world steppingTurn.game corridorGlobals
      = some (steppingStrategy, secondGlobals) := rfl

/-- What the search does there: it heals the trooper's entry by the 50 of a teammate and throws the
    grenade at the enemy next to it, and does not step back. -/
theorem stepOut_explores :
    stepOut ∈ steppingStrategy.plans secondGlobals 10 steppingStrategy.root ∧
      steppingStrategy.Explores secondGlobals stepOut (.useMedikit steppingStrategy.self 50) ∧
      steppingStrategy.Explores secondGlobals stepOut (.throwGrenade nearEnemy) ∧
      ¬ steppingStrategy.Explores secondGlobals stepOut (.move ⟨0, 0⟩) := by
  unfold SlavaStrategy.Explores
  decide +kernel

/-- From its new cell the trooper heals its entry by the 50 of a teammate instead of its own 30, and
    a grenade thrown next to it does not hit it. -/
theorem ownEntry_left_behind :
    steppingStrategy.Searches secondGlobals (fun _ => 7) 1 [corridorTurn] steppingTurn ∧
      stepOut ∈ steppingStrategy.plans secondGlobals 10 steppingStrategy.root ∧
      steppingTurn.self ∈ steppingTurn.world.troopers ∧ steppingTurn.self.teammate = true ∧
      ¬ steppingStrategy.OwnHealLaw secondGlobals stepOut ∧
      ¬ steppingStrategy.OwnBlastLaw secondGlobals stepOut := by
  obtain ⟨hplan, hheal, hthrow, _⟩ := stepOut_explores
  refine ⟨searches_second_move construct_stepping rfl, hplan, List.mem_cons_self, rfl,
    fun h => ?_, fun h => ?_⟩
  · exact absurd ((h 50).1 hheal) (by decide)
  · have hhit := (h nearEnemy hthrow).mpr (by decide)
    exact absurd hhit (by decide)

/-- At the root both laws hold, since the trooper is where its entry is. -/
theorem ownEntry_iff_root :
    steppingStrategy.OwnHealLaw secondGlobals ([], steppingStrategy.root) ∧
      steppingStrategy.OwnBlastLaw secondGlobals ([], steppingStrategy.root) := by
  refine (SlavaStrategy.ownEntry_iff construct_stepping (by decide) (by decide)
    (DepthFirst.nil_mem_plans _ 10 _) (by decide)).mpr ⟨?_, fun _ _ enemy henemy _ => ?_⟩
  · unfold SlavaStrategy.OwnHealCondition SlavaStrategy.EntryHealsAlike
    decide
  · have hnear : ∀ enemy ∈ steppingStrategy.enemies,
        (enemy.pos.hasNeigh secondGlobals.size steppingStrategy.self.pos = true ↔
          steppingStrategy.root.state.pos.Adjacent enemy.pos) := by
      decide
    exact hnear enemy henemy

/-- The trooper does not step back onto the free cell it has left. -/
theorem start_cell_not_entered :
    steppingStrategy.Searches secondGlobals (fun _ => 7) 1 [corridorTurn] steppingTurn ∧
      stepOut ∈ steppingStrategy.plans secondGlobals 10 steppingStrategy.root ∧
      steppingTurn.self ∈ steppingTurn.world.troopers ∧
      steppingStrategy.moveCost stepOut.2.state.stance ≤ stepOut.2.points ∧
      stepOut.2.state.pos.Adjacent ⟨0, 0⟩ ∧
      cellAt steppingTurn.world.cells ⟨0, 0⟩ = some .free ∧
      (∀ t ∈ steppingTurn.world.troopers, t ≠ steppingTurn.self → t.pos ≠ ⟨0, 0⟩) ∧
      ¬ steppingStrategy.Explores secondGlobals stepOut (.move ⟨0, 0⟩) := by
  obtain ⟨hplan, _, _, hback⟩ := stepOut_explores
  exact ⟨searches_second_move construct_stepping rfl, hplan, by decide, by decide,
    by decide, by decide, by decide, hback⟩

/-- It does step out. -/
theorem move_explored_iff_stepOut :
    steppingStrategy.Explores secondGlobals ([], steppingStrategy.root) (.move ⟨1, 0⟩) :=
  (SlavaStrategy.move_explored_iff construct_stepping (by decide)
    (DepthFirst.nil_mem_plans _ 10 _) (by decide) (by decide) (by decide)
    (by decide) (by decide) (by decide)).mpr
    (by decide)

end CodeTroopers
