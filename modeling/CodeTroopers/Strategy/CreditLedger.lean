import CodeTroopers.Library.Ledger
import CodeTroopers.Strategy.PlanRuns
import CodeTroopers.Strategy.Threat
import Mathlib.Algebra.BigOperators.Ring.Finset

set_option autoImplicit false

/-! # What a plan is credited with

The search compares every hit with the hitpoints the server sent, and every heal with the hitpoints
that were missing then: `State` does not keep what a plan has done to a trooper. The hits and the
heals of a plan are ledgers over the troopers here, and the credit is counted per entry of the
ledger where the intended credit is counted per trooper.

* `kills_eq_lethalHits`: `state.kills` counts the hits that kill alone. It is the number of troopers
  brought to zero if nobody is hit twice.
* `healed_le`: a trooper is credited at most with what it misses for each heal. The team is credited
  at most with what it misses if nobody is healed twice. -/

namespace CodeTroopers

open Ledger

/-- The hitpoints a trooper misses. -/
def Trooper.missing (t : Trooper) : Int := max 0 (t.maximalHitpoints.toInt - t.hitpoints.toInt)

/-- The heal of a step: the patient and the hitpoints credited. -/
def Step.heals : Step → List (Trooper × Int)
  | .useMedikit patient amount => [(patient, amount)]
  | .heal patient amount => [(patient, amount)]
  | _ => []

namespace SlavaStrategy

variable (o : SlavaStrategy) (g : Globals)

/-! ## Hits -/

/-- The damage a step deals to enemies, direct and collateral. -/
def enemyHits : Step → List (Trooper × Int)
  | .shoot enemy damage => [(enemy, damage)]
  | .throwGrenade enemy => (enemy, o.game.grenadeDirectDamage.toInt) ::
      (o.blastEnemies g enemy).map fun n => (n, o.game.grenadeCollateralDamage.toInt)
  | _ => []

/-- The damage a step deals to teammates. -/
def mateHits : Step → List (Trooper × Int)
  | .throwGrenade enemy =>
      (o.blastMates g enemy).map fun n => (n, o.game.grenadeCollateralDamage.toInt)
  | _ => []

/-- The hits of a plan on enemies. -/
def planHits (path : List Step) : List (Trooper × Int) := path.flatMap (o.enemyHits g)

/-- The hits of a plan on teammates. -/
def planMateHits (path : List Step) : List (Trooper × Int) := path.flatMap (o.mateHits g)

/-- The hitpoints a trooper was sent with. -/
def listedHitpoints (t : Trooper) : Int := t.hitpoints.toInt

/-- The intended kills of a plan: the enemies whose damage over the whole plan reaches their
    hitpoints, less twice the teammates for whom it does. -/
def cumulativeKills (path : List Step) : Int :=
  (o.enemies.toFinset.filter fun e => listedHitpoints e ≤ total (o.planHits g path) e).card
    - 2 * (o.teammates.toFinset.filter fun m =>
        listedHitpoints m ≤ total (o.planMateHits g path) m).card

/-- The kills of a plan hit by hit: for each enemy the hits that reach its hitpoints alone, less
    twice those on each teammate. -/
def lethalHits (path : List Step) : Int :=
  ∑ e ∈ o.enemies.toFinset, (reaching listedHitpoints (o.planHits g path) e : Int)
    - 2 * ∑ m ∈ o.teammates.toFinset, (reaching listedHitpoints (o.planMateHits g path) m : Int)

/-- The plan hits nobody twice. -/
def HitsNobodyTwice (path : List Step) : Prop :=
  (∀ e ∈ o.enemies, entries (o.planHits g path) e ≤ 1) ∧
    ∀ m ∈ o.teammates, entries (o.planMateHits g path) m ≤ 1

/-- The kills of a step are its lethal hits. -/
theorem killsOf_eq_countP (step : Step) :
    o.killsOf g step
      = ((o.enemyHits g step).countP fun h => decide (listedHitpoints h.1 ≤ h.2) : ℕ)
        - 2 * ((o.mateHits g step).countP fun h => decide (listedHitpoints h.1 ≤ h.2) : ℕ) := by
  cases step with
  | shoot enemy damage =>
      by_cases hkill : damage ≥ enemy.hitpoints.toInt <;>
        simp [killsOf, enemyHits, mateHits, lethal, listedHitpoints, boolToInt, hkill]
  | throwGrenade enemy =>
      have hcount : ∀ (damage : Int) (l : List Trooper),
          (l.map fun n => (n, damage)).countP (fun h => decide (listedHitpoints h.1 ≤ h.2))
            = l.countP (lethal damage) := by
        intro damage l
        rw [List.countP_map]
        rfl
      rw [killsOf, grenadeKills, enemyHits, mateHits, List.countP_cons, hcount, hcount]
      by_cases hkill : o.game.grenadeDirectDamage.toInt ≥ enemy.hitpoints.toInt <;>
        simp [lethal, listedHitpoints, boolToInt, hkill]
      ring
  | _ => simp [killsOf, enemyHits, mateHits]

theorem sum_killsOf (path : List Step) :
    (path.map (o.killsOf g)).sum
      = ((o.planHits g path).countP fun h => decide (listedHitpoints h.1 ≤ h.2) : ℕ)
        - 2 * ((o.planMateHits g path).countP fun h => decide (listedHitpoints h.1 ≤ h.2) : ℕ) := by
  induction path with
  | nil => simp [planHits, planMateHits]
  | cons step path ih =>
      simp only [planHits, planMateHits] at ih
      rw [List.map_cons, List.sum_cons, ih, killsOf_eq_countP, planHits, planMateHits,
        List.flatMap_cons, List.flatMap_cons, List.countP_append, List.countP_append]
      push_cast
      ring

theorem hits_listed {node : Node} {step : Step} (h : step ∈ o.steps g node) :
    (∀ hit ∈ o.enemyHits g step, hit.1 ∈ o.enemies) ∧
      ∀ hit ∈ o.mateHits g step, hit.1 ∈ o.teammates := by
  obtain ⟨_, henabled⟩ := (o.mem_steps_iff g node step).mp h
  cases step with
  | shoot enemy damage => exact ⟨by simpa [enemyHits] using henabled.1, by simp [mateHits]⟩
  | throwGrenade enemy =>
      refine ⟨?_, ?_⟩
      · simp only [enemyHits, List.forall_mem_cons, List.forall_mem_map]
        exact ⟨henabled.2.1, fun n hn => List.mem_of_mem_filter hn⟩
      · simp only [mateHits, List.forall_mem_map]
        exact fun n hn => List.mem_of_mem_filter hn
  | _ => simp [enemyHits, mateHits]

variable {g}

theorem Run.hits_listed {node node' : Node} {path : List Step}
    (hrun : o.Run g node path node') :
    (∀ hit ∈ o.planHits g path, hit.1 ∈ o.enemies) ∧
      ∀ hit ∈ o.planMateHits g path, hit.1 ∈ o.teammates := by
  have henemies : ∀ hit ∈ o.planHits g path, hit.1 ∈ o.enemies :=
    Run.forall_flatMap o hrun fun node step hstep => (o.hits_listed g hstep).1
  have hmates : ∀ hit ∈ o.planMateHits g path, hit.1 ∈ o.teammates :=
    Run.forall_flatMap o hrun fun node step hstep => (o.hits_listed g hstep).2
  exact ⟨henemies, hmates⟩

/-- **What `state.kills` counts.** It is the number of hits that reach the listed hitpoints alone,
    on each enemy, less twice those on each teammate. In a plan that hits nobody twice these are
    the enemies and the teammates whose damage over the plan reaches their hitpoints. -/
theorem kills_eq_lethalHits {p : List Step × Node} (hp : p ∈ o.plans g 10 o.root) :
    p.2.state.kills = o.lethalHits g p.1 ∧
      ((∀ t ∈ o.enemies ++ o.teammates, 0 < listedHitpoints t) → o.HitsNobodyTwice g p.1 →
        p.2.state.kills = o.cumulativeKills g p.1) := by
  have hrun := ((o.mem_plans_iff g 10 o.root p).mp hp).1
  have hroot : o.root.state.kills = 0 := by simp [root, enter, initialState]
  have hkills : p.2.state.kills = o.lethalHits g p.1 := by
    obtain ⟨henemies, hmates⟩ := Run.hits_listed o hrun
    rw [Run.kills_eq o hrun, hroot, sum_killsOf, lethalHits, ← Nat.cast_sum, ← Nat.cast_sum,
      sum_reaching _ (fun hit h => List.mem_toFinset.mpr (henemies hit h)),
      sum_reaching _ (fun hit h => List.mem_toFinset.mpr (hmates hit h)), zero_add]
  refine ⟨hkills, fun hpos honce => ?_⟩
  obtain ⟨honceEnemies, honceMates⟩ := honce
  rw [hkills, lethalHits, cumulativeKills, ← Nat.cast_sum, ← Nat.cast_sum,
    sum_reaching_of_entries_le_one, sum_reaching_of_entries_le_one]
  · exact fun m hm => honceMates m (List.mem_toFinset.mp hm)
  · exact fun m hm => hpos m (List.mem_append_right _ (List.mem_toFinset.mp hm))
  · exact fun e he => honceEnemies e (List.mem_toFinset.mp he)
  · exact fun e he => hpos e (List.mem_append_left _ (List.mem_toFinset.mp he))

/-! ## Heals -/

/-- The heals of a plan. -/
def planHeals (path : List Step) : List (Trooper × Int) := path.flatMap Step.heals

/-- The acting trooper and the listed teammates. -/
def team : Finset Trooper := insert o.self o.teammates.toFinset

variable (g)

/-- Every heal is of one of the team and restores hitpoints it misses. -/
theorem heals_step {node : Node} {step : Step} (h : step ∈ o.steps g node) :
    ∀ heal ∈ step.heals, heal.1 ∈ o.team ∧ heal.2 ≤ heal.1.missing := by
  have henabled := ((o.mem_steps_iff g node step).mp h).2
  have hpatient : ∀ {bonus selfBonus : Int32} {patient : Trooper} {heal : Int},
      o.HealEnabled g node.state bonus selfBonus patient heal →
        patient ∈ o.team ∧ heal ≤ patient.missing := by
    intro bonus selfBonus patient heal hheal
    obtain ⟨_, ⟨hmem, _, rfl⟩ | ⟨rfl, rfl⟩⟩ := hheal
    · exact ⟨Finset.mem_insert_of_mem (List.mem_toFinset.mpr hmem),
        (min_le_right _ _).trans (le_max_right _ _)⟩
    · exact ⟨Finset.mem_insert_self _ _, (min_le_right _ _).trans (le_max_right _ _)⟩
  cases step with
  | useMedikit patient heal => simpa [Step.heals] using hpatient henabled.2
  | heal patient heal => simpa [Step.heals] using hpatient henabled.2
  | _ => simp [Step.heals]

variable {g}

theorem Run.heals_le_missing {node node' : Node} {path : List Step}
    (hrun : o.Run g node path node') :
    ∀ heal ∈ planHeals path, heal.1 ∈ o.team ∧ heal.2 ≤ heal.1.missing :=
  Run.forall_flatMap o hrun fun _ _ hstep => o.heals_step g hstep

/-- Without grenades the damage of the team is what the heals restore. -/
theorem sum_mateDamageOf {path : List Step} (hpath : ∀ step ∈ path, step.isGrenade = false) :
    (path.map (o.mateDamageOf g)).sum = -((planHeals path).map Prod.snd).sum := by
  induction path with
  | nil => simp [planHeals]
  | cons step path ih =>
      obtain ⟨hstep, hrest⟩ := List.forall_mem_cons.mp hpath
      have hone : o.mateDamageOf g step = -(step.heals.map Prod.snd).sum := by
        cases step <;> simp [mateDamageOf, Step.heals, Step.isGrenade] at hstep ⊢
      rw [List.map_cons, List.sum_cons, ih hrest, hone, planHeals, planHeals, List.flatMap_cons,
        List.map_append, List.sum_append]
      ring

/-- **What the heals of a plan are credited with.** A trooper is credited with at most the
    hitpoints it misses for each heal it gets. In a plan without grenades the team's credit is the
    sum of its troopers' credits; if nobody is healed twice, no trooper is credited with more than
    it misses, nor is the team. The sums are exact, as those of the search are if no `int`
    overflows. -/
theorem healed_le {p : List Step × Node} (hp : p ∈ o.plans g 10 o.root)
    (hgrenade : ∀ step ∈ p.1, step.isGrenade = false) :
    (∀ t, total (planHeals p.1) t ≤ entries (planHeals p.1) t * t.missing) ∧
      -p.2.state.mateDamage = ∑ t ∈ o.team, total (planHeals p.1) t ∧
      ((∀ t ∈ o.team, entries (planHeals p.1) t ≤ 1) →
        (∀ t ∈ o.team, total (planHeals p.1) t ≤ t.missing) ∧
          -p.2.state.mateDamage ≤ ∑ t ∈ o.team, t.missing) := by
  have hrun := ((o.mem_plans_iff g 10 o.root p).mp hp).1
  have hroot : o.root.state.mateDamage = 0 := by simp [root, enter, initialState]
  have hheals := Run.heals_le_missing o hrun
  have hcredit : ∀ t, total (planHeals p.1) t ≤ entries (planHeals p.1) t * t.missing :=
    total_le_entries_mul _ fun heal h => (hheals heal h).2
  have hteam : -p.2.state.mateDamage = ∑ t ∈ o.team, total (planHeals p.1) t := by
    rw [sum_total fun heal h => (hheals heal h).1, Run.mateDamage_eq o hrun, hroot,
      sum_mateDamageOf o hgrenade]
    ring
  refine ⟨hcredit, hteam, fun honce => ?_⟩
  have hone : ∀ t ∈ o.team, total (planHeals p.1) t ≤ t.missing := by
    intro t ht
    have hmissing : 0 ≤ t.missing := le_max_left _ _
    have hentries : (entries (planHeals p.1) t : Int) ≤ 1 := by exact_mod_cast honce t ht
    calc total (planHeals p.1) t ≤ entries (planHeals p.1) t * t.missing := hcredit t
      _ ≤ 1 * t.missing := Int.mul_le_mul_of_nonneg_right hentries hmissing
      _ = t.missing := one_mul _
  exact ⟨hone, hteam ▸ Finset.sum_le_sum hone⟩

end SlavaStrategy

/-! ## Two shots and two heals -/

/-- A trooper with the points for two shots of the given damage at the enemy in the corridor. -/
def gunnerTurn (damage : Int32) : Turn :=
  let self := { woundedTrooper with
    actionPoints := 6, standingDamage := damage, shootingRange := ⟨0x4024000000000000⟩ }
  ⟨self, corridor [self, farEnemy] [], { medikitGame with stanceChangeCost := 7 }⟩

/-- The object built for it. -/
def gunnerStrategy (damage : Int32) : SlavaStrategy where
  self := (gunnerTurn damage).self
  world := (gunnerTurn damage).world
  game := (gunnerTurn damage).game
  cells := [[.lowCover], [.free], [.free], [.free], [.lowCover], [.free], [.free], [.free]]
  teammates := [(gunnerTurn damage).self]
  enemies := [farEnemy]
  stances := []

/-- The plan that shoots `n` times. -/
def shots (damage : Int32) (n : ℕ) : List Step × Node :=
  let path := List.replicate n (Step.shoot farEnemy damage.toInt)
  (path, path.foldl ((gunnerStrategy damage).next secondGlobals) (gunnerStrategy damage).root)

/-- Two shots of 60 bring an enemy with 100 hitpoints to zero and are no kill; two shots of 100 are
    two kills of the same enemy. -/
theorem kills_not_cumulative :
    ((gunnerStrategy 60).Searches secondGlobals (fun _ => 7) 1 [corridorTurn] (gunnerTurn 60) ∧
      shots 60 2 ∈ (gunnerStrategy 60).plans secondGlobals 10 (gunnerStrategy 60).root ∧
      (shots 60 2).2.state.kills = 0 ∧
      (gunnerStrategy 60).cumulativeKills secondGlobals (shots 60 2).1 = 1) ∧
    (gunnerStrategy 100).Searches secondGlobals (fun _ => 7) 1 [corridorTurn] (gunnerTurn 100) ∧
      shots 100 2 ∈ (gunnerStrategy 100).plans secondGlobals 10 (gunnerStrategy 100).root ∧
      (shots 100 2).2.state.kills = 2 ∧
      (gunnerStrategy 100).cumulativeKills secondGlobals (shots 100 2).1 = 1 :=
  ⟨⟨searches_second_move rfl rfl, by decide, by decide, by decide⟩,
    searches_second_move rfl rfl, by decide, by decide, by decide⟩

/-- One shot of 100 is one kill. -/
theorem kills_eq_lethalHits_one_shot :
    (shots 100 1).2.state.kills
        = (gunnerStrategy 100).lethalHits secondGlobals (shots 100 1).1 ∧
      (shots 100 1).2.state.kills
        = (gunnerStrategy 100).cumulativeKills secondGlobals (shots 100 1).1 := by
  obtain ⟨hlethal, hcumulative⟩ :=
    (gunnerStrategy 100).kills_eq_lethalHits (g := secondGlobals) (p := shots 100 1)
      (by decide)
  exact ⟨hlethal, hcumulative (by decide) ⟨by decide, by decide⟩⟩

/-- A field medic that misses four hitpoints, with the points for two heals of three. -/
def medicTurn : Turn :=
  let self := { woundedTrooper with type := .fieldMedic, hitpoints := 96 }
  ⟨self, corridor [self] [],
    { medikitGame with fieldMedicHealCost := 1, fieldMedicHealSelfBonusHitpoints := 3 }⟩

/-- The object built for it. -/
def medicStrategy : SlavaStrategy where
  self := medicTurn.self
  world := medicTurn.world
  game := medicTurn.game
  cells := [.lowCover] :: List.replicate 7 [.free]
  teammates := [medicTurn.self]
  enemies := []
  stances := []

/-- The plan of `n` heals. -/
def selfHeals (n : ℕ) : List Step × Node :=
  let path := List.replicate n (Step.heal medicTurn.self 3)
  (path, path.foldl (medicStrategy.next secondGlobals) medicStrategy.root)

/-- Two heals of three hitpoints restore more than the four that are missing. -/
theorem healed_more_than_missing :
    medicStrategy.Searches secondGlobals (fun _ => 7) 1 [corridorTurn] medicTurn ∧
      selfHeals 2 ∈ medicStrategy.plans secondGlobals 10 medicStrategy.root ∧
      (∀ step ∈ (selfHeals 2).1, step.isGrenade = false) ∧
      medicTurn.self.missing = 4 ∧
      total (SlavaStrategy.planHeals (selfHeals 2).1) medicTurn.self = 6 ∧
      -(selfHeals 2).2.state.mateDamage = 6 ∧ ∑ t ∈ medicStrategy.team, t.missing = 4 :=
  ⟨searches_second_move rfl rfl, by decide, by decide, by decide, by decide, by decide, by decide⟩

/-- One heal restores what it is credited with. -/
theorem healed_le_one_heal :
    (∀ t, total (SlavaStrategy.planHeals (selfHeals 1).1) t
        ≤ entries (SlavaStrategy.planHeals (selfHeals 1).1) t * t.missing) ∧
      -(selfHeals 1).2.state.mateDamage ≤ ∑ t ∈ medicStrategy.team, t.missing := by
  obtain ⟨hcredit, _, honce⟩ :=
    medicStrategy.healed_le (g := secondGlobals) (p := selfHeals 1) (by decide)
      (by decide)
  exact ⟨hcredit, (honce (by decide)).2⟩

end CodeTroopers
