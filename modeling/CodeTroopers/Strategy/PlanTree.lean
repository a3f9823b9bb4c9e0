import CodeTroopers.Strategy.SlavaStrategy
import Mathlib.Tactic.Tauto

set_option autoImplicit false

/-! # The plan tree

The search of `maximize_score` as a search of a tree that is a plain value. A `Node` is a state
after the pickup loop with the action points left; `steps` lists the edges out of it in the order
of the seven branches, each with what the branch computed before it recursed; `next` is the node at
the end of an edge.

`maximizeScore_eq_explore` is the bridge: if every access the search makes is defined
(`Defined`), `maximize_score` is the library's `DepthFirst.explore` on this tree, and otherwise it
has no result. Everything about a move is then a statement about `plans`, the paths of the tree. -/

namespace CodeTroopers

open CheckedVector

/-- One edge of the search tree. -/
inductive Step where
  | useMedikit (patient : Trooper) (heal : Int)
  | throwGrenade (enemy : Trooper)
  | heal (patient : Trooper) (heal : Int)
  | shoot (enemy : Trooper) (damage : Int)
  | move (n : Point)
  | raiseStance
  | lowerStance
  | eatFieldRation
deriving DecidableEq

/-- What the branch of a step writes into `cur_action`. -/
def Step.label : Step → Action
  | .useMedikit patient _ => makeActionAt .useMedikit patient.pos
  | .throwGrenade enemy => makeActionAt .throwGrenade enemy.pos
  | .heal patient _ => makeActionAt .heal patient.pos
  | .shoot enemy _ => makeActionAt .shoot enemy.pos
  | .move n => makeActionAt .move n
  | .raiseStance => makeAction .raiseStance
  | .lowerStance => makeAction .lowerStance
  | .eatFieldRation => makeAction .eatFieldRation

/-- A node of the search tree. -/
structure Node where
  points : Int
  state : State
deriving DecidableEq

namespace SlavaStrategy

variable (o : SlavaStrategy) (g : Globals)

/-! ## The edges -/

/-- The action points a step costs. -/
def cost (state : State) : Step → Int
  | .useMedikit .. => o.game.medikitUseCost.toInt
  | .throwGrenade _ => o.game.grenadeThrowCost.toInt
  | .heal .. => o.game.fieldMedicHealCost.toInt
  | .shoot .. => o.self.shootCost.toInt
  | .move _ => o.moveCost state.stance
  | .raiseStance => o.game.stanceChangeCost.toInt
  | .lowerStance => o.game.stanceChangeCost.toInt
  | .eatFieldRation => o.game.fieldRationEatCost.toInt

/-- The action points left after a step: a field ration also gives some. -/
def pointsAfter (node : Node) (step : Step) : Int :=
  match step with
  | .eatFieldRation =>
    node.points - o.cost node.state step + o.game.fieldRationBonusActionPoints.toInt
  | _ => node.points - o.cost node.state step

/-- The state a step hands to the recursive call. -/
def after (state : State) : Step → State
  | .useMedikit _ heal => { state with mateDamage := state.mateDamage - heal, hasMedkit := false }
  | .throwGrenade enemy => o.afterGrenade g state enemy
  | .heal _ heal => { state with mateDamage := state.mateDamage - heal }
  | .shoot enemy damage => afterShot state damage enemy
  | .move n => { state with pos := n }
  | .raiseStance =>
    { state with stance := if state.stance = .prone then .kneeling else .standing }
  | .lowerStance =>
    { state with stance := if state.stance = .standing then .kneeling else .prone }
  | .eatFieldRation => { state with hasFieldRation := false, usedFieldRation := true }

/-- The node a call of `maximize_score` makes of its arguments. -/
def enter (points : Int) (state : State) : Node := ⟨points, pickUp o.world.bonuses state⟩

/-- The node at the end of a step. -/
def next (node : Node) (step : Step) : Node :=
  o.enter (o.pointsAfter node step) (o.after g node.state step)

/-- The hitpoints an item restores to a patient. -/
def healOf (bonusHitpoints : Int32) (patient : Trooper) : Int :=
  min bonusHitpoints.toInt (patient.maximalHitpoints.toInt - patient.hitpoints.toInt)

/-- The patients of a heal: the mates next to the trooper, then the trooper itself. -/
def healSteps (step : Trooper → Int → Step) (bonusHitpoints selfBonusHitpoints : Int32)
    (state : State) : List Step :=
  (o.teammates.filter fun mate =>
      state.pos.hasNeigh g.size mate.pos && decide (healOf bonusHitpoints mate > 0)).map
    (fun mate => step mate (healOf bonusHitpoints mate)) ++
  if healOf selfBonusHitpoints o.self > 0 then [step o.self (healOf selfBonusHitpoints o.self)]
  else []

/-- The edges of the medikit branch. -/
def medikitSteps (node : Node) : List Step :=
  if node.state.hasMedkit ∧ node.points - o.game.medikitUseCost.toInt ≥ 0 then
    o.healSteps g .useMedikit o.game.medikitBonusHitpoints o.game.medikitHealSelfBonusHitpoints
      node.state
  else []

/-- The edges of the grenade branch. -/
def grenadeSteps (node : Node) : List Step :=
  if node.state.hasGrenade ∧ node.points - o.game.grenadeThrowCost.toInt ≥ 0 then
    (o.enemies.filter fun enemy => o.inGrenadeRange node.state enemy).map .throwGrenade
  else []

/-- The edges of the field medic branch. -/
def medicSteps (node : Node) : List Step :=
  if o.self.type = .fieldMedic ∧ node.points - o.game.fieldMedicHealCost.toInt ≥ 0 then
    o.healSteps g .heal o.game.fieldMedicHealBonusHitpoints
      o.game.fieldMedicHealSelfBonusHitpoints node.state
  else []

/-- The edges of the shooting branch. -/
def shootSteps (node : Node) : List Step :=
  if node.points - o.self.shootCost.toInt ≥ 0 then
    (o.enemies.filter fun enemy => o.seesEnemy node.state enemy = some true).map fun enemy =>
      .shoot enemy ((o.self.getDamage node.state.stance).getD 0)
  else []

/-- The edges of the move branch. -/
def moveSteps (node : Node) : List Step :=
  if node.points - o.moveCost node.state.stance ≥ 0 then
    ((node.state.pos.neighs g.size).filter fun n => cellAt o.cells n = some .free).map .move
  else []

/-- The edges of the stance branch. -/
def stanceSteps (node : Node) : List Step :=
  if node.points - o.game.stanceChangeCost.toInt ≥ 0 then
    (if node.state.stance ≠ .standing then [.raiseStance] else []) ++
      if node.state.stance ≠ .prone then [.lowerStance] else []
  else []

/-- The edges of the field ration branch. -/
def rationSteps (node : Node) : List Step :=
  if node.state.hasFieldRation ∧ node.points - o.game.fieldRationEatCost.toInt ≥ 0 then
    [.eatFieldRation]
  else []

/-- The edges out of a node, in the order the source tries them. -/
def steps (node : Node) : List Step :=
  o.medikitSteps g node ++ o.grenadeSteps node ++ o.medicSteps g node ++ o.shootSteps node ++
    o.moveSteps g node ++ o.stanceSteps node ++ o.rationSteps node

/-- The edges out of a node with their ends. -/
def children (node : Node) : List (Step × Node) :=
  (o.steps g node).map fun step => (step, o.next g node step)

/-- The score of a node, where it is defined. -/
def score (node : Node) : Int := (o.scoreState g node.state).getD 0

/-- The plans of at most `n` steps from a node, in depth-first pre-order. -/
abbrev plans (n : ℕ) (node : Node) : List (List Step × Node) :=
  DepthFirst.plans (o.children g) n node

/-- The root of the tree `run()` searches. -/
def root : Node := o.enter o.self.actionPoints.toInt o.initialState

/-- The part of a heal that the medikit and the field medic share: the patient is a mate next to
    the trooper or the trooper itself, and it misses hitpoints. -/
def HealEnabled (state : State) (bonusHitpoints selfBonusHitpoints : Int32) (patient : Trooper)
    (heal : Int) : Prop :=
  heal > 0 ∧
    ((patient ∈ o.teammates ∧ state.pos.hasNeigh g.size patient.pos ∧
        heal = healOf bonusHitpoints patient) ∨
      (patient = o.self ∧ heal = healOf selfBonusHitpoints o.self))

/-- What a state allows, without the action points. -/
def Enabled (state : State) : Step → Prop
  | .useMedikit patient heal => state.hasMedkit ∧ o.HealEnabled g state
      o.game.medikitBonusHitpoints o.game.medikitHealSelfBonusHitpoints patient heal
  | .throwGrenade enemy => state.hasGrenade ∧ enemy ∈ o.enemies ∧ o.inGrenadeRange state enemy
  | .heal patient heal => o.self.type = .fieldMedic ∧ o.HealEnabled g state
      o.game.fieldMedicHealBonusHitpoints o.game.fieldMedicHealSelfBonusHitpoints patient heal
  | .shoot enemy damage => enemy ∈ o.enemies ∧ o.seesEnemy state enemy = some true ∧
      damage = (o.self.getDamage state.stance).getD 0
  | .move n => n ∈ state.pos.neighs g.size ∧ cellAt o.cells n = some .free
  | .raiseStance => state.stance ≠ .standing
  | .lowerStance => state.stance ≠ .prone
  | .eatFieldRation => state.hasFieldRation

theorem mem_healSteps_iff (mk : Trooper → Int → Step) (bonus selfBonus : Int32) (state : State)
    (step : Step) :
    step ∈ o.healSteps g mk bonus selfBonus state
      ↔ ∃ patient heal, step = mk patient heal ∧
          o.HealEnabled g state bonus selfBonus patient heal := by
  have hself : step ∈ (if healOf selfBonus o.self > 0 then [mk o.self (healOf selfBonus o.self)]
      else []) ↔ healOf selfBonus o.self > 0 ∧ step = mk o.self (healOf selfBonus o.self) := by
    split_ifs with h <;> simp [h]
  simp only [healSteps, List.mem_append, List.mem_map, List.mem_filter, Bool.and_eq_true,
    decide_eq_true_eq, hself, HealEnabled]
  constructor
  · intro h
    rcases h with ⟨mate, ⟨hmem, hn, hpos⟩, rfl⟩ | ⟨hpos, rfl⟩
    · exact ⟨mate, _, rfl, hpos, Or.inl ⟨hmem, hn, rfl⟩⟩
    · exact ⟨o.self, _, rfl, hpos, Or.inr ⟨rfl, rfl⟩⟩
  · intro h
    rcases h with ⟨patient, heal, rfl, hpos, ⟨hmem, hn, rfl⟩ | ⟨rfl, rfl⟩⟩
    · exact Or.inl ⟨patient, ⟨hmem, hn, hpos⟩, rfl⟩
    · exact Or.inr ⟨hpos, rfl⟩

/-- **The edges out of a node** are the steps its state allows and its points cover. -/
theorem mem_steps_iff (node : Node) (step : Step) :
    step ∈ o.steps g node ↔ o.cost node.state step ≤ node.points ∧ o.Enabled g node.state step := by
  have hite : ∀ (c : Prop) [Decidable c] (l : List Step),
      step ∈ (if c then l else []) ↔ c ∧ step ∈ l := by
    intro c _ l
    split_ifs with h <;> simp [h]
  simp only [steps, List.mem_append, medikitSteps, grenadeSteps, medicSteps, shootSteps, moveSteps,
    stanceSteps, rationSteps, hite, mem_healSteps_iff, List.mem_map, List.mem_filter,
    List.mem_singleton, decide_eq_true_eq]
  cases step with
  | shoot enemy damage =>
      -- the damage of a shot depends on the stance alone, so the enemy determines the step
      have hshoot : (∃ a, (a ∈ o.enemies ∧ o.seesEnemy node.state a = some true) ∧
          Step.shoot a ((o.self.getDamage node.state.stance).getD 0) = .shoot enemy damage) ↔
          o.Enabled g node.state (.shoot enemy damage) := by
        constructor
        · intro h
          obtain ⟨a, ⟨hmem, hsees⟩, heq⟩ := h
          cases heq
          exact ⟨hmem, hsees, rfl⟩
        · intro h
          obtain ⟨hmem, hsees, rfl⟩ := h
          exact ⟨enemy, ⟨hmem, hsees⟩, rfl⟩
      simp only [hshoot]
      simp [cost]
  | _ => simp [Enabled, cost, and_assoc] <;> tauto

/-! ## Definedness -/

/-- The shooting branch reads the visibility table for an enemy, and if it is visible the damage,
    inside their bounds. -/
def ShotDefined (state : State) (enemy : Trooper) : Prop :=
  (o.seesEnemy state enemy).isSome ∧
    (o.seesEnemy state enemy = some true → (o.self.getDamage state.stance).isSome)

/-- The shooting branch at the node makes no undefined access. -/
def ShotsDefined (node : Node) : Prop :=
  node.points - o.self.shootCost.toInt ≥ 0 → ∀ enemy ∈ o.enemies, o.ShotDefined node.state enemy

/-- The move branch at the node reads the cells inside their bounds. -/
def MovesDefined (node : Node) : Prop :=
  node.points - o.moveCost node.state.stance ≥ 0 →
    ∀ n ∈ node.state.pos.neighs g.size, (cellAt o.cells n).isSome

/-- Every access in the `n` levels below a node is defined. -/
def Defined : ℕ → Node → Prop
  | 0, node => (o.scoreState g node.state).isSome
  | n + 1, node => (o.scoreState g node.state).isSome ∧ o.ShotsDefined node ∧
      o.MovesDefined g node ∧ ∀ step ∈ o.steps g node, Defined n (o.next g node step)

instance (state : State) (enemy : Trooper) : Decidable (o.ShotDefined state enemy) :=
  inferInstanceAs (Decidable (_ ∧ _))

instance (node : Node) : Decidable (o.ShotsDefined node) :=
  inferInstanceAs (Decidable (_ → _))

instance (node : Node) : Decidable (o.MovesDefined g node) :=
  inferInstanceAs (Decidable (_ → _))

instance decidableDefined : (n : ℕ) → (node : Node) → Decidable (o.Defined g n node)
  | 0, node => inferInstanceAs (Decidable ((o.scoreState g node.state).isSome = true))
  | n + 1, node =>
    have : ∀ step, Decidable (o.Defined g n (o.next g node step)) := fun _ =>
      decidableDefined n _
    inferInstanceAs (Decidable (_ ∧ _ ∧ _ ∧ _))

/-! ## The branches are loops over the edges -/

/-- The recursive call at the end of an edge. -/
def visitStep (visit : Visit) (node : Node) (s : SearchVars) (step : Step) : Option SearchVars :=
  visit step.label (o.pointsAfter node step) (o.after g node.state step) s

theorem healBranch_eq (visit : Visit) (action : ActionType) (bonus selfBonus : Int32)
    (after : Int → State) (points : Int) (state : State) (s : SearchVars)
    (step : Trooper → Int → Step) (body : SearchVars → Step → Option SearchVars)
    (hbody : ∀ patient heal s,
      body s (step patient heal) = visit (makeActionAt action patient.pos) points (after heal) s) :
    o.healBranch g visit action bonus selfBonus after points state s
      = (o.healSteps g step bonus selfBonus state).foldlM body s := by
  simp only [healBranch, healSteps, List.foldlM_append, List.foldlM_map, List.foldlM_filter, hbody,
    Option.bind_eq_bind, Option.pure_def]
  congr 1
  · congr 1
    funext s mate
    by_cases hn : state.pos.hasNeigh g.size mate.pos <;> simp [hn, healOf]
  · funext s
    by_cases hself : healOf selfBonus o.self > 0
    · rw [if_pos hself, List.foldlM_cons, hbody]
      exact (if_pos hself).trans (Option.bind_fun_some _).symm
    · rw [if_neg hself]
      exact if_neg hself

theorem medikitBranch_eq (visit : Visit) (node : Node) (s : SearchVars) :
    o.medikitBranch g visit node.points node.state s
      = (o.medikitSteps g node).foldlM (o.visitStep g visit node) s := by
  rw [medikitBranch, medikitSteps, ite_and]
  dsimp only
  split_ifs
  · exact o.healBranch_eq g visit .useMedikit _ _ _ _ _ s .useMedikit _ fun _ _ _ => rfl
  · rfl
  · rfl

theorem grenadeBranch_eq (visit : Visit) (node : Node) (s : SearchVars) :
    o.grenadeBranch g visit node.points node.state s
      = (o.grenadeSteps node).foldlM (o.visitStep g visit node) s := by
  rw [grenadeBranch, grenadeSteps, ite_and]
  dsimp only
  split_ifs
  · rw [List.foldlM_map, List.foldlM_filter]
    rfl
  · rfl
  · rfl

theorem medicBranch_eq (visit : Visit) (node : Node) (s : SearchVars) :
    o.medicBranch g visit node.points node.state s
      = (o.medicSteps g node).foldlM (o.visitStep g visit node) s := by
  rw [medicBranch, medicSteps, ite_and]
  dsimp only
  split_ifs
  · exact o.healBranch_eq g visit .heal _ _ _ _ _ s .heal _ fun _ _ _ => rfl
  · rfl
  · rfl

theorem stanceBranch_eq (visit : Visit) (node : Node) (s : SearchVars) :
    o.stanceBranch visit node.points node.state s
      = (o.stanceSteps node).foldlM (o.visitStep g visit node) s := by
  rw [stanceBranch, stanceSteps]
  dsimp only
  split_ifs <;> simp [visitStep, Step.label, pointsAfter, cost, after, *]

theorem rationBranch_eq (visit : Visit) (node : Node) (s : SearchVars) :
    o.rationBranch visit node.points node.state s
      = (o.rationSteps node).foldlM (o.visitStep g visit node) s := by
  rw [rationBranch, rationSteps, ite_and]
  dsimp only
  split_ifs
  · exact (Option.bind_fun_some _).symm
  · rfl
  · rfl

/-- The loop over the enemies is the loop over the edges, unless something in it is undefined. -/
theorem shootBranch_eq (visit : Visit) (node : Node) (s : SearchVars) :
    o.shootBranch visit node.points node.state s
      = if o.ShotsDefined node then (o.shootSteps node).foldlM (o.visitStep g visit node) s
        else none := by
  unfold shootBranch shootSteps
  dsimp only
  by_cases hpts : node.points - o.self.shootCost.toInt ≥ 0
  · have hiff : o.ShotsDefined node ↔ ∀ enemy ∈ o.enemies, o.ShotDefined node.state enemy :=
      forall_prop_of_true hpts
    rw [if_pos hpts, if_pos hpts, List.foldlM_map, if_congr hiff rfl rfl]
    refine foldlM_guarded (o.ShotDefined node.state) _ _ _ _ (fun enemy _ s => ?_) s
    -- the table is read out of bounds, the enemy is hidden, or it is seen and the damage asked for
    rcases hsees : o.seesEnemy node.state enemy with _ | _ | _
    · simp [ShotDefined, hsees]
    · simp [ShotDefined, hsees]
    · cases hd : o.self.getDamage node.state.stance <;>
        simp [ShotDefined, hsees, hd, visitStep, Step.label, pointsAfter, cost, after]
  · have hdef : o.ShotsDefined node := fun h => absurd h hpts
    rw [if_neg hpts, if_neg hpts, if_pos hdef]
    rfl

/-- The loop over the neighbours is the loop over the edges, unless something in it is
    undefined. -/
theorem moveBranch_eq (visit : Visit) (node : Node) (s : SearchVars) :
    o.moveBranch g visit node.points node.state s
      = if o.MovesDefined g node then (o.moveSteps g node).foldlM (o.visitStep g visit node) s
        else none := by
  unfold moveBranch moveSteps
  dsimp only
  by_cases hpts : node.points - o.moveCost node.state.stance ≥ 0
  · have hiff : o.MovesDefined g node ↔
        ∀ n ∈ node.state.pos.neighs g.size, (cellAt o.cells n).isSome := forall_prop_of_true hpts
    rw [if_pos hpts, if_pos hpts, List.foldlM_map, if_congr hiff rfl rfl]
    refine foldlM_guarded (fun n => (cellAt o.cells n).isSome) _ _ _ _ (fun n _ s => ?_) s
    cases cellAt o.cells n with
    | none => simp
    | some cell =>
        by_cases hfree : cell = .free <;>
          simp [hfree, visitStep, Step.label, pointsAfter, cost, after]
  · have hdef : o.MovesDefined g node := fun h => absurd h hpts
    rw [if_neg hpts, if_neg hpts, if_pos hdef]
    rfl

/-- The seven branches in a row are one loop over the edges of the node. -/
theorem branches_eq (visit : Visit) (node : Node) (s : SearchVars) :
    (do
      let s ← o.medikitBranch g visit node.points node.state s
      let s ← o.grenadeBranch g visit node.points node.state s
      let s ← o.medicBranch g visit node.points node.state s
      let s ← o.shootBranch visit node.points node.state s
      let s ← o.moveBranch g visit node.points node.state s
      let s ← o.stanceBranch visit node.points node.state s
      o.rationBranch visit node.points node.state s)
      = if o.ShotsDefined node ∧ o.MovesDefined g node then
          (o.steps g node).foldlM (o.visitStep g visit node) s
        else none := by
  simp only [medikitBranch_eq, grenadeBranch_eq, medicBranch_eq, shootBranch_eq o g,
    moveBranch_eq, stanceBranch_eq o g, rationBranch_eq o g, steps, List.foldlM_append]
  -- only these two branches make accesses that may be undefined
  by_cases hshots : o.ShotsDefined node
  · by_cases hmoves : o.MovesDefined g node
    · simp [hshots, hmoves, Option.bind_assoc]
    · simp [hmoves]
  · simp [hshots]

/-! ## The bridge -/

/-- **The search is a search of the plan tree.** If every access below the node is defined,
    `maximize_score` explores the tree; otherwise the run is undefined. -/
theorem maximizeScore_eq_explore (left : ℕ) (points : Int) (state : State) (s : SearchVars) :
    o.maximizeScore g left points state s
      = if o.Defined g left (o.enter points state) then
          some (DepthFirst.explore (o.children g) Step.label (o.score g) 10 left
            (o.enter points state) s)
        else none := by
  induction left generalizing points state s with
  | zero =>
      rw [maximizeScore]
      cases hscore : o.scoreState g (pickUp o.world.bonuses state) <;>
        simp [Defined, enter, hscore, DepthFirst.explore, score]
  | succ left ih =>
      rw [maximizeScore]
      generalize hnode : o.enter points state = node
      obtain rfl : points = node.points := by rw [← hnode]; rfl
      have hstate : pickUp o.world.bonuses state = node.state := by rw [← hnode]; rfl
      dsimp only
      simp only [hstate, branches_eq o g _ node]
      -- the recursive call at the end of an edge, by the induction hypothesis
      have hvisit : ∀ step ∈ o.steps g node, ∀ s, o.visitStep g
          (fun action points newState s => o.maximizeScore g left points newState
            (if left + 1 = 10 then { s with cur := action } else s)) node s step
          = if o.Defined g left (o.next g node step) then
              if true then some (DepthFirst.explore (o.children g) Step.label (o.score g) 10 left
                (o.next g node step)
                (if left + 1 = 10 then { s with cur := step.label } else s)) else some s
            else none := by
        intro step _ s
        rw [if_pos rfl]
        exact ih _ _ _
      cases hscore : o.scoreState g node.state with
      | none => simp [Defined, hscore]
      | some v =>
          -- the loop over the edges checks each subtree and then explores it
          rw [Option.bind_eq_bind, Option.bind_some,
            foldlM_guarded _ (fun _ => true) _ _ _ hvisit, List.filter_eq_self.mpr fun _ _ => rfl,
            ← Option.pure_def, List.foldlM_pure]
          simp only [Defined, hscore, Option.isSome_some, true_and, DepthFirst.explore, children,
            List.foldl_map, score, Option.getD_some]
          rw [← ite_and]
          exact if_congr and_assoc rfl rfl

end SlavaStrategy

end CodeTroopers
