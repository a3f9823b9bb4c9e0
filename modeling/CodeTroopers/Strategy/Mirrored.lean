import CodeTroopers.Library.RelatedLists
import CodeTroopers.Strategy.BoardSymmetry
import CodeTroopers.Strategy.Credit
import CodeTroopers.Strategy.Process
import Mathlib.Tactic.IntervalCases

set_option autoImplicit false

/-! # A mirrored game is played to the same scores

`BoardSymmetry.MapsTurn` lays the arguments of a move on another board: the cells, the visibilities
and whatever stands or lies on the board. What the trooper of the one move can do, that of the other
can do on the mirrored cells (`MapsStrategy.exists_step`), and every node of the one search is worth
as much as its mirror image. The order of `neighs()` is not mirrored, so that another plan of the
best score may come first; the best score is the same.

`bestScores` are what a process logs as `best_score`, move by move. With mirrored draws the target
loops stop at mirrored targets, and the two processes log the same (`process_mirrored`). -/

namespace CodeTroopers

open CheckedVector RelatedLists SlavaStrategy

namespace BoardSymmetry

variable {b b' : BoardSize} (φ : BoardSymmetry b b')

/-! ## Mirrored arguments -/

/-- The same trooper on the mirrored cell. -/
structure MapsTrooper (t t' : Trooper) : Prop where
  pos : t'.pos = φ.map t.pos
  eq : t' = { t with x := t'.x, y := t'.y }

/-- The same bonus on the mirrored cell. -/
structure MapsBonus (bonus bonus' : Bonus) : Prop where
  pos : bonus'.pos = φ.map bonus.pos
  eq : bonus' = { bonus with x := bonus'.x, y := bonus'.y }

/-- The same world, laid on the second board. -/
structure MapsWorld (w w' : World) : Prop where
  cells : φ.MapsCells w.cells w'.cells
  troopers : List.Forall₂ φ.MapsTrooper w.troopers w'.troopers
  bonuses : List.Forall₂ φ.MapsBonus w.bonuses w'.bonuses
  visibilities : ∀ q p : Point, q.isCorrect b = true → p.isCorrect b = true →
    ∀ stanceIndex : Int, 0 ≤ stanceIndex → stanceIndex < 3 →
      w'.visibilityAt (φ.map q) (φ.map p) stanceIndex = w.visibilityAt q p stanceIndex

/-- The same move on the second board. -/
structure MapsTurn (turn turn' : Turn) : Prop where
  self : φ.MapsTrooper turn.self turn'.self
  world : φ.MapsWorld turn.world turn'.world
  game : turn'.game = turn.game

variable {φ}

theorem MapsTrooper.symm {t t' : Trooper} (h : φ.MapsTrooper t t') : φ.symm.MapsTrooper t' t where
  pos := by
    rw [h.pos]
    exact (φ.inv_map t.pos).symm
  eq := by rw [h.eq]

theorem MapsBonus.symm {bonus bonus' : Bonus} (h : φ.MapsBonus bonus bonus') :
    φ.symm.MapsBonus bonus' bonus where
  pos := by
    rw [h.pos]
    exact (φ.inv_map bonus.pos).symm
  eq := by rw [h.eq]

theorem MapsWorld.symm {w w' : World} (h : φ.MapsWorld w w') : φ.symm.MapsWorld w' w where
  cells := h.cells.symm
  troopers := (h.troopers.imp fun _ _ ht => ht.symm).flip
  bonuses := (h.bonuses.imp fun _ _ hbonus => hbonus.symm).flip
  visibilities q p hq hp stanceIndex hnonneg hlt := by
    have hread := h.visibilities (φ.inv q) (φ.inv p) ((φ.symm.isCorrect_map q).trans hq)
      ((φ.symm.isCorrect_map p).trans hp) stanceIndex hnonneg hlt
    rw [φ.map_inv, φ.map_inv] at hread
    exact hread.symm

theorem MapsTurn.symm {turn turn' : Turn} (h : φ.MapsTurn turn turn') :
    φ.symm.MapsTurn turn' turn :=
  ⟨h.self.symm, h.world.symm, h.game.symm⟩

/-- **A cell is seen from another one exactly if its mirror image is.** -/
theorem MapsWorld.isVisible_map {w w' : World} (h : φ.MapsWorld w w') (range : Double)
    {q p : Point} (hq : q.isCorrect b = true) (hp : p.isCorrect b = true)
    {stance stance' : TrooperStance} (hs : stance ∈ allStances) (hs' : stance' ∈ allStances) :
    w'.isVisible range (φ.map q) stance (φ.map p) stance'
      = w.isVisible range q stance p stance' := by
  have hindex : 0 ≤ min stance.toInt stance'.toInt ∧ min stance.toInt stance'.toInt < 3 := by
    have hbounds : ∀ s ∈ allStances, 0 ≤ s.toInt ∧ s.toInt < 3 := by decide
    obtain ⟨h0, hlt⟩ := hbounds stance hs
    exact ⟨le_min h0 (hbounds stance' hs').1, min_lt_of_left_lt hlt⟩
  rw [World.isVisible_eq, World.isVisible_eq]
  show (if Float.ofInt ((φ.map q).sqDist (φ.map p)) ≤ range.toFloat * range.toFloat then _ else _)
    = if Float.ofInt (q.sqDist p) ≤ range.toFloat * range.toFloat then _ else _
  rw [φ.sqDist_map, h.visibilities q p hq hp _ hindex.1 hindex.2]

/-! ## Mirrored searches -/

/-- The same object on the second board. -/
structure MapsStrategy (φ : BoardSymmetry b b') (o o' : SlavaStrategy) : Prop where
  turn : φ.MapsTurn ⟨o.self, o.world, o.game⟩ ⟨o'.self, o'.world, o'.game⟩
  cells : φ.MapsCells o.cells o'.cells
  teammates : List.Forall₂ φ.MapsTrooper o.teammates o'.teammates
  enemies : List.Forall₂ φ.MapsTrooper o.enemies o'.enemies
  stances : o'.stances = o.stances

theorem MapsTurn.mapsStrategy {turn turn' : Turn} (h : φ.MapsTurn turn turn')
    {g₀ g₀' g₁ g₁' : Globals} {o o' : SlavaStrategy} (hc : Constructed turn g₀ o g₁)
    (hc' : Constructed turn' g₀' o' g₁') (hindex : g₁'.moveIndex = g₁.moveIndex) :
    φ.MapsStrategy o o' := by
  have hteam : ∀ t t', φ.MapsTrooper t t' → t'.teammate = t.teammate := fun _ _ ht => by
    rw [ht.eq]
  refine ⟨?_, fun p hp => ?_, ?_, ?_, ?_⟩
  · rw [hc.self_eq, hc.world_eq, hc.game_eq, hc'.self_eq, hc'.world_eq, hc'.game_eq]
    exact h
  · by_cases htrooper : ∃ t ∈ turn.world.troopers, t.pos = p
    · obtain ⟨t, ht, htp⟩ := htrooper
      obtain ⟨t', ht', hmaps⟩ := exists_mem h.world.troopers ht
      rw [hc.cellAt_of_trooper p ⟨t, ht, htp⟩,
        hc'.cellAt_of_trooper (φ.map p) ⟨t', ht', by rw [hmaps.pos, htp]⟩]
    · have hempty : ∀ t ∈ turn.world.troopers, t.pos ≠ p := fun t ht htp => htrooper ⟨t, ht, htp⟩
      rw [hc.cellAt_of_empty p hempty, hc'.cellAt_of_empty (φ.map p) fun t' ht' htp' => ?_]
      · exact h.world.cells p hp
      · obtain ⟨t, ht, hmaps⟩ := exists_mem h.symm.world.troopers ht'
        refine hempty t ht ?_
        rw [hmaps.pos, htp']
        exact φ.inv_map p
  · rw [hc.teammates_eq, hc'.teammates_eq]
    exact filter_related h.world.troopers hteam
  · rw [hc.enemies_eq, hc'.enemies_eq]
    exact filter_related h.world.troopers fun t t' ht => by rw [hteam t t' ht]
  · rw [hc.stances_eq, hc'.stances_eq, hindex]

/-- The state on the mirrored cell. -/
def state (φ : BoardSymmetry b b') (state : State) : State := { state with pos := φ.map state.pos }

/-- The node on the mirrored cell. -/
def node (φ : BoardSymmetry b b') (node : Node) : Node := ⟨node.points, φ.state node.state⟩

/-- The same step on the second board. -/
inductive MapsStep (φ : BoardSymmetry b b') : Step → Step → Prop where
  | useMedikit {patient patient' : Trooper} (heal : Int) (h : φ.MapsTrooper patient patient') :
      MapsStep φ (.useMedikit patient heal) (.useMedikit patient' heal)
  | throwGrenade {enemy enemy' : Trooper} (h : φ.MapsTrooper enemy enemy') :
      MapsStep φ (.throwGrenade enemy) (.throwGrenade enemy')
  | heal {patient patient' : Trooper} (heal : Int) (h : φ.MapsTrooper patient patient') :
      MapsStep φ (.heal patient heal) (.heal patient' heal)
  | shoot {enemy enemy' : Trooper} (damage : Int) (h : φ.MapsTrooper enemy enemy') :
      MapsStep φ (.shoot enemy damage) (.shoot enemy' damage)
  | move (n : Point) : MapsStep φ (.move n) (.move (φ.map n))
  | raiseStance : MapsStep φ .raiseStance .raiseStance
  | lowerStance : MapsStep φ .lowerStance .lowerStance
  | eatFieldRation : MapsStep φ .eatFieldRation .eatFieldRation

theorem MapsTrooper.lethal_eq {t t' : Trooper} (h : φ.MapsTrooper t t') (damage : Int) :
    lethal damage t' = lethal damage t := by
  rw [lethal, lethal, congrArg Trooper.hitpoints h.eq]

theorem MapsTrooper.healOf_eq {t t' : Trooper} (h : φ.MapsTrooper t t') (bonus : Int32) :
    healOf bonus t' = healOf bonus t := by
  rw [healOf, healOf, congrArg Trooper.hitpoints h.eq, congrArg Trooper.maximalHitpoints h.eq]

theorem bonusAt_map {bonuses bonuses' : List Bonus}
    (h : List.Forall₂ φ.MapsBonus bonuses bonuses') (p : Point) (type : BonusType) :
    bonusAt bonuses' (φ.map p) type = bonusAt bonuses p type := by
  refine any_eq h fun bonus bonus' hbonus => ?_
  rw [hbonus.pos, congrArg Bonus.type hbonus.eq]
  simp only [φ.map_inj]

theorem pickUp_map {bonuses bonuses' : List Bonus}
    (h : List.Forall₂ φ.MapsBonus bonuses bonuses') (state : State) :
    pickUp bonuses' (φ.state state) = φ.state (pickUp bonuses state) := by
  rw [pickUp_eq, pickUp_eq]
  simp only [BoardSymmetry.state, bonusAt_map h]

section Search

variable {o o' : SlavaStrategy} {g g' : Globals} (h : φ.MapsStrategy o o') (hsize : g.size = b)
  (hsize' : g'.size = b')

include h

theorem MapsStrategy.game_eq : o'.game = o.game := h.turn.game

theorem MapsStrategy.root_eq : o'.root = φ.node o.root := by
  have hself : o'.self = _ := h.turn.self.eq
  have hpos : o'.self.pos = φ.map o.self.pos := h.turn.self.pos
  have hinitial : o'.initialState = φ.state o.initialState := by
    simp only [initialState, BoardSymmetry.state, hpos]
    rw [hself]
  rw [root, root, enter, enter, hinitial, pickUp_map h.turn.world.bonuses, hself]
  rfl

theorem MapsStrategy.cost_map (state : State) {step step' : Step} (hstep : φ.MapsStep step step') :
    o'.cost (φ.state state) step' = o.cost state step := by
  have hself : o'.self = _ := h.turn.self.eq
  cases hstep <;> simp only [cost, moveCost, h.game_eq] <;> try rfl
  rw [hself]

theorem MapsStrategy.inGrenadeRange_map (state : State) {enemy enemy' : Trooper}
    (henemy : φ.MapsTrooper enemy enemy') :
    o'.inGrenadeRange (φ.state state) enemy' = o.inGrenadeRange state enemy := by
  have hdistance := φ.distanceTo_map state.pos enemy.pos
  rw [← henemy.pos] at hdistance
  rw [inGrenadeRange, inGrenadeRange, h.game_eq, ← hdistance]
  rfl

include hsize hsize'

theorem MapsStrategy.blast_map {enemy enemy' : Trooper} (henemy : φ.MapsTrooper enemy enemy') :
    List.Forall₂ φ.MapsTrooper (o.blastEnemies g enemy) (o'.blastEnemies g' enemy') ∧
      List.Forall₂ φ.MapsTrooper (o.blastMates g enemy) (o'.blastMates g' enemy') := by
  have hneigh : ∀ t t', φ.MapsTrooper t t' →
      enemy'.pos.hasNeigh g'.size t'.pos = enemy.pos.hasNeigh g.size t.pos := fun t t' ht => by
    rw [henemy.pos, ht.pos, hsize, hsize', φ.hasNeigh_map]
  exact ⟨filter_related h.enemies hneigh, filter_related h.teammates hneigh⟩

theorem MapsStrategy.afterGrenade_map (state : State) {enemy enemy' : Trooper}
    (henemy : φ.MapsTrooper enemy enemy') :
    o'.afterGrenade g' (φ.state state) enemy' = φ.state (o.afterGrenade g state enemy) := by
  obtain ⟨henemies, hmates⟩ := h.blast_map hsize hsize' henemy
  have hkills : o'.grenadeKills g' enemy' = o.grenadeKills g enemy := by
    rw [grenadeKills, grenadeKills, h.game_eq, henemy.lethal_eq,
      countP_eq henemies fun _ _ ht => ht.lethal_eq _,
      countP_eq hmates fun _ _ ht => ht.lethal_eq _]
  rw [afterGrenade_eq, afterGrenade_eq, hkills, h.game_eq, ← henemies.length_eq,
    ← hmates.length_eq]
  rfl

/-- **A step leads from the mirror image of a node to that of the next one.** -/
theorem MapsStrategy.next_map (node : Node) {step step' : Step} (hstep : φ.MapsStep step step') :
    o'.next g' (φ.node node) step' = φ.node (o.next g node step) := by
  have hcost := h.cost_map node.state hstep
  have hpoints : o'.pointsAfter (φ.node node) step' = o.pointsAfter node step := by
    cases hstep <;> simp only [pointsAfter, h.game_eq] <;> rw [← hcost] <;> rfl
  have hafter : o'.after g' (φ.node node).state step' = φ.state (o.after g node.state step) := by
    cases hstep with
    | throwGrenade henemy => exact h.afterGrenade_map hsize hsize' node.state henemy
    | shoot damage henemy =>
        simp only [after, afterShot, congrArg Trooper.hitpoints henemy.eq]
        rfl
    | _ => rfl
  rw [next, next, enter, enter, hpoints, hafter, pickUp_map h.turn.world.bonuses]
  rfl

end Search

/-! ## Steps and scores -/

section Steps

variable {turn : Turn} {b' : BoardSize} {φ : BoardSymmetry turn.world.size b'}
  {o o' : SlavaStrategy} {g₀ g₁ g g' : Globals} (hturn : turn.Consistent)
  (hc : Constructed turn g₀ o g₁) (h : φ.MapsStrategy o o') (hsize : g.size = turn.world.size)
  (hsize' : g'.size = b') {node : Node} (hinside : Inside turn node)

include hturn hc h hsize hsize' hinside

/-- **What the one trooper can do, the other can do on the mirrored cells.** -/
theorem MapsStrategy.exists_step {step : Step} (hstep : step ∈ o.steps g node) :
    ∃ step' ∈ o'.steps g' (φ.node node), φ.MapsStep step step' := by
  have hpos := hinside.isCorrect hturn
  have hself : o'.self = _ := h.turn.self.eq
  obtain ⟨hcost, henabled⟩ := (o.mem_steps_iff g node step).mp hstep
  -- it is enough to find a mirrored step that the state allows
  have hpaid : ∀ step', φ.MapsStep step step' → o'.Enabled g' (φ.state node.state) step' →
      ∃ step' ∈ o'.steps g' (φ.node node), φ.MapsStep step step' := fun step' hmaps hen => by
    exact ⟨step', (o'.mem_steps_iff g' (φ.node node) step').mpr
      ⟨(h.cost_map node.state hmaps).trans_le hcost, hen⟩, hmaps⟩
  have hpatient : ∀ {bonus selfBonus : Int32} {patient : Trooper} {heal : Int},
      o.HealEnabled g node.state bonus selfBonus patient heal → ∃ patient',
        φ.MapsTrooper patient patient' ∧
          o'.HealEnabled g' (φ.state node.state) bonus selfBonus patient' heal := by
    rintro bonus selfBonus patient heal ⟨hheal, ⟨hmem, hneigh, rfl⟩ | ⟨rfl, rfl⟩⟩
    · obtain ⟨patient', hmem', hmaps⟩ := exists_mem h.teammates hmem
      refine ⟨patient', hmaps, hheal, Or.inl ⟨hmem', ?_, (hmaps.healOf_eq bonus).symm⟩⟩
      rw [hmaps.pos, hsize']
      rw [hsize] at hneigh
      exact (φ.hasNeigh_map _ _).trans hneigh
    · exact ⟨o'.self, h.turn.self, hheal, Or.inr ⟨rfl, (h.turn.self.healOf_eq selfBonus).symm⟩⟩
  cases step with
  | useMedikit patient heal =>
      obtain ⟨hhas, hen⟩ := henabled
      obtain ⟨patient', hmaps, hen'⟩ := hpatient hen
      exact hpaid _ (.useMedikit heal hmaps) ⟨hhas, by rw [h.game_eq]; exact hen'⟩
  | throwGrenade enemy =>
      obtain ⟨hhas, hmem, hrange⟩ := henabled
      obtain ⟨enemy', hmem', hmaps⟩ := exists_mem h.enemies hmem
      exact hpaid _ (.throwGrenade hmaps)
        ⟨hhas, hmem', (h.inGrenadeRange_map node.state hmaps).trans hrange⟩
  | heal patient heal =>
      obtain ⟨hmedic, hen⟩ := henabled
      obtain ⟨patient', hmaps, hen'⟩ := hpatient hen
      refine hpaid _ (.heal heal hmaps) ⟨?_, by rw [h.game_eq]; exact hen'⟩
      rw [hself]
      exact hmedic
  | shoot enemy damage =>
      obtain ⟨hmem, hsees, rfl⟩ := henabled
      obtain ⟨enemy', hmem', hmaps⟩ := exists_mem h.enemies hmem
      obtain ⟨hboard, hstance⟩ := enemy_placed hturn hc hmem
      refine hpaid _ (.shoot _ hmaps) ⟨hmem', ?_, ?_⟩
      · rw [seesEnemy, hmaps.pos, congrArg Trooper.stance hmaps.eq,
          congrArg Trooper.shootingRange hself]
        exact (h.turn.world.isVisible_map _ hpos hboard hinside.stance hstance).trans hsees
      · rw [hself]
        rfl
  | move n =>
      obtain ⟨hneigh, hfree⟩ := henabled
      rw [hsize] at hneigh
      have hon := ((Point.hasNeigh_iff _ _ _).mp
        ((Point.mem_neighs_iff_hasNeigh _ _ _ hpos).mp hneigh)).1
      refine hpaid _ (.move n) ⟨?_, (h.cells n hon).trans hfree⟩
      rw [hsize']
      exact (φ.mem_neighs_map hpos).mpr hneigh
  | raiseStance => exact hpaid _ .raiseStance henabled
  | lowerStance => exact hpaid _ .lowerStance henabled
  | eatFieldRation => exact hpaid _ .eatFieldRation henabled

variable (hdistances : ∀ p q : Point, p.isCorrect turn.world.size = true →
    q.isCorrect turn.world.size = true →
    minDistance g'.floydDist (φ.map p) (φ.map q) = minDistance g.floydDist p q)
  (htarget : g.target.isCorrect turn.world.size = true) (htarget' : g'.target = φ.map g.target)

include hdistances htarget htarget'

omit hsize hsize' in
/-- The search has the same view of a mirrored node. -/
theorem MapsStrategy.sameView : SameView o g node.state o' g' (φ.state node.state) := by
  have hpos := hinside.isCorrect hturn
  have hself : o'.self = _ := h.turn.self.eq
  refine ⟨?_, ?_, ?_, ?_, h.teammates.length_eq.symm, by rw [hself]⟩
  · refine foldlM_eq (related_of_mem h.teammates fun mate hmate => (mate_placed hturn hc hmate).1)
      (fun mate mate' hmaps d => ?_) 0
    rw [hmaps.2.pos]
    exact congrArg _ (hdistances _ _ hpos hmaps.1)
  · refine foldlM_eq (related_of_mem h.enemies fun enemy henemy => enemy_placed hturn hc henemy)
      (fun enemy enemy' hmaps n => ?_) 0
    obtain ⟨⟨hboard, _⟩, hmaps⟩ := hmaps
    have hseen : List.Forall₂ (fun stance stance' =>
        o'.seenFrom (φ.state node.state) enemy' stance' = o.seenFrom node.state enemy stance)
        o.stances o.stances := by
      refine List.forall₂_same.mpr fun stance hstance => ?_
      rw [seenFrom, hmaps.pos, congrArg Trooper.shootingRange hmaps.eq]
      exact h.turn.world.isVisible_map _ hboard hpos (mem_allStances_of_mem_stances hc hstance)
        hinside.stance
    rw [isShooting, isShooting, h.inGrenadeRange_map node.state hmaps, h.stances,
      foldlM_eq hseen fun _ _ heq shooting => congrArg (Option.map fun v => shooting || v) heq]
  · refine any_eq h.teammates fun mate mate' hmaps => ?_
    have hdistance := φ.distanceTo_map node.state.pos mate.pos
    rw [← hmaps.pos] at hdistance
    rw [congrArg Trooper.type hmaps.eq, h.game_eq, ← hdistance]
    rfl
  · rw [htarget']
    exact hdistances _ _ hpos htarget

omit hsize hsize' in
/-- **A mirrored node is worth the same.** -/
theorem MapsStrategy.score_map : o'.score g' (φ.node node) = o.score g node := by
  obtain ⟨hmates, henemies, hclose, hdist, hteam, htype⟩ :=
    h.sameView hturn hc hinside hdistances htarget htarget'
  show (o'.scoreState g' (φ.state node.state)).getD 0 = (o.scoreState g node.state).getD 0
  rw [scoreState, scoreState, hmates, henemies, hclose, hdist, hteam, htype]
  rfl

end Steps

/-- **The best score of a mirrored search** is no less: every node of the one search has its mirror
    image in the other. -/
theorem MapsStrategy.bestScore_le {turn : Turn} {b' : BoardSize}
    {φ : BoardSymmetry turn.world.size b'} {o o' : SlavaStrategy} {g₀ g₁ g g' : Globals}
    {s s' : SearchVars} (hturn : turn.Consistent) (hc : Constructed turn g₀ o g₁)
    (h : φ.MapsStrategy o o') (hsize : g.size = turn.world.size) (hsize' : g'.size = b')
    (hdistances : ∀ p q : Point, p.isCorrect turn.world.size = true →
      q.isCorrect turn.world.size = true →
      minDistance g'.floydDist (φ.map p) (φ.map q) = minDistance g.floydDist p q)
    (htarget : g.target.isCorrect turn.world.size = true) (htarget' : g'.target = φ.map g.target)
    (hsearch : o.search g = some s) (hsearch' : o'.search g' = some s') :
    s.bestScore ≤ s'.bestScore := by
  rw [search_eq] at hsearch hsearch'
  split_ifs at hsearch hsearch'
  cases hsearch
  cases hsearch'
  refine DepthFirst.explore_bestScore_mono
    (R := fun node node' => node' = φ.node node ∧ Inside turn node)
    (fun node node' hnode c hchild => ?_) (fun node node' hnode => ?_) 10
    ⟨h.root_eq, inside_root hturn hc⟩ (le_refl _)
  · obtain ⟨rfl, hinside⟩ := hnode
    obtain ⟨hstep, hnext⟩ := (o.mem_children_iff g node c).mp hchild
    obtain ⟨step', hstep', hmaps⟩ := h.exists_step hturn hc hsize hsize' hinside hstep
    refine ⟨(step', o'.next g' (φ.node node) step'),
      (o'.mem_children_iff g' _ _).mpr ⟨hstep', rfl⟩, ?_⟩
    rw [hnext]
    exact ⟨h.next_map hsize hsize' node hmaps, hinside.next hturn hc hstep⟩
  · obtain ⟨rfl, hinside⟩ := hnode
    exact (h.score_map hturn hc hinside hdistances htarget htarget').ge

end BoardSymmetry

/-! ## What a process logs -/

/-- The best score of a move, and the globals behind it. -/
def MyStrategy.bestScore (rand : ℕ → ℕ) (fuel : ℕ) (turn : Turn) (g : Globals) :
    Option (Int × Globals) := do
  let (o, g) ← SlavaStrategy.construct turn.self turn.world turn.game g
  let (s, g) ← o.run rand fuel g
  some (s.bestScore, g)

/-- The best scores of a sequence of moves. -/
def MyStrategy.bestScores (rand : ℕ → ℕ) (fuel : ℕ) :
    List Turn → Globals → Option (List Int × Globals)
  | [], g => some ([], g)
  | turn :: turns, g => do
    let (score, g) ← MyStrategy.bestScore rand fuel turn g
    let (scores, g) ← bestScores rand fuel turns g
    some (score :: scores, g)

theorem MyStrategy.bestScore_eq_some_iff (rand : ℕ → ℕ) (fuel : ℕ) (turn : Turn)
    (g g' : Globals) (score : Int) :
    MyStrategy.bestScore rand fuel turn g = some (score, g') ↔ ∃ o g₁ s,
      SlavaStrategy.construct turn.self turn.world turn.game g = some (o, g₁) ∧
        o.run rand fuel g₁ = some (s, g') ∧ s.bestScore = score := by
  simp only [MyStrategy.bestScore, Option.bind_eq_bind, Option.bind_eq_some_iff]
  constructor
  · intro h
    obtain ⟨⟨o, g₁⟩, hcon, ⟨s, g₂⟩, hrun, hres⟩ := h
    cases hres
    exact ⟨o, g₁, s, hcon, hrun, rfl⟩
  · intro h
    obtain ⟨o, g₁, s, hcon, hrun, rfl⟩ := h
    exact ⟨_, hcon, _, hrun, rfl⟩

theorem MyStrategy.bestScores_cons_eq_some_iff (rand : ℕ → ℕ) (fuel : ℕ) (turn : Turn)
    (turns : List Turn) (g g' : Globals) (scores : List Int) :
    MyStrategy.bestScores rand fuel (turn :: turns) g = some (scores, g') ↔
      ∃ score later g₁, MyStrategy.bestScore rand fuel turn g = some (score, g₁) ∧
        MyStrategy.bestScores rand fuel turns g₁ = some (later, g') ∧ scores = score :: later := by
  simp only [MyStrategy.bestScores, Option.bind_eq_bind, Option.bind_eq_some_iff]
  constructor
  · intro h
    obtain ⟨⟨score, g₁⟩, hmove, ⟨later, g₂⟩, hlater, hres⟩ := h
    cases hres
    exact ⟨score, later, g₁, hmove, hlater, rfl⟩
  · intro h
    obtain ⟨score, later, g₁, hmove, hlater, rfl⟩ := h
    exact ⟨_, hmove, _, hlater, rfl⟩

/-- A process has best scores to log if it has actions to answer with. -/
theorem MyStrategy.exists_bestScores_iff (rand : ℕ → ℕ) (fuel : ℕ) (turns : List Turn)
    (g g' : Globals) :
    (∃ scores, MyStrategy.bestScores rand fuel turns g = some (scores, g')) ↔
      ∃ actions, MyStrategy.moves rand fuel turns g = some (actions, g') := by
  induction turns generalizing g with
  | nil => simp [MyStrategy.bestScores, MyStrategy.moves]
  | cons turn turns ih =>
      constructor
      · intro h
        obtain ⟨_, h⟩ := h
        obtain ⟨score, later, g₁, hmove, hlater, _⟩ := (bestScores_cons_eq_some_iff ..).mp h
        obtain ⟨o, g₀, s, hcon, hrun, _⟩ := (bestScore_eq_some_iff ..).mp hmove
        obtain ⟨actions, hactions⟩ := (ih g₁).mp ⟨later, hlater⟩
        exact ⟨_, (moves_cons_eq_some_iff ..).mpr ⟨s.best, actions, g₁,
          (move_eq_some_iff ..).mpr ⟨o, g₀, s, hcon, hrun, rfl⟩, hactions, rfl⟩⟩
      · intro h
        obtain ⟨_, h⟩ := h
        obtain ⟨action, later, g₁, hmove, hlater, _⟩ := (moves_cons_eq_some_iff ..).mp h
        obtain ⟨o, g₀, s, hcon, hrun, _⟩ := (move_eq_some_iff ..).mp hmove
        obtain ⟨scores, hscores⟩ := (ih g₁).mpr ⟨later, hlater⟩
        exact ⟨_, (bestScores_cons_eq_some_iff ..).mpr ⟨s.bestScore, scores, g₁,
          (bestScore_eq_some_iff ..).mpr ⟨o, g₀, s, hcon, hrun, rfl⟩, hscores, rfl⟩⟩

namespace BoardSymmetry

/-- The cell drawn in the `k`-th round of the target loops. -/
def drawnCell (b : BoardSize) (rand : ℕ → ℕ) (k : ℕ) : Point :=
  ⟨(rand (2 * k) : Int).tmod b.sizeX, (rand (2 * k + 1) : Int).tmod b.sizeY⟩

variable {b b' : BoardSize} {cells cells' : Cells}

/-- The second sequence draws the mirrored cells. -/
def MapsDraws (φ : BoardSymmetry b b') (rand rand' : ℕ → ℕ) : Prop :=
  ∀ k, drawnCell b' rand' k = φ.map (drawnCell b rand k)

/-- The globals of two processes between mirrored moves. -/
structure MapsGlobals (φ : BoardSymmetry b b') (cells cells' : Cells) (g g' : Globals) :
    Prop where
  onMap : g.OnMap b cells
  onMap' : g'.OnMap b' cells'
  moveIndex : g'.moveIndex = g.moveIndex
  draws : ∃ k, g.draws = 2 * k ∧ g'.draws = 2 * k
  target : 0 ≤ g.moveIndex → g'.target = φ.map g.target

theorem MapsDraws.symm {φ : BoardSymmetry b b'} {rand rand' : ℕ → ℕ}
    (h : φ.MapsDraws rand rand') : φ.symm.MapsDraws rand' rand := fun k => by
  rw [h]
  exact (φ.inv_map _).symm

theorem MapsGlobals.symm {φ : BoardSymmetry b b'} {g g' : Globals}
    (h : φ.MapsGlobals cells cells' g g') : φ.symm.MapsGlobals cells' cells g' g where
  onMap := h.onMap'
  onMap' := h.onMap
  moveIndex := h.moveIndex.symm
  draws := by
    obtain ⟨k, hdrawn, hdrawn'⟩ := h.draws
    exact ⟨k, hdrawn', hdrawn⟩
  target hindex := by
    rw [h.target (h.moveIndex ▸ hindex)]
    exact (φ.inv_map _).symm

/-! ## One move -/

theorem draws_of_construct {turn : Turn} {g g' : Globals} {o : SlavaStrategy}
    (h : construct turn.self turn.world turn.game g = some (o, g')) :
    g'.draws = if g.moveIndex + 1 = 0 then 0 else g.draws := by
  unfold construct at h
  by_cases hfirst : g.moveIndex + 1 = 0
  · simp only [hfirst, if_true, init, Option.bind_eq_bind, Option.bind_eq_some_iff] at h
    obtain ⟨⟨o₁, g₁⟩, ⟨table, _, hinit⟩, o₂, _, hres⟩ := h
    cases hinit
    cases hres
    rw [if_pos hfirst]
  · simp only [hfirst, if_false, Option.bind_eq_bind, Option.bind_some,
      Option.bind_eq_some_iff] at h
    obtain ⟨o₂, _, hres⟩ := h
    cases hres
    rw [if_neg hfirst]

section OneMove

variable {φ : BoardSymmetry b b'} {turn turn' : Turn} {g g' : Globals} {rand rand' : ℕ → ℕ}
  {g₁ g₁' g₂ : Globals} {o o' : SlavaStrategy}

/-- The candidates of the two target loops. -/
theorem MapsGlobals.candidate_map (hg : φ.MapsGlobals cells cells' g g')
    (hmaps : φ.MapsTurn turn turn') (hdraws : φ.MapsDraws rand rand')
    (hcon : construct turn.self turn.world turn.game g = some (o, g₁))
    (hcon' : construct turn'.self turn'.world turn'.game g' = some (o', g₁'))
    (hboard : OnBoard b cells o g₁) (hboard' : OnBoard b' cells' o' g₁') :
    (∃ n, (o.resetTarget g₁).draws = 2 * n ∧ (o'.resetTarget g₁').draws = 2 * n) ∧
      ∀ k, candidate rand' (o'.resetTarget g₁') k
        = φ.map (candidate rand (o.resetTarget g₁) k) := by
  have hc := constructed_construct hcon
  have hc' := constructed_construct hcon'
  have hkeep : ∀ (o : SlavaStrategy) (g : Globals), (o.resetTarget g).draws = g.draws := by
    intro o g
    unfold resetTarget
    split_ifs <;> rfl
  have hdrawn : ∃ n, (o.resetTarget g₁).draws = 2 * n ∧ (o'.resetTarget g₁').draws = 2 * n := by
    rw [hkeep, hkeep, draws_of_construct hcon, draws_of_construct hcon', hg.moveIndex]
    split_ifs
    · exact ⟨0, rfl, rfl⟩
    · exact hg.draws
  refine ⟨hdrawn, fun k => ?_⟩
  obtain ⟨n, hn, hn'⟩ := hdrawn
  cases k with
  | zero =>
      have hindex : g₁'.moveIndex = g₁.moveIndex := by
        rw [hc.moveIndex_eq, hc'.moveIndex_eq, hg.moveIndex]
      have hpos : o'.self.pos = φ.map o.self.pos := by
        rw [hc.self_eq, hc'.self_eq]
        exact hmaps.self.pos
      show (o'.resetTarget g₁').target = φ.map (o.resetTarget g₁).target
      rw [resetTarget, resetTarget, hindex]
      split_ifs with hreset
      · exact hpos
      · -- the target is that of the move before
        rw [(floydDist_of_construct hcon).1, (floydDist_of_construct hcon').1]
        refine hg.target ?_
        rcases hg.onMap with rfl | hkeeps
        · rw [hc.moveIndex_eq] at hreset
          exact absurd rfl hreset
        · exact hkeeps.moveIndex
  | succ k =>
      have hk : 2 * n + 2 * k = 2 * (n + k) := by omega
      rw [candidate, candidate, hboard.resetTarget.size, hboard'.resetTarget.size, hn, hn', hk]
      exact hdraws (n + k)

/-- **The target loops stop in the same round**, at mirrored targets. -/
theorem MapsGlobals.targetLoop_map (hg : φ.MapsGlobals cells cells' g g')
    (hmaps : φ.MapsTurn turn turn') (hcells : φ.MapsCells cells cells')
    (hdraws : φ.MapsDraws rand rand')
    (hcon : construct turn.self turn.world turn.game g = some (o, g₁))
    (hcon' : construct turn'.self turn'.world turn'.game g' = some (o', g₁'))
    (hboard : OnBoard b cells o g₁) (hboard' : OnBoard b' cells' o' g₁') {fuel : ℕ}
    (hloop : targetLoop rand o fuel (o.resetTarget g₁) = some (true, g₂)) :
    ∃ g₂', targetLoop rand' o' fuel (o'.resetTarget g₁') = some (true, g₂') ∧
      g₂'.target = φ.map g₂.target ∧ ∃ n, g₂.draws = 2 * n ∧ g₂'.draws = 2 * n := by
  obtain ⟨⟨n, hn, hn'⟩, hcandidate⟩ := hg.candidate_map hmaps hdraws hcon hcon' hboard hboard'
  have hstart := hboard.resetTarget
  have hstart' := hboard'.resetTarget
  have hsize := hstart.size_pos
  have hsize' := hstart'.size_pos
  have hpos : o'.self.pos = φ.map o.self.pos := by
    rw [(constructed_construct hcon).self_eq, (constructed_construct hcon').self_eq]
    exact hmaps.self.pos
  have hgood_iff : ∀ k,
      GoodTarget b' cells' o'.self.pos (candidate rand' (o'.resetTarget g₁') k) ↔
        GoodTarget b cells o.self.pos (candidate rand (o.resetTarget g₁) k) := fun k => by
    have hon := candidate_isCorrect rand hsize.1 hsize.2
      (by rw [hstart.size]; exact hstart.target) k
    rw [hstart.size] at hon
    rw [hcandidate, hpos]
    exact hcells.goodTarget_map_iff (.of_floyd hboard.fit hboard.free hboard.table)
      (.of_floyd hboard'.fit hboard'.free hboard'.table) hboard.self hon
  obtain ⟨k, hk, hgood, hbad, rfl⟩ :=
    (targetLoop_eq_some_true_iff (hstart.rejects rand) hsize.1.ne' hsize.2.ne' fuel g₂).mp hloop
  refine ⟨_, targetLoop_of_first (hstart'.rejects rand') hsize'.1.ne' hsize'.2.ne' hk
    ((hgood_iff k).mpr hgood) fun j hj => (hgood_iff j).not.mpr (hbad j hj),
    hcandidate k, n + k, ?_⟩
  simp only [afterRounds, hn, hn']
  omega

theorem MapsGlobals.bestScore_le (hg : φ.MapsGlobals cells cells' g g')
    (hturn : turn.PlaysOn b cells) (hturn' : turn'.PlaysOn b' cells')
    (hmaps : φ.MapsTurn turn turn') (hdraws : φ.MapsDraws rand rand') {fuel : ℕ} {score : Int}
    (h : MyStrategy.bestScore rand fuel turn g = some (score, g₂)) :
    ∃ score' g₂', MyStrategy.bestScore rand' fuel turn' g' = some (score', g₂') ∧
      φ.MapsGlobals cells cells' g₂ g₂' ∧ score ≤ score' := by
  obtain ⟨o, g₁, s, hcon, hrun, rfl⟩ := (MyStrategy.bestScore_eq_some_iff ..).mp h
  obtain ⟨o', g₁', hcon', hc', hboard', _⟩ := hg.onMap'.construct hturn'
  have hc := constructed_construct hcon
  obtain ⟨hboard, _⟩ := hg.onMap.onBoard hturn hcon
  have hcells : φ.MapsCells cells cells' := by
    have hworld := hmaps.world.cells
    rw [hturn.cells_eq, hturn'.cells_eq] at hworld
    exact hworld
  obtain ⟨hloop, hsearch⟩ := (run_eq_some_iff ..).mp hrun
  obtain ⟨g₂', hloop', htarget, hdrawn⟩ :=
    hg.targetLoop_map hmaps hcells hdraws hcon hcon' hboard hboard' hloop
  obtain ⟨s', hrun'⟩ := hturn'.exists_run hc' hboard' hloop'
  have hkeeps := (hg.onMap.kept hturn ((MyStrategy.move_eq_some_iff ..).mpr
    ⟨o, g₁, s, hcon, hrun, rfl⟩)).1
  have hkeeps' := (hg.onMap'.kept hturn' ((MyStrategy.move_eq_some_iff ..).mpr
    ⟨o', g₁', s', hcon', hrun', rfl⟩)).1
  obtain ⟨_, hindex, htable⟩ := run_frame hrun
  obtain ⟨_, hindex', htable'⟩ := run_frame hrun'
  have hmoveIndex : g₁'.moveIndex = g₁.moveIndex := by
    rw [hc.moveIndex_eq, hc'.moveIndex_eq, hg.moveIndex]
  refine ⟨s'.bestScore, g₂', (MyStrategy.bestScore_eq_some_iff ..).mpr
    ⟨o', g₁', s', hcon', hrun', rfl⟩,
    ⟨Or.inr hkeeps, Or.inr hkeeps', ?_, hdrawn, fun _ => htarget⟩, ?_⟩
  · rw [hindex, hindex', hmoveIndex]
  · have hdistances : ∀ p q : Point, p.isCorrect b = true → q.isCorrect b = true →
        minDistance g₂'.floydDist (φ.map p) (φ.map q) = minDistance g₂.floydDist p q := by
      rw [htable, htable']
      exact fun p q => hcells.minDistance_map (.of_floyd hboard.fit hboard.free hboard.table)
        (.of_floyd hboard'.fit hboard'.free hboard'.table)
    obtain ⟨hcons, rfl, _⟩ := hturn
    exact (hmaps.mapsStrategy hc hc' hmoveIndex).bestScore_le hcons hc hkeeps.size hkeeps'.size
      hdistances hkeeps.target htarget hsearch ((run_eq_some_iff ..).mp hrun').2

/-- **A mirrored move scores the same.** -/
theorem MapsGlobals.bestScore_eq (hg : φ.MapsGlobals cells cells' g g')
    (hturn : turn.PlaysOn b cells) (hturn' : turn'.PlaysOn b' cells')
    (hmaps : φ.MapsTurn turn turn') (hdraws : φ.MapsDraws rand rand') {fuel : ℕ} {score : Int}
    (h : MyStrategy.bestScore rand fuel turn g = some (score, g₂)) :
    ∃ g₂', MyStrategy.bestScore rand' fuel turn' g' = some (score, g₂') ∧
      φ.MapsGlobals cells cells' g₂ g₂' := by
  obtain ⟨score', g₂', hmove', hg₂, hle⟩ := hg.bestScore_le hturn hturn' hmaps hdraws h
  -- the way back leads to the first move again
  obtain ⟨score'', g₃, hmove, _, hle'⟩ :=
    hg.symm.bestScore_le hturn' hturn hmaps.symm hdraws.symm hmove'
  rw [h, Option.some.injEq, Prod.mk.injEq] at hmove
  obtain rfl : score' = score := le_antisymm (hle'.trans hmove.1.ge) hle
  exact ⟨g₂', hmove', hg₂⟩

end OneMove

/-! ## All moves -/

section Moves

variable {φ : BoardSymmetry b b'} {turns turns' : List Turn} {g g' g₂ : Globals}
  {rand rand' : ℕ → ℕ} {fuel : ℕ} {scores : List Int}

/-- **Mirrored processes log the same**, by induction on their moves. -/
theorem MapsGlobals.bestScores_eq (hdraws : φ.MapsDraws rand rand')
    (hmaps : List.Forall₂ φ.MapsTurn turns turns') (hg : φ.MapsGlobals cells cells' g g')
    (hturns : ∀ turn ∈ turns, turn.PlaysOn b cells)
    (hturns' : ∀ turn ∈ turns', turn.PlaysOn b' cells')
    (h : MyStrategy.bestScores rand fuel turns g = some (scores, g₂)) :
    ∃ g₂', MyStrategy.bestScores rand' fuel turns' g' = some (scores, g₂') := by
  induction hmaps generalizing g g' scores with
  | nil =>
      cases h
      exact ⟨g', rfl⟩
  | cons hturn_maps _ ih =>
      obtain ⟨hturn, hturns⟩ := List.forall_mem_cons.mp hturns
      obtain ⟨hturn', hturns'⟩ := List.forall_mem_cons.mp hturns'
      obtain ⟨score, later, g₁, hmove, hlater, rfl⟩ :=
        (MyStrategy.bestScores_cons_eq_some_iff ..).mp h
      obtain ⟨g₁', hmove', hg₁⟩ := hg.bestScore_eq hturn hturn' hturn_maps hdraws hmove
      obtain ⟨g₂', hlater'⟩ := ih hg₁ hturns hturns' hlater
      exact ⟨g₂', (MyStrategy.bestScores_cons_eq_some_iff ..).mpr
        ⟨score, later, g₁', hmove', hlater', rfl⟩⟩

theorem mapsGlobals_initial (φ : BoardSymmetry b b') (cells cells' : Cells) :
    φ.MapsGlobals cells cells' Globals.initial Globals.initial :=
  ⟨Or.inl rfl, Or.inl rfl, rfl, ⟨0, rfl, rfl⟩, fun h => absurd h (by decide)⟩

end Moves

end BoardSymmetry

/-- **A mirrored game is played to the same scores.** If the moves of one process are those of
    another one, laid on another board, and it draws the mirrored cells, then it answers all its
    moves if the other one does, and logs the same best scores. -/
theorem process_mirrored {b b' : BoardSize} (φ : BoardSymmetry b b') {cells cells' : Cells}
    {turns turns' : List Turn} {rand rand' : ℕ → ℕ} (hdraws : φ.MapsDraws rand rand')
    (hmaps : List.Forall₂ φ.MapsTurn turns turns')
    (hturns : ∀ turn ∈ turns, turn.PlaysOn b cells)
    (hturns' : ∀ turn ∈ turns', turn.PlaysOn b' cells') (fuel : ℕ) (scores : List Int) :
    (∃ actions g, MyStrategy.moves rand fuel turns Globals.initial = some (actions, g) ∧
        MyStrategy.bestScores rand fuel turns Globals.initial = some (scores, g)) ↔
      ∃ actions' g', MyStrategy.moves rand' fuel turns' Globals.initial = some (actions', g') ∧
        MyStrategy.bestScores rand' fuel turns' Globals.initial = some (scores, g') := by
  have hback : List.Forall₂ φ.symm.MapsTurn turns' turns :=
    (hmaps.imp fun _ _ hturn => hturn.symm).flip
  have hinitial := φ.mapsGlobals_initial cells cells'
  constructor
  · intro h
    obtain ⟨_, _, _, hscores⟩ := h
    obtain ⟨g', hscores'⟩ := hinitial.bestScores_eq hdraws hmaps hturns hturns' hscores
    obtain ⟨actions', hactions'⟩ := (MyStrategy.exists_bestScores_iff ..).mp ⟨scores, hscores'⟩
    exact ⟨actions', g', hactions', hscores'⟩
  · intro h
    obtain ⟨_, _, _, hscores'⟩ := h
    obtain ⟨g, hscores⟩ := hinitial.symm.bestScores_eq hdraws.symm hback hturns' hturns hscores'
    obtain ⟨actions, hactions⟩ := (MyStrategy.exists_bestScores_iff ..).mp ⟨scores, hscores⟩
    exact ⟨actions, g, hactions, hscores⟩

/-! ## The yard turned -/

/-- The quarter turn that lays the yard on a board of three by four. -/
def quarterTurn : BoardSymmetry ⟨4, 3⟩ ⟨3, 4⟩ := (BoardSymmetry.mirrorX _).trans (.transpose _)

def turnedCells : Cells :=
  [[.free, .free, .free, .free], [.free, .highCover, .highCover, .highCover],
    [.free, .free, .free, .free]]

/-- The yard after the turn. -/
def turnedYard (troopers : List Trooper) : World :=
  { yard troopers with
    width := 3, height := 4, cells := turnedCells
    bonuses := [{ (default : Bonus) with id := 3, y := 1, type := .medikit }] }

def Trooper.turned (t : Trooper) : Trooper := { t with x := t.y, y := 3 - t.x }

/-- A move in the yard after the turn. -/
def Turn.turned (turn : Turn) : Turn :=
  ⟨turn.self.turned, turnedYard (turn.world.troopers.map Trooper.turned), turn.game⟩

theorem visibilityAt_replicate {w : World} {n : ℕ} (hseen : w.cellVisibilities = .replicate n true)
    (hlen : (n : Int) = w.width.toInt * w.height.toInt * w.width.toInt * w.height.toInt * 3)
    {q p : Point} (hq : q.isCorrect w.size = true) (hp : p.isCorrect w.size = true)
    {stanceIndex : Int} (hnonneg : 0 ≤ stanceIndex) (hlt : stanceIndex < 3) :
    w.visibilityAt q p stanceIndex = some true := by
  obtain ⟨hindex, hbound⟩ := visibilityIndex_bounds hq hp hnonneg hlt
  refine (at?_eq_some_iff _ _ _).mpr ⟨hindex, ?_⟩
  rw [hseen]
  exact List.getElem?_replicate_of_lt (by omega)

theorem yard_cells_turned : quarterTurn.MapsCells yardCells turnedCells := by
  intro p hp
  obtain ⟨x, y⟩ := p
  rw [Point.isCorrect_iff] at hp
  dsimp only at hp
  obtain ⟨⟨hx0, hx⟩, hy0, hy⟩ := hp
  interval_cases x <;> interval_cases y <;> rfl

theorem turnedYard_seen (troopers : List Trooper) : ((432 : ℕ) : Int) =
    (turnedYard troopers).width.toInt * (turnedYard troopers).height.toInt *
      (turnedYard troopers).width.toInt * (turnedYard troopers).height.toInt * 3 := by
  show ((432 : ℕ) : Int) = Int32.toInt 3 * Int32.toInt 4 * Int32.toInt 3 * Int32.toInt 4 * 3
  decide

theorem cellsFit_turned : CellsFit ⟨3, 4⟩ turnedCells := ⟨by decide, by decide, by decide⟩

theorem yard_mapsTurn {self : Trooper} {troopers : List Trooper} {game : Game}
    (hself : quarterTurn.MapsTrooper self self.turned)
    (htroopers : ∀ t ∈ troopers, quarterTurn.MapsTrooper t t.turned) :
    quarterTurn.MapsTurn ⟨self, yard troopers, game⟩ (Turn.turned ⟨self, yard troopers, game⟩) := by
  refine ⟨hself, ⟨yard_cells_turned, ?_, .cons ⟨by decide, rfl⟩ .nil, ?_⟩, rfl⟩
  · exact List.forall₂_map_right_iff.mpr (List.forall₂_same.mpr htroopers)
  · intro q p hq hp stanceIndex hnonneg hlt
    have hq' := (quarterTurn.isCorrect_map q).trans hq
    have hp' := (quarterTurn.isCorrect_map p).trans hp
    have hseen : (yard troopers).visibilityAt q p stanceIndex = some true :=
      visibilityAt_replicate rfl (yard_seen troopers) hq hp hnonneg hlt
    exact (visibilityAt_replicate rfl (turnedYard_seen _) hq' hp' hnonneg hlt).trans hseen.symm

theorem turned_playsOn {turn : Turn} (hself : turn.self.turned.Placed turn.turned.world)
    (hplaced : ∀ t ∈ turn.turned.world.troopers, t.Placed turn.turned.world)
    (hmate : ∃ t ∈ turn.turned.world.troopers, t.teammate = true) :
    turn.turned.PlaysOn ⟨3, 4⟩ turnedCells where
  cells := cellsFit_turned
  visibilities := by
    rw [show turn.turned.world.cellVisibilities.length = 432 from List.length_replicate]
    exact turnedYard_seen _
  visibilities_lt := by
    rw [show turn.turned.world.cellVisibilities.length = 432 from List.length_replicate]
    decide
  self_placed := hself
  placed := hplaced
  teammate := hmate
  size_eq := rfl
  cells_eq := rfl

theorem process_mirrored_yard : ∃ scores actions g,
    MyStrategy.moves (fun _ => 11) 1 [yardTurn.turned, commanderTurn.turned] Globals.initial
        = some (actions, g) ∧
      MyStrategy.bestScores (fun _ => 11) 1 [yardTurn.turned, commanderTurn.turned] Globals.initial
        = some (scores, g) := by
  obtain ⟨scores, hscores⟩ := (MyStrategy.exists_bestScores_iff ..).mpr ⟨_, moves_yard⟩
  have hdraws : quarterTurn.MapsDraws (fun _ => 8) (fun _ => 11) := fun _ => by
    simp [BoardSymmetry.drawnCell, quarterTurn, BoardSymmetry.mirrorX, BoardSymmetry.trans,
      BoardSymmetry.transpose]
  have hmedic : quarterTurn.MapsTurn yardTurn yardTurn.turned :=
    yard_mapsTurn ⟨by decide, rfl⟩ (by
      simp only [List.forall_mem_cons, List.not_mem_nil, false_implies, implies_true, and_true]
      exact ⟨⟨by decide, rfl⟩, ⟨by decide, rfl⟩, ⟨by decide, rfl⟩⟩)
  have hcommander : quarterTurn.MapsTurn commanderTurn commanderTurn.turned :=
    yard_mapsTurn ⟨by decide, rfl⟩ (by
      simp only [List.forall_mem_cons, List.not_mem_nil, false_implies, implies_true, and_true]
      exact ⟨⟨by decide, rfl⟩, ⟨by decide, rfl⟩, ⟨by decide, rfl⟩⟩)
  have hturns : ∀ turn ∈ [yardTurn, commanderTurn], turn.PlaysOn ⟨4, 3⟩ yardCells :=
    List.forall_mem_cons.mpr
      ⟨yardTurn_playsOn, List.forall_mem_singleton.mpr commanderTurn_playsOn⟩
  have hturns' : ∀ turn ∈ [yardTurn.turned, commanderTurn.turned],
      turn.PlaysOn ⟨3, 4⟩ turnedCells :=
    List.forall_mem_cons.mpr ⟨turned_playsOn (by decide) (by decide)
        ⟨yardTurn.self.turned, List.mem_cons_self, rfl⟩,
      List.forall_mem_singleton.mpr (turned_playsOn (by decide) (by decide)
        ⟨commanderTurn.self.turned, List.mem_cons_of_mem _ List.mem_cons_self, rfl⟩)⟩
  exact ⟨scores, (process_mirrored quarterTurn hdraws (.cons hmedic (.cons hcommander .nil))
    hturns hturns' 1 scores).mp ⟨_, _, moves_yard, hscores⟩⟩

end CodeTroopers
