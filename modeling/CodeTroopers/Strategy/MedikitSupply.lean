import CodeTroopers.Library.Ledger
import CodeTroopers.Strategy.Budget

set_option autoImplicit false

/-! # Medikits along a plan

The pickup loop runs at every node of the search and takes no bonus off the board. A grenade or a
ration that has been used is not picked up again, by `used_grenade` and `used_field_ration`; for
medikits there is no such flag, so that a hand emptied on a cell with a medikit is full again at the
next node.

Where the medikits of a plan come from can be read off its labels and the bonuses of the world
(`sources`): the hand is full of what the trooper held, and an empty one takes what lies on its
cell. These are all medikits the plan uses (`length_sources`). A plan that uses the medikits of no
cell more often than there are on it uses no more than there are
(`medikits_conserved_of_usesOnce`). So does every plan of a trooper that cannot pay for a second
medikit (`PaysOneMedikit`). -/

namespace CodeTroopers

open Ledger

/-- The step uses a medikit. -/
def Step.isUseMedikit : Step → Bool
  | .useMedikit .. => true
  | _ => false

/-- The cell a step moves to. -/
def Step.destination : Step → Option Point
  | .move n => some n
  | _ => none

/-- Where a medikit in the hand comes from. -/
inductive Source where
  | held
  | board (c : Point)
deriving DecidableEq

def Source.cell? : Source → Option Point
  | .held => none
  | .board c => some c

/-- The medikits of the world that lie on one of the cells. -/
def World.medikitsOn (w : World) (cells : List Point) : ℕ :=
  w.bonuses.countP fun b => decide (b.pos ∈ cells) && decide (b.type = .medikit)

/-- The hand on a cell: an empty one takes a medikit that lies there. -/
def World.takeMedikit (w : World) (pos : Point) : Option Source → Option Source
  | some source => some source
  | none => if bonusAt w.bonuses pos .medikit then some (.board pos) else none

/-- Where the medikits come from that the steps of a path use, with the hand and the cell it begins
    with. -/
def World.sourcesFrom (w : World) : Option Source → Point → List Step → List Source
  | _, _, [] => []
  | hand, pos, step :: path =>
    let pos := step.destination.getD pos
    if step.isUseMedikit then hand.toList ++ w.sourcesFrom (w.takeMedikit pos none) pos path
    else w.sourcesFrom (w.takeMedikit pos hand) pos path

namespace SlavaStrategy

variable (o : SlavaStrategy) (g : Globals)

/-- The cells a plan visits, with the one it starts from. -/
def visited (path : List Step) : List Point := o.self.pos :: path.filterMap Step.destination

/-- What is in the hand at the root. -/
def firstHand : Option Source :=
  o.world.takeMedikit o.self.pos (if o.self.holdingMedikit then some .held else none)

/-- Where the medikits come from that a plan uses, in their order. -/
def sources (path : List Step) : List Source :=
  o.world.sourcesFrom o.firstHand o.self.pos path

/-- The cells they come from, those of the board. -/
def drawn (path : List Step) : List Point := (o.sources path).filterMap Source.cell?

/-- The intended bound on the medikits a plan uses: the one held and those that lie on the cells it
    visits. -/
def MedikitsConserved (path : List Step) : Prop :=
  path.countP Step.isUseMedikit
    ≤ (if o.self.holdingMedikit then 1 else 0) + o.world.medikitsOn (o.visited path)

/-- The plan uses the medikits of no cell more often than there are on it. -/
def UsesOnce (path : List Step) : Prop := ∀ c, (o.drawn path).count c ≤ o.world.medikitsOn [c]

/-- The action points and those of one ration pay for no second medikit. -/
structure PaysOneMedikit : Prop where
  costs : ∀ state step, 0 ≤ o.cost state step
  points : 0 ≤ o.self.actionPoints.toInt
  ration : 0 ≤ o.game.fieldRationBonusActionPoints.toInt
  lt : o.self.actionPoints.toInt + o.game.fieldRationBonusActionPoints.toInt
    < 2 * o.game.medikitUseCost.toInt

end SlavaStrategy

/-! ## Sources along a path -/

section Sources

variable (w : World)

theorem World.isSome_takeMedikit (pos : Point) (hand : Option Source) :
    (w.takeMedikit pos hand).isSome = (hand.isSome || bonusAt w.bonuses pos .medikit) := by
  cases hand with
  | some source => rfl
  | none =>
      rw [takeMedikit]
      split_ifs with h <;> simp [h]

theorem World.of_takeMedikit {pos : Point} {hand : Option Source} {source : Source}
    (h : w.takeMedikit pos hand = some source) :
    hand = some source ∨ hand = none ∧ source = .board pos ∧
      bonusAt w.bonuses pos .medikit = true := by
  cases hand with
  | some s => exact Or.inl h
  | none =>
      rw [takeMedikit] at h
      split_ifs at h with hat
      cases h
      exact Or.inr ⟨rfl, rfl, hat⟩

/-- Sources on the board are the one in the hand, or lie on the path. -/
theorem World.of_mem_sourcesFrom {hand : Option Source} {pos c : Point} {path : List Step}
    (h : .board c ∈ w.sourcesFrom hand pos path) :
    hand = some (.board c) ∨
      c ∈ pos :: path.filterMap Step.destination ∧ bonusAt w.bonuses c .medikit = true := by
  induction path generalizing hand pos with
  | nil => simp [sourcesFrom] at h
  | cons step path ih =>
      have hsub : ∀ c', c' ∈ step.destination.getD pos :: path.filterMap Step.destination →
          c' ∈ pos :: (step :: path).filterMap Step.destination := by
        intro c' hc'
        cases hstep : step.destination with
        | none => simpa [hstep] using hc'
        | some n => simpa [hstep] using Or.inr (by simpa [hstep] using hc')
      -- what the hand takes behind the step lies on the path
      have htake : ∀ hand' : Option Source,
          .board c ∈ w.sourcesFrom (w.takeMedikit (step.destination.getD pos) hand')
            (step.destination.getD pos) path → hand' = some (.board c) ∨
          c ∈ pos :: (step :: path).filterMap Step.destination ∧
            bonusAt w.bonuses c .medikit = true := by
        intro hand' hmem
        rcases ih hmem with hhand | ⟨hc, hat⟩
        · rcases w.of_takeMedikit hhand with hhand | ⟨_, hboard, hat⟩
          · exact Or.inl hhand
          · cases hboard
            exact Or.inr ⟨hsub _ List.mem_cons_self, hat⟩
        · exact Or.inr ⟨hsub c hc, hat⟩
      rw [sourcesFrom] at h
      split_ifs at h
      · rcases List.mem_append.mp h with hhand | hrest
        · exact Or.inl (by simpa using hhand)
        · exact Or.inr ((htake none hrest).resolve_left (by simp))
      · exact htake hand h

/-- The medikit held is used once at most, and first. -/
theorem World.count_held_sourcesFrom (hand : Option Source) (pos : Point) (path : List Step) :
    (w.sourcesFrom hand pos path).count .held
      = if hand = some .held ∧ w.sourcesFrom hand pos path ≠ [] then 1 else 0 := by
  have htake : ∀ pos, w.takeMedikit pos none ≠ some .held := by
    intro pos h
    rcases w.of_takeMedikit h with h | ⟨_, h, _⟩ <;> simp at h
  induction path generalizing hand pos with
  | nil => simp [sourcesFrom]
  | cons step path ih =>
      rw [sourcesFrom]
      by_cases huse : step.isUseMedikit = true
      · -- behind a use nothing held is left
        rw [if_pos huse]
        have hrest := ih (w.takeMedikit (step.destination.getD pos) none)
          (step.destination.getD pos)
        rw [if_neg fun h => htake _ h.1] at hrest
        rcases hand with _ | _ | c <;> simp [hrest]
      · rw [if_neg huse, ih]
        have hhand : w.takeMedikit (step.destination.getD pos) hand = some .held
            ↔ hand = some .held := by
          cases hand with
          | none => simpa using htake _
          | some source => rfl
        simp only [hhand]

end Sources

/-! ## The account of a plan -/

namespace SlavaStrategy

variable (o : SlavaStrategy) {g : Globals}

/-- The steps of a run use medikits of the hand only: it is full exactly if `has_medkit` is set. -/
theorem Run.length_sourcesFrom {node node' : Node} {path : List Step}
    (hrun : o.Run g node path node') {hand : Option Source}
    (hhand : hand.isSome = node.state.hasMedkit) :
    (o.world.sourcesFrom hand node.state.pos path).length = path.countP Step.isUseMedikit := by
  induction hrun generalizing hand with
  | nil node => rfl
  | @cons node next _ step path hedge _ ih =>
      obtain ⟨hstep, hnext⟩ := (o.mem_children_iff g node (step, next)).mp hedge
      dsimp only at hstep hnext
      have henabled := ((o.mem_steps_iff g node step).mp hstep).2
      have hpos : step.destination.getD node.state.pos = next.state.pos := by
        rw [hnext, next_pos]
        cases step <;> rfl
      have hmedkit := o.next_hasMedkit g node step
      rw [← hnext] at hmedkit
      rw [World.sourcesFrom, List.countP_cons, hpos]
      cases step with
      | useMedikit patient heal =>
          -- a use needs a full hand
          have hfull : hand.isSome = true := hhand.trans henabled.1
          obtain ⟨source, rfl⟩ := Option.isSome_iff_exists.mp hfull
          have hrest := @ih (o.world.takeMedikit next.state.pos none) (by
            rw [World.isSome_takeMedikit, hmedkit]
            rfl)
          simp [Step.isUseMedikit, hrest]
      | _ =>
          refine (@ih (o.world.takeMedikit next.state.pos hand) ?_).trans rfl
          rw [World.isSome_takeMedikit, hmedkit, hhand]

/-- **The sources of a plan** are those of the medikits it uses, one for each use. -/
theorem length_sources {n : ℕ} {p : List Step × Node} (hp : p ∈ o.plans g n o.root) :
    (o.sources p.1).length = p.1.countP Step.isUseMedikit := by
  have hroot : o.root.state.pos = o.self.pos := by simp [root, enter, initialState]
  have hhand : o.firstHand.isSome = o.root.state.hasMedkit := by
    have hmedkit : o.root.state.hasMedkit
        = (o.self.holdingMedikit || bonusAt o.world.bonuses o.self.pos .medikit) := by
      simp [root, enter, initialState]
    rw [firstHand, World.isSome_takeMedikit, hmedkit]
    cases o.self.holdingMedikit <;> rfl
  have hlength := Run.length_sourcesFrom o ((o.mem_plans_iff g n o.root p).mp hp).1 hhand
  rwa [hroot] at hlength

theorem firstHand_eq_held_iff : o.firstHand = some .held ↔ o.self.holdingMedikit = true := by
  rw [firstHand]
  constructor
  · intro h
    rcases o.world.of_takeMedikit h with h | ⟨_, h, _⟩
    · simpa using h
    · simp at h
  · intro h
    rw [if_pos h]
    rfl

/-- A plan that uses a medikit uses the one held, and then those drawn. -/
theorem length_sources_eq (path : List Step) :
    (o.sources path).length = (if o.self.holdingMedikit ∧ o.sources path ≠ [] then 1 else 0)
      + (o.drawn path).length := by
  have hsplit : ∀ l : List Source,
      l.length = l.count .held + (l.filterMap Source.cell?).length := by
    intro l
    induction l with
    | nil => rfl
    | cons source l ih =>
        cases source with
        | held => simp [List.filterMap_cons, Source.cell?, ih, Nat.add_right_comm]
        | board c => simp [Source.cell?, ih, Nat.add_assoc]
  have hheld := o.world.count_held_sourcesFrom o.firstHand o.self.pos path
  simp only [firstHand_eq_held_iff] at hheld
  rw [hsplit (o.sources path), drawn, sources, hheld]

/-- Medikits are drawn on the cells visited, where they lie. -/
theorem of_mem_drawn {path : List Step} {c : Point} (h : c ∈ o.drawn path) :
    c ∈ o.visited path ∧ bonusAt o.world.bonuses c .medikit = true := by
  obtain ⟨source, hmem, hcell⟩ := List.mem_filterMap.mp h
  obtain rfl : source = .board c := by
    cases source with
    | held => simp [Source.cell?] at hcell
    | board c' => simpa [Source.cell?] using hcell
  rcases o.world.of_mem_sourcesFrom hmem with hhand | hlies
  · rcases o.world.of_takeMedikit hhand with hheld | ⟨_, hboard, hat⟩
    · split_ifs at hheld
      simp at hheld
    · cases hboard
      exact ⟨List.mem_cons_self, hat⟩
  · exact hlies

/-- Medikits drawn no more often than they lie there are at most those on the cells visited. -/
theorem length_drawn_le {path : List Step} (honce : o.UsesOnce path) :
    (o.drawn path).length ≤ o.world.medikitsOn (o.visited path) := by
  have hone : ∀ c, o.world.medikitsOn [c]
      = o.world.bonuses.countP fun b => decide (b.pos = c) && decide (b.type = .medikit) := by
    intro c
    simp [World.medikitsOn]
  calc (o.drawn path).length
      = ∑ c ∈ (o.drawn path).toFinset, (o.drawn path).count c :=
        (List.sum_toFinset_count_eq_length _).symm
    _ ≤ ∑ c ∈ (o.drawn path).toFinset, o.world.medikitsOn [c] :=
        Finset.sum_le_sum fun c _ => honce c
    _ = o.world.bonuses.countP fun b =>
          decide (b.pos ∈ (o.drawn path).toFinset) && decide (b.type = .medikit) := by
        simp only [hone]
        exact sum_countP Bonus.pos (fun b => decide (b.type = .medikit)) _ _
    _ ≤ o.world.medikitsOn (o.visited path) := by
        refine List.countP_mono_left fun b _ hb => ?_
        simp only [Bool.and_eq_true, decide_eq_true_eq, List.mem_toFinset] at hb ⊢
        exact ⟨(o.of_mem_drawn hb.1).1, hb.2⟩

/-- If the medikits on the way lie on one cell, the count of this cell is that of the plan. -/
theorem usesOnce_of_conserved {n : ℕ} {p : List Step × Node} (hp : p ∈ o.plans g n o.root)
    (hsame : ∀ c ∈ o.visited p.1, ∀ c' ∈ o.visited p.1, bonusAt o.world.bonuses c .medikit = true →
      bonusAt o.world.bonuses c' .medikit = true → c = c')
    (hconserved : o.MedikitsConserved p.1) : o.UsesOnce p.1 := by
  intro c
  by_cases hmem : c ∈ o.drawn p.1
  · obtain ⟨hc, hat⟩ := o.of_mem_drawn hmem
    have hcount : (o.drawn p.1).count c = (o.drawn p.1).length := by
      refine List.count_eq_length.mpr fun c' hc' => ?_
      obtain ⟨hvisited, hlies⟩ := o.of_mem_drawn hc'
      exact hsame c hc c' hvisited hat hlies
    have hlying : o.world.medikitsOn (o.visited p.1) ≤ o.world.medikitsOn [c] := by
      refine List.countP_mono_left fun b hb hlies => ?_
      simp only [Bool.and_eq_true, decide_eq_true_eq, List.mem_singleton] at hlies ⊢
      refine ⟨(hsame c hc b.pos hlies.1 hat ?_).symm, hlies.2⟩
      simp only [bonusAt, List.any_eq_true, Bool.and_eq_true, decide_eq_true_eq]
      exact ⟨b, hb, rfl, hlies.2⟩
    have hused : o.sources p.1 ≠ [] := by
      intro hnil
      rw [drawn, hnil] at hmem
      simp at hmem
    have hlength := o.length_sources_eq p.1
    simp only [hused, ne_eq, not_false_eq_true, and_true] at hlength
    have huses := o.length_sources hp
    unfold MedikitsConserved at hconserved
    omega
  · rw [List.count_eq_zero.mpr hmem]
    exact Nat.zero_le _

theorem mul_countP_isUseMedikit_le (hcosts : ∀ state step, 0 ≤ o.cost state step) (node : Node)
    (path : List Step) :
    o.game.medikitUseCost.toInt * path.countP Step.isUseMedikit
      ≤ (o.costsFrom g node path).sum := by
  induction path generalizing node with
  | nil => simp [costsFrom]
  | cons step path ih =>
      have hrest := ih (o.next g node step)
      have hpaid := hcosts node.state step
      rw [costsFrom, List.sum_cons, List.countP_cons]
      cases step with
      | useMedikit patient heal =>
          have hcost : o.cost node.state (.useMedikit patient heal)
              = o.game.medikitUseCost.toInt := rfl
          simp only [Step.isUseMedikit, if_true]
          push_cast
          rw [mul_add, mul_one]
          omega
      | _ =>
          simp only [Step.isUseMedikit, Bool.false_eq_true, if_false, Nat.add_zero]
          omega

/-- One medikit is used once. -/
theorem PaysOneMedikit.usesOnce (h : o.PaysOneMedikit) {n : ℕ} {p : List Step × Node}
    (hp : p ∈ o.plans g n o.root) : o.UsesOnce p.1 := by
  have hpaid := o.mul_countP_isUseMedikit_le (g := g) h.costs o.root p.1
  have hbudget := Run.sum_costs_le o ((o.mem_plans_iff g n o.root p).mp hp).1 h.ration h.points
  have hone : p.1.countP Step.isUseMedikit ≤ 1 := by
    have hpoints : o.root.points = o.self.actionPoints.toInt := rfl
    have hlt := h.lt
    have := h.points
    have := h.ration
    by_contra htwo
    have htwice : o.game.medikitUseCost.toInt * 2
        ≤ o.game.medikitUseCost.toInt * p.1.countP Step.isUseMedikit :=
      Int.mul_le_mul_of_nonneg_left (by omega) (by omega)
    omega
  intro c
  by_cases hmem : c ∈ o.drawn p.1
  · have hlies : 1 ≤ o.world.medikitsOn [c] := by
      obtain ⟨b, hb, hpos, htype⟩ : ∃ b ∈ o.world.bonuses, c = b.pos ∧ b.type = .medikit := by
        simpa [bonusAt] using (o.of_mem_drawn hmem).2
      exact List.countP_pos_iff.mpr ⟨b, hb, by simp [hpos, htype]⟩
    have hcount := List.count_le_length (a := c) (l := o.drawn p.1)
    have hdrawn := o.length_sources_eq p.1
    have huses := o.length_sources hp
    omega
  · rw [List.count_eq_zero.mpr hmem]
    exact Nat.zero_le _

/-- **When medikits are conserved.** A plan that uses the medikits of no cell more often than there
    are on it uses no more than the one held and those on the cells it visits; and if all medikits
    on these cells lie on one of them, no other plan does. Every plan of a search whose points pay
    for one medikit only is such a plan. -/
theorem medikits_conserved_of_usesOnce {p : List Step × Node} (hp : p ∈ o.plans g 10 o.root) :
    (o.UsesOnce p.1 → o.MedikitsConserved p.1) ∧
      ((∀ c ∈ o.visited p.1, ∀ c' ∈ o.visited p.1, bonusAt o.world.bonuses c .medikit = true →
          bonusAt o.world.bonuses c' .medikit = true → c = c') →
        (o.MedikitsConserved p.1 ↔ o.UsesOnce p.1)) ∧
      (o.PaysOneMedikit → o.MedikitsConserved p.1) := by
  have hconserved : o.UsesOnce p.1 → o.MedikitsConserved p.1 := by
    intro honce
    have hle := o.length_drawn_le honce
    have hlength := o.length_sources_eq p.1
    have huses := o.length_sources hp
    have hheld : (if o.self.holdingMedikit ∧ o.sources p.1 ≠ [] then 1 else 0)
        ≤ if o.self.holdingMedikit then 1 else 0 := by
      split_ifs with h h'
      · exact le_refl 1
      · exact absurd h.1 h'
      · exact Nat.zero_le 1
      · exact le_refl 0
    unfold MedikitsConserved
    omega
  exact ⟨hconserved, fun hsame => ⟨o.usesOnce_of_conserved hp hsame, hconserved⟩,
    fun hone => hconserved (hone.usesOnce o hp)⟩

end SlavaStrategy

/-- A wounded trooper with a medikit in hand stands on another one, with the points for three
    uses. -/
def stockedTurn : Turn :=
  let self := { woundedTrooper with holdingMedikit := true, actionPoints := 6 }
  ⟨self, corridor [self] [⟨0, 0, 0, .medikit⟩],
    { medikitGame with standingMoveCost := 2, stanceChangeCost := 7 }⟩

/-- The object built for it. -/
def stockedStrategy : SlavaStrategy where
  self := stockedTurn.self
  world := stockedTurn.world
  game := stockedTurn.game
  cells := [.lowCover] :: List.replicate 7 [.free]
  teammates := [stockedTurn.self]
  enemies := []
  stances := []

/-- The plan of some steps. -/
def stockedPlan (path : List Step) : List Step × Node :=
  (path, path.foldl (stockedStrategy.next secondGlobals) stockedStrategy.root)

/-- The trooper heals itself. -/
def stockedUse : Step := .useMedikit stockedTurn.self 30

/-- Three uses of two medikits. -/
theorem medikits_not_conserved :
    stockedStrategy.Searches secondGlobals (fun _ => 7) 1 [corridorTurn] stockedTurn ∧
      stockedPlan [stockedUse, stockedUse, stockedUse]
        ∈ stockedStrategy.plans secondGlobals 10 stockedStrategy.root ∧
      stockedTurn.self.holdingMedikit = true ∧
      stockedTurn.world.medikitsOn
        (stockedStrategy.visited [stockedUse, stockedUse, stockedUse]) = 1 ∧
      ¬ stockedStrategy.MedikitsConserved [stockedUse, stockedUse, stockedUse] :=
  ⟨searches_second_move rfl rfl, by decide, rfl, by decide, by
    unfold SlavaStrategy.MedikitsConserved
    decide⟩

/-- Two medikits, the second of them carried to the next cell. -/
theorem medikits_conserved_carried :
    stockedStrategy.MedikitsConserved [stockedUse, .move ⟨1, 0⟩, stockedUse] := by
  refine (stockedStrategy.medikits_conserved_of_usesOnce (g := secondGlobals)
    (p := stockedPlan [stockedUse, .move ⟨1, 0⟩, stockedUse]) (by decide)).1 fun c => ?_
  have hdrawn : stockedStrategy.drawn [stockedUse, .move ⟨1, 0⟩, stockedUse] = [⟨0, 0⟩] := by
    decide
  rw [stockedPlan, hdrawn]
  by_cases hc : c = ⟨0, 0⟩
  · rw [hc]
    decide
  · simp [Ne.symm hc]

end CodeTroopers
