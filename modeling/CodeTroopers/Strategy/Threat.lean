import CodeTroopers.Strategy.BestPlan

set_option autoImplicit false

/-! # The threat count over a session

The score of a state subtracts 10000 for each enemy that can shoot at it: one within grenade range,
or one that sees it in any of the three stances. The loop over the stances runs over the vector
`stances`, a member of the strategy object that only `init()` fills; a fresh object is built for
every move, and `init()` runs for the first move only.

`threatLaw_iff` says what follows: on the first move of a session the count is the intended one; on
every later move it is so exactly for the states that no enemy beyond grenade range sees. -/

namespace CodeTroopers

/-- The three stances of the game. -/
def allStances : List TrooperStance := [.prone, .kneeling, .standing]

namespace SlavaStrategy

variable (o : SlavaStrategy)

/-- The enemy sees the state in one of the stances of a list. -/
def seenFromAny (stances : List TrooperStance) (state : State) (enemy : Trooper) : Bool :=
  stances.any fun stance => decide (o.seenFrom state enemy stance = some true)

/-- The intended `shooting_enemies`: the enemies within grenade range and those that see the state
    in one of the three stances. -/
def threatCount (state : State) : ℕ :=
  o.enemies.countP fun enemy =>
    o.inGrenadeRange state enemy || o.seenFromAny allStances state enemy

/-- The `shooting_enemies` the search computes for the state is the intended one. -/
def ThreatLaw (state : State) : Prop :=
  ∀ n, o.shootingEnemies state = some n → n = o.threatCount state

/-- A move after the moves `before` evaluates the state: the state is on a plan of the search. -/
def Evaluates (rand : ℕ → ℕ) (fuel : ℕ) (before : List Turn) (turn : Turn) (state : State) :
    Prop :=
  ∃ g g₁ g₂, session rand fuel before = some g ∧
    construct turn.self turn.world turn.game g = some (o, g₁) ∧
    targetLoop rand o fuel (o.resetTarget g₁) = some (true, g₂) ∧
    ∃ p ∈ o.plans g₂ 10 o.root, p.2.state = state

/-! ## What the loops count -/

theorem isShooting_eq {state : State} {enemy : Trooper} {shooting : Bool}
    (h : o.isShooting state enemy = some shooting) :
    shooting = (o.inGrenadeRange state enemy || o.seenFromAny o.stances state enemy) := by
  have hloop : ∀ (l : List TrooperStance) (b c : Bool),
      l.foldlM (fun b stance => (o.seenFrom state enemy stance).map fun v => b || v) b = some c →
        c = (b || o.seenFromAny l state enemy) := by
    intro l
    induction l with
    | nil =>
        intro b c h
        cases h
        simp [seenFromAny]
    | cons stance l ih =>
        intro b c h
        rw [List.foldlM_cons, Option.bind_eq_bind, Option.bind_eq_some_iff] at h
        obtain ⟨b', hb, hrest⟩ := h
        obtain ⟨v, hv, rfl⟩ := Option.map_eq_some_iff.mp hb
        rw [ih _ c hrest]
        simp [seenFromAny, hv, Bool.or_assoc]
  unfold isShooting at h
  split_ifs at h with hrange
  · cases h
    simp [hrange]
  · simpa [hrange] using hloop _ _ _ h

theorem shootingEnemies_eq {state : State} {n : Int} (h : o.shootingEnemies state = some n) :
    n = (o.enemies.countP fun enemy =>
      o.inGrenadeRange state enemy || o.seenFromAny o.stances state enemy) := by
  have hloop : ∀ (l : List Trooper) (m n : Int),
      l.foldlM (fun m enemy => (o.isShooting state enemy).map fun s => m + boolToInt s) m = some n →
        n = m + l.countP fun enemy =>
          o.inGrenadeRange state enemy || o.seenFromAny o.stances state enemy := by
    intro l
    induction l with
    | nil =>
        intro m n h
        cases h
        simp
    | cons enemy l ih =>
        intro m n h
        rw [List.foldlM_cons, Option.bind_eq_bind, Option.bind_eq_some_iff] at h
        obtain ⟨m', hm, hrest⟩ := h
        obtain ⟨s, hs, rfl⟩ := Option.map_eq_some_iff.mp hm
        rw [ih _ n hrest, List.countP_cons, ← o.isShooting_eq hs]
        cases s <;> simp [boolToInt]; omega
  simpa using hloop _ 0 n h

theorem exists_shootingEnemies (hstances : o.stances = []) (state : State) :
    ∃ n, o.shootingEnemies state = some n := by
  have hsome : ∀ enemy, o.isShooting state enemy = some (o.inGrenadeRange state enemy) := by
    intro enemy
    cases h : o.inGrenadeRange state enemy <;> simp [isShooting, h, hstances]
  have hloop : ∀ (l : List Trooper) (m : Int), ∃ n,
      l.foldlM (fun m enemy => (o.isShooting state enemy).map fun s => m + boolToInt s) m
        = some n := by
    intro l
    induction l with
    | nil => exact fun m => ⟨m, rfl⟩
    | cons enemy l ih =>
        intro m
        rw [List.foldlM_cons, hsome]
        exact ih _
  exact hloop _ 0

/-! ## When the count is the intended one -/

theorem threatLaw_of_allStances (h : o.stances = allStances) (state : State) :
    o.ThreatLaw state := by
  intro n hn
  rw [o.shootingEnemies_eq hn, h]
  rfl

/-- A disjunct adds nothing to a count exactly if it holds only where the other one does. -/
private theorem countP_or_eq_iff {α : Type} (p q : α → Bool) (l : List α) :
    l.countP p = l.countP (fun a => p a || q a) ↔ ∀ a ∈ l, p a = true ∨ q a = false := by
  induction l with
  | nil => simp
  | cons a l ih =>
      have hle : l.countP p ≤ l.countP (fun a => p a || q a) :=
        List.countP_mono_left fun a _ h => by simp [h]
      rw [List.countP_cons, List.countP_cons, List.forall_mem_cons, ← ih]
      cases p a <;> cases q a <;> simp
      omega

theorem threatLaw_iff_of_nil (h : o.stances = []) (state : State) :
    o.ThreatLaw state ↔ ∀ enemy ∈ o.enemies, o.inGrenadeRange state enemy = true ∨
      ∀ stance ∈ allStances, o.seenFrom state enemy stance ≠ some true := by
  obtain ⟨n, hn⟩ := o.exists_shootingEnemies h state
  have hcount : n = (o.enemies.countP fun enemy => o.inGrenadeRange state enemy : ℕ) := by
    rw [o.shootingEnemies_eq hn, h]
    simp [seenFromAny]
  have hlaw : o.ThreatLaw state
      ↔ (o.enemies.countP fun enemy => o.inGrenadeRange state enemy) = o.threatCount state := by
    unfold ThreatLaw
    rw [hn, hcount]
    constructor
    · intro h
      exact Int.ofNat_inj.mp (h _ rfl)
    · intro h m hm
      rw [← Option.some.inj hm, h]
  rw [hlaw, threatCount, countP_or_eq_iff]
  simp [seenFromAny]

/-- **The threat count over a session.** In every session, for every state a move evaluates, the
    `shooting_enemies` of the state is the intended count if and only if the move is the first of
    the session or no enemy beyond grenade range sees the state in any stance. The states are those
    of a search in which no `int` overflows. -/
theorem threatLaw_iff {rand : ℕ → ℕ} {fuel : ℕ} {before : List Turn} {turn : Turn} {state : State}
    (h : o.Evaluates rand fuel before turn state) :
    o.ThreatLaw state ↔ before = [] ∨
      ∀ enemy ∈ o.enemies, o.inGrenadeRange state enemy = true ∨
        ∀ stance ∈ allStances, o.seenFrom state enemy stance ≠ some true := by
  obtain ⟨g, g₁, g₂, hsession, hcon, _, _⟩ := h
  have hindex : g₁.moveIndex = before.length := by
    rw [(constructed_construct hcon).moveIndex_eq, (session_globals hsession).1]
    omega
  have hstances := (constructed_construct hcon).stances_eq
  rw [hindex] at hstances
  cases before with
  | nil =>
      -- the first move: `init()` has filled the vector
      have hall : o.ThreatLaw state :=
        o.threatLaw_of_allStances (by simpa [allStances] using hstances) state
      exact ⟨fun _ => Or.inl rfl, fun _ => hall⟩
  | cons first rest =>
      -- a later move: the vector of the new object is empty
      have hne : ((first :: rest).length : Int) ≠ 0 := by simp; omega
      rw [if_neg hne] at hstances
      rw [o.threatLaw_iff_of_nil hstances]
      simp

end SlavaStrategy

/-- An enemy in the middle of the corridor, with the range to shoot at its end but not to throw. -/
def farEnemy : Trooper :=
  { (default : Trooper) with
    id := 1, x := 4, stance := .standing, hitpoints := 100, maximalHitpoints := 100
    shootingRange := ⟨0x4024000000000000⟩ }

/-- A move of the trooper at the end of the corridor with the enemy in its middle. -/
def watchedTurn : Turn :=
  ⟨woundedTrooper, corridor [woundedTrooper, farEnemy] [], medikitGame⟩

/-- The object built for the second such move. -/
def watchedStrategy : SlavaStrategy where
  self := watchedTurn.self
  world := watchedTurn.world
  game := watchedTurn.game
  cells := [[.lowCover], [.free], [.free], [.free], [.lowCover], [.free], [.free], [.free]]
  teammates := [woundedTrooper]
  enemies := [farEnemy]
  stances := []

theorem construct_watched :
    SlavaStrategy.construct watchedTurn.self watchedTurn.world watchedTurn.game corridorGlobals
      = some (watchedStrategy, { corridorGlobals with moveIndex := 1 }) := rfl

theorem watchedStrategy_evaluates :
    watchedStrategy.Evaluates (fun _ => 7) 1 [watchedTurn] watchedTurn
      watchedStrategy.initialState :=
  ⟨corridorGlobals, { corridorGlobals with moveIndex := 1 },
    { corridorGlobals with moveIndex := 1 }, by decide +kernel, construct_watched,
    by decide, ([], watchedStrategy.root), DepthFirst.nil_mem_plans _ 10 _, rfl⟩

/-- On the second move the enemy that sees the trooper is not counted. -/
theorem not_threatLaw_second_move :
    watchedStrategy.Evaluates (fun _ => 7) 1 [watchedTurn] watchedTurn
        watchedStrategy.initialState ∧
      watchedStrategy.shootingEnemies watchedStrategy.initialState = some 0 ∧
      watchedStrategy.threatCount watchedStrategy.initialState = 1 ∧
      ¬ watchedStrategy.ThreatLaw watchedStrategy.initialState := by
  obtain ⟨hcode, hlaw⟩ : watchedStrategy.shootingEnemies watchedStrategy.initialState = some 0 ∧
      watchedStrategy.threatCount watchedStrategy.initialState = 1 := by decide +kernel
  refine ⟨watchedStrategy_evaluates, hcode, hlaw, fun h => ?_⟩
  have := h 0 hcode
  rw [hlaw] at this
  exact absurd this (by decide)

theorem threatLaw_iff_second_move :
    watchedStrategy.ThreatLaw watchedStrategy.initialState ↔ [watchedTurn] = [] ∨
      ∀ enemy ∈ watchedStrategy.enemies,
        watchedStrategy.inGrenadeRange watchedStrategy.initialState enemy = true ∨
        ∀ stance ∈ allStances,
          watchedStrategy.seenFrom watchedStrategy.initialState enemy stance ≠ some true :=
  watchedStrategy.threatLaw_iff watchedStrategy_evaluates

end CodeTroopers
