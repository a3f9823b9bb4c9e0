import CodeTroopers.Strategy.NoOverflow
import CodeTroopers.Strategy.Process

set_option autoImplicit false

/-! # A process in the integers of the machine

The table of `floyd()` holds numbers up to the sentinel, so that the sum of two of them fits
(`intFloyd_eq`). What `exists_intRun` says of one search then holds of every move of a process: the
globals a move leaves are those of the map again, and the table and the target of the next search
are as good as those of the first. `move_index` counts the moves and is an `int` as well. -/

namespace CodeTroopers

open CheckedVector MachineInt SlavaStrategy

/-! ## The distance table -/

/-- No entry is negative or larger than the sentinel. -/
def SmallEntries (t : DistanceTable) : Prop :=
  ∀ p q v, minDistance t p q = some v → 0 ≤ v ∧ v ≤ inf

theorem SmallEntries.set {t t' : DistanceTable} (h : SmallEntries t) {a c : Point} {w : Int}
    (hw : 0 ≤ w ∧ w ≤ inf) (hset : setDistance t a c w = some t') : SmallEntries t' := by
  intro p q v hv
  rw [minDistance_of_setDistance hset] at hv
  split_ifs at hv
  · rw [← Option.some.inj hv]
    exact hw
  · exact h p q v hv

theorem SmallEntries.intRelaxPoint_eq {t : DistanceTable} (h : SmallEntries t) (k i j : Point) :
    intRelaxPoint k i t j = relaxPoint k i t j ∧
      ∀ t', relaxPoint k i t j = some t' → SmallEntries t' := by
  unfold intRelaxPoint relaxPoint
  cases hkj : minDistance t k j with
  | none => exact ⟨rfl, fun _ h => absurd h (by simp)⟩
  | some kj =>
      simp only [Option.bind_eq_bind, Option.bind_some]
      by_cases hinf : kj = inf
      · rw [if_pos hinf, if_pos hinf]
        exact ⟨rfl, fun t' ht' => Option.some.inj ht' ▸ h⟩
      · rw [if_neg hinf, if_neg hinf]
        cases hij : minDistance t i j with
        | none => exact ⟨rfl, fun _ h => absurd h (by simp)⟩
        | some ij =>
            cases hik : minDistance t i k with
            | none => exact ⟨rfl, fun _ h => absurd h (by simp)⟩
            | some ik =>
                have hkj := h k j kj hkj
                have hij := h i j ij hij
                have hik := h i k ik hik
                simp only [Option.bind_some]
                unfold inf at hkj hij hik hinf
                rw [checkedInt_eq (by omega)]
                exact ⟨rfl, fun t' hset => h.set (by unfold inf; omega) hset⟩

theorem SmallEntries.intRelaxFrom_eq {t : DistanceTable} (h : SmallEntries t) (l : List Point)
    (k i : Point) : intRelaxFrom l k t i = relaxFrom l k t i ∧
      ∀ t', relaxFrom l k t i = some t' → SmallEntries t' := by
  unfold intRelaxFrom relaxFrom
  cases minDistance t i k with
  | none => exact ⟨rfl, fun _ h => absurd h (by simp)⟩
  | some ik =>
      simp only [Option.bind_eq_bind, Option.bind_some]
      by_cases hinf : ik = inf
      · rw [if_pos hinf, if_pos hinf]
        exact ⟨rfl, fun t' ht' => Option.some.inj ht' ▸ h⟩
      · rw [if_neg hinf, if_neg hinf]
        exact foldlM_eq_of_room (fun _ => SmallEntries) l
          (fun j _ _ _ ht => ht.intRelaxPoint_eq k i j) h

theorem SmallEntries.intRelaxAll_eq {t : DistanceTable} (h : SmallEntries t) (l : List Point) :
    intRelaxAll l t = relaxAll l t :=
  (foldlM_eq_of_room (fun _ => SmallEntries) l (fun k _ _ _ ht =>
    foldlM_eq_of_room (fun _ => SmallEntries) l
      (fun i _ _ _ ht => ht.intRelaxFrom_eq l k i) ht) h).1

theorem intConnectNeighs_eq {b : BoardSize} (hb : b.sizeX < 2 ^ 31 ∧ b.sizeY < 2 ^ 31)
    (cells : Cells) {l : List Point} (hl : ∀ p ∈ l, p.isCorrect b = true) (t : DistanceTable) :
    intConnectNeighs b cells l t = connectNeighs b cells l t := by
  refine (foldlM_eq_of_room (fun _ _ => True) l (fun p hp _ t _ => ?_) trivial).1
  refine ⟨?_, fun _ _ => trivial⟩
  rw [Point.intNeighs_eq hb (hl p hp), Option.bind_some]

/-- `floyd()` does not overflow on a board whose sides are integers of the machine. -/
theorem intFloyd_eq {b : BoardSize} (hb : b.sizeX < 2 ^ 31 ∧ b.sizeY < 2 ^ 31) {cells : Cells}
    (hfit : CellsFit b cells) : intFloyd b cells [] = floyd b cells [] := by
  have hx : 0 ≤ b.sizeX := by
    have := hfit.columns.1
    omega
  obtain ⟨t₀, hresize, hrep₀⟩ := exists_resizeTable hx hfit.sizeY_nonneg
  obtain ⟨t₁, d, hconnect, hrep₁, hinit⟩ := exists_connectNeighs hfit hrep₀
  have hsmall : SmallEntries t₁ := by
    intro p q v hv
    obtain ⟨hp, hq⟩ := hrep₁.fits.isCorrect_of_minDistance hv
    rw [hrep₁.reads p q hp hq, Option.some.injEq] at hv
    rw [← hv]
    by_cases hadj : (freeGraph b cells).Adj p q
    · rw [(hinit p q).1 hadj]
      decide
    · rw [(hinit p q).2 hadj]
      decide
  rw [intFloyd, floyd, collectFreePoints_eq hfit, hresize]
  have hfree : ∀ p ∈ freePoints b cells, p.isCorrect b = true :=
    fun p hp => ((mem_freePoints_iff b cells p).mp hp).1
  simp only [Option.bind_eq_bind, Option.bind_some, intConnectNeighs_eq hb cells hfree, hconnect]
  exact hsmall.intRelaxAll_eq _

/-! ## One move -/

theorem SlavaStrategy.intConstruct_eq {self : Trooper} {world : World} {game : Game} {g : Globals}
    (hindex : -2 ^ 31 ≤ g.moveIndex + 1 ∧ g.moveIndex + 1 < 2 ^ 31)
    (hfloyd : g.moveIndex + 1 = 0 →
      intFloyd ⟨world.width.toInt, world.height.toInt⟩ world.cells g.floydDist
        = floyd ⟨world.width.toInt, world.height.toInt⟩ world.cells g.floydDist) :
    intConstruct self world game g = construct self world game g := by
  unfold intConstruct construct
  rw [checkedInt_eq hindex]
  simp only [Option.bind_eq_bind, Option.bind_some]
  by_cases hfirst : g.moveIndex + 1 = 0
  · simp only [hfirst, if_true, intInit, init]
    rw [hfloyd hfirst]
  · simp only [hfirst, if_false]

/-- Every teammate is connected to the trooper's cell. -/
def Turn.Connected (turn : Turn) : Prop :=
  ∀ mate ∈ turn.world.troopers, mate.teammate = true →
    (freeGraph turn.world.size turn.world.cells).Reachable turn.self.pos mate.pos

section OneMove

variable {b : BoardSize} {cells : Cells} {turn : Turn} {g : Globals} {rand : ℕ → ℕ}
  (hturn : turn.PlaysOn b cells) (hmoderate : turn.Moderate) (hconnected : turn.Connected)

include hturn hmoderate hconnected

/-- The search of a move on the map is the exact one, or the target loop goes on. -/
theorem Globals.OnMap.intRun_eq_run {o : SlavaStrategy} {g₁ : Globals} {fuel : ℕ}
    (hcon : SlavaStrategy.construct turn.self turn.world turn.game g = some (o, g₁))
    (hboard : OnBoard b cells o g₁) : o.intRun rand fuel g₁ = o.run rand fuel g₁ := by
  obtain ⟨hcons, rfl, rfl⟩ := hturn
  have hreach : ∀ mate ∈ o.teammates,
      (freeGraph turn.world.size turn.world.cells).Reachable turn.self.pos mate.pos := by
    intro mate hmate
    rw [(constructed_construct hcon).teammates_eq, List.mem_filter] at hmate
    exact hconnected mate hmate.1 hmate.2
  rcases hloop : targetLoop rand o fuel (o.resetTarget g₁) with _ | ⟨_ | _, g₂⟩
  · rw [intRun, run, hloop]
    rfl
  · rw [intRun, run, hloop]
    rfl
  · obtain ⟨s, hint, hrun⟩ :=
      exists_intRun hcons hcon hboard.table hloop hmoderate hboard.size hreach
    rw [hint, hrun]

theorem Globals.OnMap.intMove_eq (hg : g.OnMap b cells) (hindex : -1 ≤ g.moveIndex)
    (hlt : g.moveIndex + 1 < 2 ^ 31) (fuel : ℕ) :
    MyStrategy.intMove rand fuel turn g = MyStrategy.move rand fuel turn g := by
  obtain ⟨o, g₁, hcon, _, hboard, _⟩ := hg.construct hturn
  have hint : intConstruct turn.self turn.world turn.game g
      = SlavaStrategy.construct turn.self turn.world turn.game g := by
    refine intConstruct_eq (by omega) fun hfirst => ?_
    rcases hg with rfl | hkeeps
    · have hsides : turn.world.size.sizeX < 2 ^ 31 ∧ turn.world.size.sizeY < 2 ^ 31 :=
        ⟨turn.world.width.toInt_lt, turn.world.height.toInt_lt⟩
      exact intFloyd_eq hsides hturn.cells
    · have := hkeeps.moveIndex
      omega
  rw [MyStrategy.intMove, MyStrategy.move, hint, hcon]
  show (o.intRun rand fuel g₁).bind _ = (o.run rand fuel g₁).bind _
  rw [intRun_eq_run hturn hmoderate hconnected hcon hboard]

end OneMove

/-- The moves from any globals of the map on, by induction on the moves. -/
theorem Globals.OnMap.intMoves_eq {b : BoardSize} {cells : Cells} {rand : ℕ → ℕ}
    {turns : List Turn}
    (hturns : ∀ turn ∈ turns, turn.PlaysOn b cells ∧ turn.Moderate ∧ turn.Connected) {g : Globals}
    (hg : g.OnMap b cells) (hindex : -1 ≤ g.moveIndex)
    (hlt : g.moveIndex + turns.length < 2 ^ 31) (fuel : ℕ) :
    MyStrategy.intMoves rand fuel turns g = MyStrategy.moves rand fuel turns g := by
  induction turns generalizing g with
  | nil => rfl
  | cons turn turns ih =>
      obtain ⟨⟨hturn, hmoderate, hconnected⟩, hturns⟩ := List.forall_mem_cons.mp hturns
      rw [List.length_cons] at hlt
      push_cast at hlt
      rw [MyStrategy.intMoves, MyStrategy.moves,
        hg.intMove_eq hturn hmoderate hconnected hindex (by omega)]
      cases hmove : MyStrategy.move rand fuel turn g with
      | none => simp only [Option.bind_eq_bind, Option.bind_none]
      | some result =>
          obtain ⟨action, g₁⟩ := result
          obtain ⟨hkeeps, _, _, hnext⟩ := hg.kept hturn hmove
          have hrest := ih hturns (Or.inr hkeeps) (by omega) (by omega)
          simp only [Option.bind_eq_bind, Option.bind_some]
          rw [hrest]

/-- **A process does not overflow.** A process of fewer than `2 ^ 31` moderate moves on one map,
    each with its team connected, computes the same actions and leaves the same globals in the
    integers of the machine as in the exact ones. -/
theorem process_exact {b : BoardSize} {cells : Cells} {rand : ℕ → ℕ} {turns : List Turn}
    (hturns : ∀ turn ∈ turns, turn.PlaysOn b cells ∧ turn.Moderate ∧ turn.Connected)
    (hlen : turns.length < 2 ^ 31) (fuel : ℕ) :
    MyStrategy.intMoves rand fuel turns Globals.initial
      = MyStrategy.moves rand fuel turns Globals.initial := by
  have hinitial : Globals.initial.OnMap b cells := Or.inl rfl
  have hindex : Globals.initial.moveIndex = -1 := rfl
  exact hinitial.intMoves_eq hturns (by omega) (by omega) fuel

theorem yardTurn_connected : yardTurn.Connected := by
  refine List.forall_mem_cons.mpr ⟨fun _ => SimpleGraph.Reachable.refl _,
    List.forall_mem_cons.mpr ⟨fun _ => yard_reachable.symm, List.forall_mem_singleton.mpr ?_⟩⟩
  exact fun hteam => absurd hteam (by decide)

theorem commanderTurn_connected : commanderTurn.Connected := by
  refine List.forall_mem_cons.mpr ⟨fun _ => yard_reachable,
    List.forall_mem_cons.mpr ⟨fun _ => SimpleGraph.Reachable.refl _,
      List.forall_mem_singleton.mpr ?_⟩⟩
  exact fun hteam => absurd hteam (by decide)

theorem process_exact_yard :
    MyStrategy.intMoves (fun _ => 8) 1 [yardTurn, commanderTurn] Globals.initial
      = MyStrategy.moves (fun _ => 8) 1 [yardTurn, commanderTurn] Globals.initial :=
  process_exact (List.forall_mem_cons.mpr
    ⟨⟨yardTurn_playsOn, yardTurn_moderate, yardTurn_connected⟩, List.forall_mem_singleton.mpr
      ⟨commanderTurn_playsOn, commanderTurn_moderate, commanderTurn_connected⟩⟩) (by decide) 1

end CodeTroopers
