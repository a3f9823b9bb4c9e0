import CodeTroopers.Client.Parser
import CodeTroopers.Client.Readers
import CodeTroopers.Client.Runner
import CodeTroopers.Library.StreamTriple
import CodeTroopers.Strategy.BoardAccess

set_option autoImplicit false

/-! # What an accepted context guarantees

The strategy indexes the decoded data as if they were `Consistent`: the three sets of dimensions on
the wire agree, the troopers stand on the board, and so on. Nothing in the client compares them. The
client accepts exactly the data that are framed well (`readOpening_iff`), consistent or not; for the
consistent ones every access is defined (`Consistent.safe`). -/

namespace CodeTroopers

open StreamProgram ByteOrder WireFormat CheckedVector

/-! ## Consistent data -/

/-- The data of a context agree with each other and with the team size. -/
structure Consistent (teamSize : Int32) (ctx : PlayerContext) : Prop where
  columns : (ctx.world.cells.length : Int) = ctx.world.width.toInt
  column : ∀ column ∈ ctx.world.cells, (column.length : Int) = ctx.world.height.toInt
  visibilities : (ctx.world.cellVisibilities.length : Int) = ctx.world.width.toInt *
    ctx.world.height.toInt * ctx.world.width.toInt * ctx.world.height.toInt * 3
  self_placed : ctx.trooper.Placed ctx.world
  placed : ∀ t ∈ ctx.world.troopers, t.Placed ctx.world
  index : Runner.HasStrategy teamSize ctx.trooper
  teammate : ∃ t ∈ ctx.world.troopers, t.teammate = true

theorem Consistent.cellsFit {teamSize : Int32} {ctx : PlayerContext}
    (h : Consistent teamSize ctx) : CellsFit ctx.world.size ctx.world.cells where
  sizeY_nonneg := by
    obtain ⟨_, hy0, hy⟩ := (Point.isCorrect_iff _ _).mp h.self_placed.1
    exact hy0.trans hy.le
  columns := ⟨h.columns, h.column⟩

/-! ## Consistent data are safe to index -/

/-- The accesses the runner and the strategy make into the data of a context are defined. -/
structure SafeAccesses (teamSize : Int32) (ctx : PlayerContext) : Prop where
  /-- `strategies[teammateIndex]` -/
  strategies : ∀ {σ : Type} (family : ℕ → Strategy σ),
    (at? (Runner.strategies family teamSize) ctx.trooper.teammateIndex.toInt).isSome
  /-- `world.getCells()[x][y]` -/
  cells : ∀ p : Point, p.isCorrect ctx.world.size = true → (cellAt ctx.world.cells p).isSome
  /-- `(*cellVisibilities)[index]` -/
  visibilities : ∀ (range : Double) (p q : Point) (s t : TrooperStance),
    p.isCorrect ctx.world.size = true → q.isCorrect ctx.world.size = true →
    s ∈ [TrooperStance.prone, .kneeling, .standing] →
    t ∈ [TrooperStance.prone, .kneeling, .standing] → (ctx.world.isVisible range p s q t).isSome
  /-- `cells[x][y]` in the constructor, and the divisor `teammates.size()` -/
  construct : ∀ (game : Game) (g : Globals), (g.moveIndex + 1 = 0 → g.floydDist = []) →
    ∃ o g', SlavaStrategy.construct ctx.trooper ctx.world game g = some (o, g') ∧
      o.teammates.length ≠ 0

/-- **Consistent data are safe to index.** -/
theorem Consistent.safe {teamSize : Int32} {ctx : PlayerContext} (h : Consistent teamSize ctx) :
    SafeAccesses teamSize ctx where
  strategies family := by
    rw [(Runner.at?_strategies_eq_some_iff family teamSize ctx.trooper _).mpr ⟨h.index, rfl⟩]
    rfl
  cells p hp := by
    obtain ⟨c, hc⟩ := h.cellsFit.exists_cellAt hp
    rw [hc]
    rfl
  visibilities range p q s t hp hq hs ht := isSome_isVisible h.visibilities range hp hq hs ht
  construct game g hg := by
    have hsome : (SlavaStrategy.construct ctx.trooper ctx.world game g).isSome :=
      SlavaStrategy.isSome_construct h.cellsFit (fun t ht => (h.placed t ht).1) hg
    obtain ⟨⟨o, g'⟩, hcon⟩ := Option.isSome_iff_exists.mp hsome
    have hc : SlavaStrategy.Constructed ⟨ctx.trooper, ctx.world, game⟩ g o g' :=
      SlavaStrategy.constructed_construct hcon
    obtain ⟨t, ht, hmate⟩ := h.teammate
    refine ⟨o, g', hcon, fun hnil => ?_⟩
    rw [List.length_eq_zero_iff, hc.teammates_eq] at hnil
    have hmem : t ∈ ctx.world.troopers.filter fun t => t.teammate :=
      List.mem_filter.mpr ⟨ht, hmate⟩
    rw [hnil] at hmem
    exact absurd hmem (List.not_mem_nil)

/-! ## What is accepted -/

/-- Reading the team size and the first context. -/
def readOpening {ν : Type} (host : Order) : Client ν (Int32 × Option PlayerContext) := do
  let teamSize ← RemoteProcessClient.readTeamSize host
  let (playerContext, _) ← RemoteProcessClient.readPlayerContext host .initial
  .pure (teamSize, playerContext)

/-- All lists of a world fit behind their counts. -/
structure WellFramed (w : World) : Prop extends ValidLists w where
  cells_length : w.cells.length < 2 ^ 31
  column_length : ∀ column ∈ w.cells, column.length < 2 ^ 31
  visibilities_length : w.cellVisibilities.length < 2 ^ 31

theorem ValidWorld.wellFramed {h : VisibilityHeader} {w : World}
    (hw : ValidWorld .initial h w) : WellFramed w := by
  obtain ⟨hlists, ⟨hcells, hcolumn⟩, hnonneg, hcount, hlen⟩ := hw
  refine ⟨hlists, hcells, hcolumn, ?_⟩
  rw [hlen]
  exact (ofNat_toNat_of_nonneg hcount).2

/-- Dimensions for a table of any length: one cell, and as many stances. -/
theorem WellFramed.validWorld {w : World} (hw : WellFramed w) :
    ValidWorld .initial ⟨1, 1, Int32.ofNat w.cellVisibilities.length⟩ w := by
  obtain ⟨hvalue, hsign⟩ := toInt_ofNat_of_lt hw.visibilities_length
  have hcount : VisibilityHeader.count ⟨1, 1, Int32.ofNat w.cellVisibilities.length⟩
      = Int32.ofNat w.cellVisibilities.length := by
    simp [VisibilityHeader.count]
  have hone : (0 : Int32) ≤ 1 := by decide
  refine ⟨hw.toValidLists, ⟨hw.cells_length, hw.column_length⟩, ?_, ?_, ?_⟩
  · exact ⟨hone, hone, Int32.not_lt.mp hsign⟩
  · rw [hcount]
    exact hsign
  · rw [hcount, hvalue, Int.toNat_natCast]

section Accepted

variable {ν : Type}

theorem run_readOpening (teamSize : Int32) {ctx : PlayerContext} {h : VisibilityHeader}
    (hvalid : ValidWorld .initial h ctx.world) (rest : List UInt8) :
    runStream (readOpening .little : Client ν _) ⟨canonical (encodeTeamSize teamSize) ++
        (canonical (encodePlayerContext .initial h ctx) ++ rest), [], []⟩
      = (.ok (teamSize, some ctx), ⟨rest, [], []⟩) := by
  rw [readOpening, Prog.bind_eq, runStream, run_bind_of_ok ((parses_readTeamSize.accepts _ _ _).mpr
    ⟨_, _, _, ⟨trivial, rfl⟩, spells_canonical _, rfl, rfl⟩), Prog.bind_eq,
    run_bind_of_ok (((parses_readPlayerContext _).accepts _ _ _).mpr
      ⟨_, _, rest, .present ctx h hvalid, spells_canonical _, rfl, rfl⟩)]
  rfl

/-- The client accepts exactly the data that are framed well. -/
theorem readOpening_iff (teamSize : Int32) (ctx : PlayerContext) :
    (∃ stream c', runStream (readOpening .little : Client ν _) ⟨stream, [], []⟩
      = (.ok (teamSize, some ctx), c')) ↔ WellFramed ctx.world := by
  constructor
  · intro h
    obtain ⟨stream, c', hrun⟩ := h
    rw [readOpening, Prog.bind_eq, runStream, run_bind_eq_ok_iff] at hrun
    obtain ⟨n, c₁, _, hrun⟩ := hrun
    rw [Prog.bind_eq, run_bind_eq_ok_iff] at hrun
    obtain ⟨b, c₂, hctx, hres⟩ := hrun
    obtain ⟨message, bytes, rest, hmessage, _⟩ :=
      ((parses_readPlayerContext .initial).accepts _ _ _).mp hctx
    -- the two messages without a context do not return one
    cases hmessage with
    | gameOver => simp at hres
    | absent => simp at hres
    | present ctx' h hvalid =>
        obtain ⟨_, rfl⟩ : n = teamSize ∧ ctx' = ctx := by simpa using congrArg Prod.fst hres
        exact hvalid.wellFramed
  · intro hw
    exact ⟨_, _, run_readOpening teamSize hw.validWorld []⟩

theorem onlyReads_readOpening (host : Order) : ReadsOnly (readOpening host : Client ν _) :=
  (onlyReads_readTeamSize host).bind fun _ =>
    (onlyReads_readPlayerContext host .initial).bind fun _ => trivial

end Accepted

/-- A context of a board that was not sent, for a strategy that is not there. -/
def strayContext : PlayerContext where
  trooper := { (default : Trooper) with x := -1, teammateIndex := 5 }
  world := { (default : World) with width := 8, height := 1 }

/-- **Accepted data need not be consistent.** -/
theorem stray_accepted_not_consistent :
    (∃ c', runStream (readOpening .little : Client Event _)
      ⟨canonical (encodeTeamSize 0) ++
        canonical (encodePlayerContext .initial ⟨0, 0, 0⟩ strayContext), [], []⟩
        = (.ok (0, some strayContext), c')) ∧ ¬ Consistent 0 strayContext := by
  have hvalid : ValidWorld .initial ⟨0, 0, 0⟩ strayContext.world :=
    ⟨⟨by decide, by decide, by decide, by decide⟩, ⟨by decide, by decide⟩,
      ⟨by decide, by decide, by decide⟩, by decide, by decide⟩
  refine ⟨⟨⟨[], [], []⟩, ?_⟩, fun h => ?_⟩
  · have hrun := run_readOpening (ν := Event) 0 hvalid []
    rwa [List.append_nil] at hrun
  · exact absurd h.index.2 (by decide)

/-- **What an accepted context guarantees**: the framing of its lists and nothing else. The accesses
    into it are defined if its data are consistent, and a stream that is not accepted ends in an
    `exit` or in an exception. -/
theorem accepted_context (teamSize : Int32) (ctx : PlayerContext) :
    ((∃ stream c', runStream (readOpening .little : Client Event _) ⟨stream, [], []⟩
      = (.ok (teamSize, some ctx), c')) ↔ WellFramed ctx.world) ∧
    (Consistent teamSize ctx → SafeAccesses teamSize ctx) ∧
    ∀ stream e c', runStream (readOpening .little : Client Event _) ⟨stream, [], []⟩
      = (.error e, c') → e.IsExit ∨ e = .abort := by
  refine ⟨readOpening_iff teamSize ctx, Consistent.safe, fun stream e c' hrun => ?_⟩
  rcases ending_of_run (onlyReads_readOpening .little) hrun with hexit | rfl | rfl
  · exact Or.inl hexit
  · exact Or.inr rfl
  · exact Or.inl trivial

theorem twoCellContext_consistent : Consistent 2 twoCellContext where
  columns := by decide
  column := by decide
  visibilities := by decide
  self_placed := by decide
  placed := by decide
  index := by unfold Runner.HasStrategy; decide
  teammate := ⟨twoCellSoldier, List.mem_cons_self, rfl⟩

/-- A context that is accepted, and safe to index. -/
theorem accepted_context_twoCell :
    (∃ stream c', runStream (readOpening .little : Client Event _) ⟨stream, [], []⟩
      = (.ok (2, some twoCellContext), c')) ∧ SafeAccesses 2 twoCellContext := by
  obtain ⟨haccepted, hsafe, _⟩ := accepted_context 2 twoCellContext
  exact ⟨haccepted.mpr validWorld_twoCellContext.wellFramed, hsafe twoCellContext_consistent⟩

end CodeTroopers
