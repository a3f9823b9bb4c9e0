import CodeTroopers.Client.Parser

set_option autoImplicit false

/-! # The contexts of a session, written and read

The server writes the cells and the visibility table into the first context of a session only, and
the client keeps them. `readPlayerContexts_encodeSession` is the round trip over a whole session:
one client reads back the contexts in order, each with the tables of the first one, and leaves what
comes behind. The first context takes the client from the empty caches to the filled ones; the rest
is an induction over the later contexts, for which the client does not change any more. -/

namespace CodeTroopers

open StreamProgram ByteOrder WireFormat

/-- The player contexts of a session as the server writes them. -/
def encodeSession (h : VisibilityHeader) : List PlayerContext → List WireByte
  | [] => []
  | first :: later =>
    encodePlayerContext .initial h first ++ later.flatMap
      (encodePlayerContext ⟨some first.world.cells, some first.world.cellVisibilities⟩ h)

/-- The context with the cells and the visibility table of a world. -/
def PlayerContext.withTables (first : World) (ctx : PlayerContext) : PlayerContext :=
  { ctx with world := { ctx.world with
      cells := first.cells, cellVisibilities := first.cellVisibilities } }

/-- A number of calls of `readPlayerContext` on one client. -/
def readPlayerContexts {ν : Type} (host : Order) :
    ℕ → RemoteProcessClient → Client ν (List PlayerContext)
  | 0, _ => .pure []
  | n + 1, client => do
    let (playerContext, client) ← RemoteProcessClient.readPlayerContext host client
    match playerContext with
    | none => .pure []
    | some ctx => do
      let rest ← readPlayerContexts host n client
      .pure (ctx :: rest)

section RoundTrip

variable {ν : Type}

theorem canonical_append (m₁ m₂ : List WireByte) :
    canonical (m₁ ++ m₂) = canonical m₁ ++ canonical m₂ := List.map_append

theorem readPlayerContext_encode {client : RemoteProcessClient} {h : VisibilityHeader}
    {ctx : PlayerContext} (hvalid : ValidWorld client h ctx.world) {c : Stream ν}
    {rest : List UInt8} (hin : c.inbound = canonical (encodePlayerContext client h ctx) ++ rest) :
    runStream (RemoteProcessClient.readPlayerContext .little client) c
      = (.ok (some ctx, ⟨some ctx.world.cells, some ctx.world.cellVisibilities⟩),
        { c with inbound := rest }) :=
  ((parses_readPlayerContext client).accepts _ _ _).mpr
    ⟨_, _, rest, .present ctx h hvalid, spells_canonical _, hin, rfl⟩

theorem readPlayerContexts_succ {n : ℕ} {client client' : RemoteProcessClient}
    {ctx : PlayerContext} {ctxs : List PlayerContext} {c c' c'' : Stream ν}
    (hfirst : runStream (RemoteProcessClient.readPlayerContext .little client) c
      = (.ok (some ctx, client'), c'))
    (hrest : runStream (readPlayerContexts .little n client') c' = (.ok ctxs, c'')) :
    runStream (readPlayerContexts .little (n + 1) client) c = (.ok (ctx :: ctxs), c'') := by
  rw [readPlayerContexts, Prog.bind_eq, runStream, run_bind_of_ok hfirst]
  dsimp only
  rw [Prog.bind_eq, run_bind_of_ok hrest]
  rfl

theorem readPlayerContexts_later (h : VisibilityHeader) (first : World)
    (ctxs : List PlayerContext) (hlists : ∀ ctx ∈ ctxs, ValidLists ctx.world) (c : Stream ν)
    (suffix : List UInt8)
    (hin : c.inbound = canonical (ctxs.flatMap
      (encodePlayerContext ⟨some first.cells, some first.cellVisibilities⟩ h)) ++ suffix) :
    runStream (readPlayerContexts .little ctxs.length
        ⟨some first.cells, some first.cellVisibilities⟩) c
      = (.ok (ctxs.map (PlayerContext.withTables first)), { c with inbound := suffix }) := by
  induction ctxs generalizing c with
  | nil =>
      obtain rfl : c.inbound = suffix := hin
      rfl
  | cons ctx ctxs ih =>
      rw [List.flatMap_cons, canonical_append, List.append_assoc] at hin
      obtain ⟨hctx, hrest⟩ := List.forall_mem_cons.mp hlists
      -- the tables are not written, so the context could as well be the one that has them
      have hvalid : ValidWorld ⟨some first.cells, some first.cellVisibilities⟩ h
          (ctx.withTables first).world :=
        ⟨⟨hctx.players_length, hctx.name_length, hctx.troopers_length, hctx.bonuses_length⟩,
          rfl, rfl⟩
      exact readPlayerContexts_succ (readPlayerContext_encode hvalid hin) (ih hrest _ rfl)

/-- **Reading back a session**: one client returns the contexts in order, each with the cells and
    the visibility table of the first one, and leaves exactly the bytes behind them. -/
theorem readPlayerContexts_encodeSession (h : VisibilityHeader) (hnonneg : h.Nonneg)
    (hproduct : h.product < 2 ^ 31) (first : PlayerContext) (later : List PlayerContext)
    (hlists : ∀ ctx ∈ first :: later, ValidLists ctx.world)
    (hcolumns : first.world.cells.length < 2 ^ 31)
    (hcolumn : ∀ column ∈ first.world.cells, column.length < 2 ^ 31)
    (htable : (first.world.cellVisibilities.length : Int) = h.product)
    (suffix outbound : List UInt8) (log : List (Mark ν)) :
    runStream (readPlayerContexts .little (first :: later).length .initial)
        ⟨canonical (encodeSession h (first :: later)) ++ suffix, outbound, log⟩
      = (.ok ((first :: later).map (PlayerContext.withTables first.world)),
        ⟨suffix, outbound, log⟩) := by
  obtain ⟨hfirst, hlater⟩ := List.forall_mem_cons.mp hlists
  have hcount := h.toInt_count hnonneg hproduct
  have hvalid : ValidWorld .initial h first.world := by
    refine ⟨hfirst, ⟨hcolumns, hcolumn⟩, hnonneg, ?_, ?_⟩
    · rw [Int32.lt_iff_toInt_lt, Int32.toInt_zero, hcount, ← htable]
      omega
    · rw [hcount, ← htable, Int.toNat_natCast]
  have hin : canonical (encodeSession h (first :: later)) ++ suffix
      = canonical (encodePlayerContext .initial h first) ++ (canonical (later.flatMap
        (encodePlayerContext ⟨some first.world.cells, some first.world.cellVisibilities⟩ h))
          ++ suffix) := by
    rw [encodeSession, canonical_append, List.append_assoc]
  exact readPlayerContexts_succ (readPlayerContext_encode hvalid hin)
    (readPlayerContexts_later h first.world later hlater _ suffix rfl)

end RoundTrip

/-- A later move on the two cells: the enemy is wounded and the grenade is gone. -/
def laterContext : PlayerContext where
  trooper := { twoCellSoldier with actionPoints := 4, holdingMedikit := false }
  world := { twoCellContext.world with
    moveIndex := 4
    troopers := [twoCellSoldier, { twoCellEnemy with hitpoints := 35 }]
    bonuses := [] }

theorem readPlayerContexts_twoCell :
    runStream (readPlayerContexts .little 2 .initial : Client Unit _)
        ⟨canonical (encodeSession twoCellHeader [twoCellContext, laterContext]) ++ [5], [], []⟩
      = (.ok [twoCellContext, laterContext], ⟨[5], [], []⟩) := by
  have hlists : ∀ ctx ∈ [twoCellContext, laterContext], ValidLists ctx.world :=
    List.forall_mem_cons.mpr ⟨⟨by decide, by decide, by decide, by decide⟩,
      List.forall_mem_singleton.mpr ⟨by decide, by decide, by decide, by decide⟩⟩
  exact readPlayerContexts_encodeSession twoCellHeader ⟨by decide, by decide, by decide⟩ (by decide)
    twoCellContext [laterContext] hlists (by decide) (by decide) (by decide) [5] [] []

end CodeTroopers
