import CodeTroopers.Client.Connection
import CodeTroopers.Client.Outbound
import CodeTroopers.Client.SessionGrammar
import CodeTroopers.Client.VisibilityTable
import CodeTroopers.Strategy.Process

set_option autoImplicit false

/-! # A game is played to its end

`Served` is the server's side of a session: the contexts it sends and the message that ends them,
whatever the client answers. `answers` is the strategies' side. A session over such a stream returns
with the answers as its moves, or does not get behind the first context that is not answered
(`session_served`).

`main_plays` puts the parts together: the connection, the protocol, the process of the strategy and
its search. On one map, `main` returns exactly if each acting trooper has a free cell more than five
steps away, and then it has sent one legal move for every context. -/

namespace CodeTroopers

open StreamProgram ByteOrder WireFormat

variable {σ : Type}

/-- The contexts a client reads from a message, up to what ends the loop. -/
inductive Served : RemoteProcessClient → List PlayerContext → List WireByte → Prop
  | closing {client client' : RemoteProcessClient} {message : List WireByte}
      (h : ContextMessage client (none, client') message) : Served client [] message
  | turn {client : RemoteProcessClient} {h : VisibilityHeader} {ctx : PlayerContext}
      {ctxs : List PlayerContext} {message : List WireByte}
      (hvalid : ValidWorld client h ctx.world)
      (later : Served ⟨some ctx.world.cells, some ctx.world.cellVisibilities⟩ ctxs message) :
      Served client (ctx :: ctxs) (encodePlayerContext client h ctx ++ message)

/-- The moves a family of strategies answers contexts with, and what is left of the process. -/
def answers (family : ℕ → Strategy σ) (game : Game) :
    List PlayerContext → σ → Option (List Move × σ)
  | [], s => some ([], s)
  | ctx :: ctxs, s => do
    let (move, s) ← family ctx.trooper.teammateIndex.toInt.toNat ctx.trooper ctx.world game s
    let (moves, s) ← answers family game ctxs s
    some (move :: moves, s)

/-- The arguments of the call of `move` for a context. -/
def PlayerContext.turn (game : Game) (ctx : PlayerContext) : Turn := ⟨ctx.trooper, ctx.world, game⟩

/-- The strategies of the source share one process. -/
theorem answers_family (rand : ℕ → ℕ) (fuel : ℕ) (game : Game) (ctxs : List PlayerContext)
    (g : Globals) : answers (MyStrategy.family rand fuel) game ctxs g
      = MyStrategy.moves rand fuel (ctxs.map (PlayerContext.turn game)) g := by
  induction ctxs generalizing g with
  | nil => rfl
  | cons ctx ctxs ih => simp only [answers, List.map_cons, MyStrategy.moves, ih]; rfl

/-! ## The session -/

section Session

variable {family : ℕ → Strategy σ} {teamSize : Int32} {game : Game}

theorem Served.plays {client : RemoteProcessClient} {ctxs : List PlayerContext}
    {message : List WireByte} (h : Served client ctxs message)
    (hindex : ∀ ctx ∈ ctxs, Runner.HasStrategy teamSize ctx.trooper) {s s' : σ} {moves : List Move}
    (hanswers : answers family game ctxs s = some (moves, s')) :
    Plays family teamSize game client s message moves := by
  induction h generalizing s moves with
  | closing h =>
      cases hanswers
      exact .closing h
  | turn hvalid _ ih =>
      obtain ⟨hctx, hctxs⟩ := List.forall_mem_cons.mp hindex
      simp only [answers, Option.bind_eq_bind, Option.bind_eq_some_iff] at hanswers
      obtain ⟨⟨move, s₁⟩, hmove, ⟨later, s₂⟩, hlater, hres⟩ := hanswers
      cases hres
      exact .round hvalid hctx hmove (ih hctxs hlater)

theorem Served.noAnswer {client : RemoteProcessClient} {ctxs : List PlayerContext}
    {message : List WireByte} (h : Served client ctxs message)
    (hindex : ∀ ctx ∈ ctxs, Runner.HasStrategy teamSize ctx.trooper) {s : σ}
    (hnone : answers family game ctxs s = none) {fuel : ℕ} {c : Stream Event}
    {bytes unread : List UInt8} (hsp : Spells message bytes) (hin : c.inbound = bytes ++ unread)
    (hfuel : c.inbound.length < fuel) :
    (runStream (Runner.playLoop .little (Runner.strategies family teamSize) game fuel client s)
      c).1 = .error .noAnswer := by
  induction h generalizing fuel s c bytes with
  | closing h => simp [answers] at hnone
  | @turn client h ctx ctxs message hvalid _ ih =>
      obtain ⟨hctx, hctxs⟩ := List.forall_mem_cons.mp hindex
      obtain ⟨fuel, rfl⟩ : ∃ n, fuel = n + 1 := ⟨fuel - 1, by omega⟩
      obtain ⟨u, v, hu, hv, rfl⟩ := (spells_append_iff _ _ _).mp hsp
      rw [List.append_assoc] at hin
      have hread := ((parses_readPlayerContext client).accepts c _ _).mpr
        ⟨_, u, v ++ unread, .present ctx h hvalid, hu, hin, rfl⟩
      have hlt := (takes_readPlayerContext .little client).length_le hread
      cases hmove : family ctx.trooper.teammateIndex.toInt.toNat ctx.trooper ctx.world game s with
      | none =>
          have hat := (Runner.at?_strategies_eq_some_iff family teamSize ctx.trooper _).mpr
            ⟨hctx, rfl⟩
          rw [Runner.playLoop, Prog.bind_eq, runStream, run_bind_of_ok hread]
          simp only [noteEvent, Prog.bind_eq, Prog.bind, run, hat, hmove]
      | some answer =>
          obtain ⟨move, s'⟩ := answer
          have hlater : answers family game ctxs s' = none := by
            cases hlater : answers family game ctxs s' with
            | none => rfl
            | some later =>
                rw [answers, hmove] at hnone
                simp [hlater] at hnone
          obtain ⟨log, hround⟩ := playLoop_round fuel hread hctx hmove
          rw [hround]
          refine ih hctxs hlater hv rfl ?_
          dsimp only at hlt ⊢
          omega

/-- **A session that is served**: it returns with the answers as its moves, or is not answered. -/
theorem session_served (token : List UInt8) (family : ℕ → Strategy σ) (s : σ)
    {ctxs : List PlayerContext} {message : List WireByte} (h : Served .initial ctxs message)
    (hindex : ∀ ctx ∈ ctxs, Runner.HasStrategy teamSize ctx.trooper) {bytes : List UInt8}
    (hsp : Spells (sessionMessage teamSize game message) bytes) (unread : List UInt8) :
    let r := runStream (Runner.session .little token family s (bytes ++ unread))
      (freshStream (bytes ++ unread))
    (∃ moves s', answers family game ctxs s = some (moves, s') ∧ r.1 = .ok () ∧
      r.2.inbound = unread ∧ r.2.outbound = writtenBytes .little token moves) ∨
    (answers family game ctxs s = none ∧ r.1 = .error .noAnswer) := by
  intro r
  obtain ⟨z, fuel, log, hz, hfuel, hr⟩ :=
    run_sessionMessage token family s unread hsp
  have hr : r = _ := hr
  cases hanswers : answers family game ctxs s with
  | none => exact Or.inr ⟨rfl, hr ▸ h.noAnswer hindex hanswers hz rfl hfuel⟩
  | some answer =>
      obtain ⟨moves, s'⟩ := answer
      obtain ⟨log', hrun⟩ := (h.plays hindex hanswers).run (c := ⟨z ++ unread, _, log⟩) hz rfl hfuel
      rw [hr, hrun]
      exact Or.inl ⟨moves, s', rfl, rfl, rfl, rfl⟩

end Session

/-! ## Any stream -/

/-- The context an event is about. -/
def Event.context? : Event → Option PlayerContext
  | .contextRead ctx => some ctx
  | _ => none

section AnyStream

variable {rand : ℕ → ℕ} {fuel : ℕ} {teamSize : Int32} {game : Game} {ctxs : List PlayerContext}
  {moves : List Move} {events : List Event} {g : Globals}

theorem Rounds.onMap {b : BoardSize} {cells : Cells}
    (h : Rounds (MyStrategy.family rand fuel) teamSize game Globals.initial ctxs moves events g)
    (hmap : ∀ ctx ∈ ctxs, (ctx.turn game).PlaysOn b cells) : g.OnMap b cells := by
  induction h with
  | nil => exact Or.inl rfl
  | @round ctxs moves events g g' ctx move _ _ hmove ih =>
      have hg := ih fun ctx' hctx' => hmap ctx' (List.mem_append_left _ hctx')
      have hturn := hmap ctx (List.mem_append_right _ (List.mem_singleton_self ctx))
      exact Or.inr (hg.kept hturn hmove).1

end AnyStream

/-- Every call transfers something or meets the end of the stream. -/
def Kernel.Serves (kernel : Kernel) : Prop :=
  ∀ i, (kernel.recv i).Succeeds ∧ (kernel.send i).Succeeds

/-- `main` with the strategies of the source, from the start of the process on. Their target loops
    may run a number of rounds each. -/
def MyStrategy.main (network : Network) (kernel : Kernel) (fuel : ℕ) (arguments : List (List UInt8))
    (errno : Errno) (inbound : List UInt8) (rand : ℕ → ℕ) (rounds : ℕ) :
    Except Ending Unit × Process Event :=
  Runner.main .little network kernel fuel (MyStrategy.family rand rounds) Globals.initial arguments
    (CSimpleSocket.construct errno inbound)

section Main

open CSimpleSocket

variable {host : Order} {network : Network} {kernel : Kernel} {arguments : List (List UInt8)}

/-- Over a connection that serves, the program does what a session over a stream does. -/
theorem main_serves {addr : SockAddr}
    (hconnects : Connects host network (Runner.parameters arguments) addr) (hserves : kernel.Serves)
    (fuel : ℕ) (family : ℕ → Strategy σ) (s : σ) (errno : Errno) (inbound : List UInt8) :
    let r := Runner.main host network kernel (fuel + 1) family s arguments (construct errno inbound)
    let ideal :=
      runStream (Runner.session host (Runner.parameters arguments).token family s inbound)
        (freshStream inbound)
    r.1 = ideal.1 ∧ r.2.inbound = ideal.2.inbound ∧ r.2.wire = ideal.2.outbound := by
  have hnot : ∀ {t : Transfer} {errno : Errno}, t.Succeeds → t ≠ .fails errno := by
    rintro _ _ h rfl
    exact h
  have hlives : ∀ {t : Transfer}, t.Succeeds → t ≠ .kills := by
    rintro _ h rfl
    exact h
  rcases main_alike host network kernel fuel family s arguments errno inbound with
    ⟨hnone, _⟩ | ⟨_, ⟨hend, h⟩ | ⟨e, _, hbroken⟩⟩
  · exact absurd hconnects (hnone addr)
  · exact ⟨hend, h.inbound_eq, h.wire_eq⟩
  · rcases hbroken.cause with ⟨hfailure, _⟩ | ⟨hfailure, _⟩
    · cases hfailure with
      | short _ h => exact absurd h (hnot (hserves _).1)
      | outside _ h => exact absurd h (hnot (hserves _).1)
      | endless _ h => exact absurd h (hnot (hserves _).1)
      | killed _ h => exact absurd h (hlives (hserves _).1)
    · cases hfailure with
      | unsent _ h => exact absurd h (hnot (hserves _).2)
      | endless _ h => exact absurd h (hnot (hserves _).2)
      | killed _ h => exact absurd h (hlives (hserves _).2)

/-- **The program plays the game.** Over a connection that serves, with contexts on one map and fair
    draws, it returns after some number of rounds of the target loops exactly if every acting
    trooper has a free cell more than five steps away. Then it has read the messages, and has sent
    its token, the protocol version and one legal move for every context, in this order; and more
    rounds change nothing. -/
theorem main_plays {addr : SockAddr}
    (hconnects : Connects .little network (Runner.parameters arguments) addr)
    (hserves : kernel.Serves) {teamSize : Int32} {game : Game} {ctxs : List PlayerContext}
    {message : List WireByte} {bytes : List UInt8} (hserved : Served .initial ctxs message)
    (hspells : Spells (sessionMessage teamSize game message) bytes)
    (hindex : ∀ ctx ∈ ctxs, Runner.HasStrategy teamSize ctx.trooper) {b : BoardSize} {cells : Cells}
    (hmap : ∀ ctx ∈ ctxs, (ctx.turn game).PlaysOn b cells) {rand : ℕ → ℕ} (hfair : Fair rand b)
    (fuel : ℕ) (errno : Errno) (unread : List UInt8) :
    let r := MyStrategy.main network kernel (fuel + 1) arguments errno (bytes ++ unread) rand
    ((∃ rounds, (r rounds).1 = .ok ()) ↔
      ∀ ctx ∈ ctxs, ∃ c, GoodTarget b cells ctx.trooper.pos c) ∧
    ∀ rounds, (r rounds).1 = .ok () →
      ∃ moves, List.Forall₂ (fun ctx move => (ctx.turn game).LegalAction move) ctxs moves ∧
        ∀ rounds' ≥ rounds, (r rounds').1 = .ok () ∧ (r rounds').2.inbound = unread ∧
          (r rounds').2.wire = writtenBytes .little (Runner.parameters arguments).token moves := by
  intro r
  have hturns : ∀ turn ∈ ctxs.map (PlayerContext.turn game), turn.PlaysOn b cells := by
    simpa using hmap
  have hinitial : Globals.initial.OnMap b cells := Or.inl rfl
  have hmain := fun rounds => main_serves hconnects hserves fuel (MyStrategy.family rand rounds)
    Globals.initial errno (bytes ++ unread)
  have hsession := fun rounds => session_served (Runner.parameters arguments).token
    (MyStrategy.family rand rounds) Globals.initial hserved hindex hspells unread
  simp only [answers_family] at hsession
  -- the program returns exactly if the strategies answer
  have hreturns : ∀ rounds, (r rounds).1 = .ok () → ∃ moves g, MyStrategy.moves rand rounds
      (ctxs.map (PlayerContext.turn game)) Globals.initial = some (moves, g) := by
    intro rounds hok
    rcases hsession rounds with ⟨moves, g, hmoves, _⟩ | ⟨_, hnone⟩
    · exact ⟨moves, g, hmoves⟩
    · have herror := (hmain rounds).1.symm.trans hok
      rw [hnone] at herror
      simp at herror
  have hanswered : ∀ {rounds moves g}, MyStrategy.moves rand rounds
      (ctxs.map (PlayerContext.turn game)) Globals.initial = some (moves, g) →
      (r rounds).1 = .ok () ∧ (r rounds).2.inbound = unread ∧
        (r rounds).2.wire = writtenBytes .little (Runner.parameters arguments).token moves := by
    intro rounds moves g hmoves
    rcases hsession rounds with ⟨moves', g', hmoves', hok, hin, hout⟩ | ⟨hnone, _⟩
    · rw [hmoves, Option.some.injEq, Prod.mk.injEq] at hmoves'
      obtain ⟨rfl, _⟩ := hmoves'
      exact ⟨(hmain rounds).1.trans hok, (hmain rounds).2.1.trans hin,
        (hmain rounds).2.2.trans hout⟩
    · rw [hmoves] at hnone
      simp at hnone
  refine ⟨⟨?_, ?_⟩, ?_⟩
  · rintro ⟨rounds, hok⟩ ctx hctx
    obtain ⟨moves, g, hmoves⟩ := hreturns rounds hok
    exact (hinitial.kept_moves hturns hmoves).2.2 _ (List.mem_map_of_mem hctx)
  · intro htargets
    obtain ⟨rounds, moves, g, hmoves⟩ :=
      hinitial.exists_moves hfair hturns (List.forall_mem_map.mpr htargets)
    exact ⟨rounds, (hanswered hmoves).1⟩
  · intro rounds hok
    obtain ⟨moves, g, hmoves⟩ := hreturns rounds hok
    refine ⟨moves, ?_, fun rounds' hle => hanswered (MyStrategy.moves_mono hle hmoves)⟩
    exact List.forall₂_map_left_iff.mp (hinitial.kept_moves hturns hmoves).2.1

end Main

/-! ## A game in the yard -/

/-- A connection over which a call transfers up to fifty bytes. -/
def packetKernel : Kernel := ⟨fun _ => .transfers 50, fun _ => .transfers 50⟩

/-- The program on its own machine. -/
def localNetwork : Network where
  socket := none
  setsockopt := none
  gethostbyname := fun _ => .found 0x0100007f
  connect := fun _ => none
  close := none

theorem localNetwork_connects : Connects .little localNetwork (Runner.parameters [])
    ⟨0x0100007f, htons .little 31001⟩ :=
  ⟨rfl, rfl, by decide, by decide, by decide, rfl⟩

def yardContext : PlayerContext := ⟨yardTurn.self, yardTurn.world⟩

def commanderContext : PlayerContext := ⟨commanderTurn.self, commanderTurn.world⟩

/-- The contexts of two moves, the second without the tables. -/
def yardMessage : List WireByte :=
  encodePlayerContext .initial ⟨4, 3, 3⟩ yardContext ++
    (encodePlayerContext ⟨some yardContext.world.cells, some yardContext.world.cellVisibilities⟩
      ⟨4, 3, 3⟩ commanderContext ++ encodeCode MessageType.gameOver.toCode)

/-- All messages of a session of two troopers. -/
def yardSession : List UInt8 := canonical (sessionMessage 2 yardGame yardMessage)

theorem yardContexts_playsOn : ∀ ctx ∈ [yardContext, commanderContext],
    (ctx.turn yardGame).PlaysOn ⟨4, 3⟩ yardCells :=
  List.forall_mem_cons.mpr ⟨yardTurn_playsOn, List.forall_mem_singleton.mpr commanderTurn_playsOn⟩

theorem yardMessage_served : Served .initial [yardContext, commanderContext] yardMessage := by
  refine .turn ⟨⟨by decide, by decide, by decide, by decide⟩, ⟨by decide, by decide⟩,
    ⟨by decide, by decide, by decide⟩, by decide, length_yard _⟩ (.turn ?_ (.closing .gameOver))
  exact ⟨⟨by decide, by decide, by decide, by decide⟩, rfl, rfl⟩

/-- Draws that count up in pairs come to all cells of the yard. -/
theorem fair_half : Fair (fun n => n / 2) ⟨4, 3⟩ := by
  intro n c hc
  obtain ⟨x, y, rfl, hx, hy⟩ := Point.exists_natCast (w := 4) (h := 3) hc
  dsimp only
  -- the number of the first draw has the remainders `x` by four and `y` by three
  obtain ⟨m, hm, hle⟩ : ∃ m, m = 9 * x + 4 * (y + 3 - n % 2) + 12 * n ∧ n / 2 ≤ m :=
    ⟨_, rfl, by omega⟩
  have hfirst : (n + 2 * (m - n / 2)) / 2 = m := by omega
  have hsecond : (n + 2 * (m - n / 2) + 1) / 2 = m + n % 2 := by omega
  refine ⟨m - n / 2, ?_, ?_⟩
  · rw [hfirst, Int.tmod_eq_emod_of_nonneg (by omega)]
    omega
  · rw [hsecond, Int.tmod_eq_emod_of_nonneg (by omega)]
    rcases Nat.mod_two_eq_zero_or_one n with h | h <;> rw [h] at hm ⊢ <;> omega

theorem goodTarget_yard {p : Point} {d : Int} (hp : p.isCorrect ⟨4, 3⟩ = true)
    (hd : minDistance yardDistances p ⟨0, 2⟩ = some d) (hgood : ¬ (d ≤ 5 ∨ d = inf)) :
    GoodTarget ⟨4, 3⟩ yardCells p ⟨0, 2⟩ := by
  have ht := ExactTable.of_floyd cellsFit_yard (by decide) floyd_yard
  obtain ⟨d', hd', hiff⟩ := ht.minDistance_target hp (c := ⟨0, 2⟩) (by decide)
  obtain rfl : d' = d := Option.some.inj (hd'.symm.trans hd)
  exact hiff.mpr hgood

theorem main_plays_yard :
    ∃ rounds, (MyStrategy.main localNetwork packetKernel 1 [] .success (yardSession ++ [])
      (fun n => n / 2) rounds).1 = .ok () := by
  have hserves : packetKernel.Serves := fun _ => ⟨trivial, trivial⟩
  have hindex : ∀ ctx ∈ [yardContext, commanderContext], Runner.HasStrategy 2 ctx.trooper := by
    unfold Runner.HasStrategy
    decide
  have hplays := main_plays localNetwork_connects hserves yardMessage_served
    (spells_canonical (sessionMessage 2 yardGame yardMessage)) hindex yardContexts_playsOn fair_half
    0 .success []
  refine hplays.1.mpr (List.forall_mem_cons.mpr ⟨?_, List.forall_mem_singleton.mpr ?_⟩)
  · exact ⟨_, goodTarget_yard (d := 7) (by decide) (by decide +kernel) (by decide)⟩
  · exact ⟨_, goodTarget_yard (d := 8) (by decide) (by decide +kernel) (by decide)⟩

end CodeTroopers
