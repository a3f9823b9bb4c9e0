import CodeTroopers.Client.CutStream
import CodeTroopers.Client.Outbound

set_option autoImplicit false

/-! # A session ends normally exactly if it is a play

`Plays` is the language of whole sessions, on the level of messages: contexts as long as there are
some, each with the move that answers it, and a message that ends the loop. `session_ok_iff` says
that a session returns exactly if its inbound stream spells the opening messages and a play, and
then it has written the frames of the moves of the play and nothing else. A session that is no play
ends in some other way, which is the business of the grammar of one message. -/

namespace CodeTroopers

open StreamProgram ByteOrder WireFormat CheckedVector

variable {σ : Type}

/-- The messages behind the game context and the moves that answer them. -/
inductive Plays (family : ℕ → Strategy σ) (teamSize : Int32) (game : Game) :
    RemoteProcessClient → σ → List WireByte → List Move → Prop
  /-- A message for which the null pointer is returned. -/
  | closing {client client' : RemoteProcessClient} {s : σ} {message : List WireByte}
      (h : ContextMessage client (none, client') message) :
      Plays family teamSize game client s message []
  /-- A context and the move of the strategy of its trooper. -/
  | round {client : RemoteProcessClient} {s s' : σ} {h : VisibilityHeader} {ctx : PlayerContext}
      {move : Move} {message : List WireByte} {moves : List Move}
      (hvalid : ValidWorld client h ctx.world) (hindex : Runner.HasStrategy teamSize ctx.trooper)
      (hmove : family ctx.trooper.teammateIndex.toInt.toNat ctx.trooper ctx.world game s
        = some (move, s'))
      (later : Plays family teamSize game
        ⟨some ctx.world.cells, some ctx.world.cellVisibilities⟩ s' message moves) :
      Plays family teamSize game client s (encodePlayerContext client h ctx ++ message)
        (move :: moves)

/-- All messages of a session. -/
def sessionMessage (teamSize : Int32) (game : Game) (message : List WireByte) : List WireByte :=
  encodeTeamSize teamSize ++ encodeGame game ++ message

section Loop

variable {family : ℕ → Strategy σ} {teamSize : Int32} {game : Game}

/-- A round of the loop: the context is read, the move written, both are noted. -/
theorem playLoop_round (fuel : ℕ) {client client' : RemoteProcessClient} {s s' : σ}
    {ctx : PlayerContext} {move : Move} {c c₁ : Stream Event}
    (hread : runStream (RemoteProcessClient.readPlayerContext .little client) c
      = (.ok (some ctx, client'), c₁))
    (hindex : Runner.HasStrategy teamSize ctx.trooper)
    (hmove : family ctx.trooper.teammateIndex.toInt.toNat ctx.trooper ctx.world game s
      = some (move, s')) :
    ∃ log, runStream (Runner.playLoop .little (Runner.strategies family teamSize) game (fuel + 1)
        client s) c
      = runStream (Runner.playLoop .little (Runner.strategies family teamSize) game fuel client' s')
          ⟨c₁.inbound, c₁.outbound ++ moveFrame .little move, log⟩ := by
  have hat := (Runner.at?_strategies_eq_some_iff family teamSize ctx.trooper _).mpr ⟨hindex, rfl⟩
  rw [Runner.playLoop, Prog.bind_eq, runStream, run_bind_of_ok hread]
  simp only [noteEvent, Prog.bind_eq, Prog.bind, run, hat, hmove]
  rw [run_bind_of_ok (writes_writeMove .little move _)]
  exact ⟨_, rfl⟩

/-- **A play is played**: the loop answers its contexts and returns behind it. -/
theorem Plays.run {client : RemoteProcessClient} {s : σ} {message : List WireByte}
    {moves : List Move} (h : Plays family teamSize game client s message moves) {fuel : ℕ}
    {c : Stream Event} {bytes unread : List UInt8} (hsp : Spells message bytes)
    (hin : c.inbound = bytes ++ unread) (hfuel : c.inbound.length < fuel) :
    ∃ log,
      runStream (Runner.playLoop .little (Runner.strategies family teamSize) game fuel client s) c
        = (.ok (), ⟨unread, c.outbound ++ moves.flatMap (moveFrame .little), log⟩) := by
  induction h generalizing fuel c bytes with
  | @closing client client' s message hmessage =>
      obtain ⟨fuel, rfl⟩ : ∃ n, fuel = n + 1 := ⟨fuel - 1, by omega⟩
      have hread := ((parses_readPlayerContext client).accepts c _ _).mpr
        ⟨message, bytes, unread, hmessage, hsp, hin, rfl⟩
      rw [Runner.playLoop, Prog.bind_eq, runStream, run_bind_of_ok hread]
      simp only [noteEvent, StreamProgram.run, List.flatMap_nil, List.append_nil]
      exact ⟨_, rfl⟩
  | @round client s s' h ctx move message moves hvalid hindex hmove _ ih =>
      obtain ⟨fuel, rfl⟩ : ∃ n, fuel = n + 1 := ⟨fuel - 1, by omega⟩
      obtain ⟨u, v, hu, hv, rfl⟩ := (spells_append_iff _ _ _).mp hsp
      rw [List.append_assoc] at hin
      have hread := ((parses_readPlayerContext client).accepts c _ _).mpr
        ⟨_, u, v ++ unread, .present ctx h hvalid, hu, hin, rfl⟩
      have hlt := (takes_readPlayerContext .little client).length_le hread
      obtain ⟨log, hround⟩ := playLoop_round fuel hread hindex hmove
      obtain ⟨log', hrest⟩ := @ih fuel ⟨_, _, log⟩ v hv rfl (by
        dsimp only at hlt ⊢
        omega)
      refine ⟨log', ?_⟩
      rw [hround, hrest, List.flatMap_cons, List.append_assoc]

/-- **What the loop returns from is a play.** -/
theorem plays_of_run {fuel : ℕ} {client : RemoteProcessClient} {s : σ} {c c' : Stream Event}
    (h : runStream
        (Runner.playLoop .little (Runner.strategies family teamSize) game fuel client s) c
      = (.ok (), c')) :
    ∃ message moves bytes, Plays family teamSize game client s message moves ∧
      Spells message bytes ∧ c.inbound = bytes ++ c'.inbound ∧
      c'.outbound = c.outbound ++ moves.flatMap (moveFrame .little) := by
  induction fuel generalizing client s c with
  | zero => simp [Runner.playLoop] at h
  | succ fuel ih =>
      have hloop := h
      rw [Runner.playLoop, Prog.bind_eq, runStream, run_bind_eq_ok_iff] at h
      obtain ⟨⟨answer, client'⟩, c₁, hread, h⟩ := h
      obtain ⟨message, bytes, rest, hmessage, hsp, hin, rfl⟩ :=
        ((parses_readPlayerContext client).accepts _ _ _).mp hread
      cases answer with
      | none =>
          -- the null pointer ends the loop
          simp only [noteEvent, StreamProgram.run, Prod.mk.injEq, true_and] at h
          subst h
          exact ⟨message, [], bytes, .closing hmessage, hsp, hin, (List.append_nil _).symm⟩
      | some ctx =>
          simp only [noteEvent, Prog.bind_eq, Prog.bind, StreamProgram.run] at h
          split at h
          · simp at h
          · rename_i strategy hat
            obtain ⟨hindex, rfl⟩ := (Runner.at?_strategies_eq_some_iff ..).mp hat
            split at h
            · simp at h
            · rename_i move s' hmove
              obtain ⟨log, hround⟩ := playLoop_round fuel hread hindex hmove
              rw [hround] at hloop
              obtain ⟨message', moves, bytes', hplays, hsp', hin', hout⟩ := ih hloop
              dsimp only at hin' hout
              cases hmessage with
              | present _ h hvalid =>
                  refine ⟨_, move :: moves, bytes ++ bytes', .round hvalid hindex hmove hplays,
                    hsp.append hsp', ?_, ?_⟩
                  · rw [hin, hin', List.append_assoc]
                  · rw [hout, List.flatMap_cons, List.append_assoc]

end Loop

/-! ## The messages before the loop -/

theorem reads_of_parses {α : Type} {Bad : Ending → List UInt8 → Prop} {p : Client Event α}
    {valid : α → Prop} {encode : α → List WireByte} (hp : Parses Bad p (Format.of valid encode))
    (c c' : Stream Event) (a : α) :
    runStream p c = (.ok a, c') ↔ ∃ bytes, valid a ∧ Spells (encode a) bytes ∧
      c.inbound = bytes ++ c'.inbound ∧ c' = { c with inbound := c'.inbound } := by
  rw [hp.accepts]
  constructor
  · intro h
    obtain ⟨_, bytes, rest, ⟨hvalid, rfl⟩, hsp, hin, rfl⟩ := h
    exact ⟨bytes, hvalid, hsp, hin, rfl⟩
  · intro h
    obtain ⟨bytes, hvalid, hsp, hin, hc⟩ := h
    exact ⟨_, bytes, _, ⟨hvalid, rfl⟩, hsp, hin, hc⟩

theorem parses_teamSize : Parses (MessageFault [MessageType.teamSize.toCode])
    (RemoteProcessClient.readTeamSize .little : Client Event Int32)
    (Format.of (fun _ => True) encodeTeamSize) := parses_readTeamSize

theorem parses_game : Parses (fun _ _ => True)
    (RemoteProcessClient.readGameContext .little : Client Event Game)
    (Format.of (fun _ => True) encodeGame) :=
  parses_readGameContext (fun _ _ => trivial) trivial

section Session

variable (token : List UInt8) (family : ℕ → Strategy σ) (s : σ)

theorem run_opening (fuel : ℕ) {teamSize : Int32} {game : Game} {u v : List UInt8}
    (rest : List UInt8)
    (hu : Spells (encodeTeamSize teamSize) u) (hv : Spells (encodeGame game) v) :
    ∃ log, runStream (Runner.run .little token family s fuel) (freshStream (u ++ (v ++ rest)))
      = runStream (Runner.playLoop .little (Runner.strategies family teamSize) game fuel .initial s)
          ⟨rest, tokenFrame .little token ++ versionFrame .little, log⟩ := by
  have hteam := fun c : Stream Event => fun h =>
    (reads_of_parses parses_teamSize c ⟨v ++ rest, c.outbound, c.log⟩ teamSize).mpr
      ⟨u, trivial, hu, h, rfl⟩
  have hgame := fun c : Stream Event => fun h =>
    (reads_of_parses parses_game c ⟨rest, c.outbound, c.log⟩ game).mpr ⟨v, trivial, hv, h, rfl⟩
  rw [Runner.run, Prog.bind_eq, runStream, run_bind_of_ok (writes_writeToken .little token _)]
  simp only [noteEvent, Prog.bind_eq, Prog.bind, run]
  rw [run_bind_of_ok (hteam _ rfl)]
  simp only [run]
  rw [run_bind_of_ok (writes_writeProtocolVersion .little _)]
  simp only [run]
  rw [run_bind_of_ok (hgame _ rfl)]
  exact ⟨_, rfl⟩

/-- A session over all its messages comes to the loop with rounds enough. -/
theorem run_sessionMessage {teamSize : Int32} {game : Game} {message : List WireByte}
    {bytes : List UInt8} (unread : List UInt8)
    (hsp : Spells (sessionMessage teamSize game message) bytes) :
    ∃ z fuel log, Spells message z ∧ (z ++ unread).length < fuel ∧
      runStream (Runner.session .little token family s (bytes ++ unread))
          (freshStream (bytes ++ unread))
        = runStream
            (Runner.playLoop .little (Runner.strategies family teamSize) game fuel .initial s)
            ⟨z ++ unread, tokenFrame .little token ++ versionFrame .little, log⟩ := by
  obtain ⟨w, z, hw, hz, rfl⟩ := (spells_append_iff _ _ _).mp hsp
  obtain ⟨u, v, hu, hv, rfl⟩ := (spells_append_iff _ _ _).mp hw
  have hsplit : u ++ v ++ z ++ unread = u ++ (v ++ (z ++ unread)) := by
    simp only [List.append_assoc]
  obtain ⟨log, hopening⟩ := run_opening token family s ((u ++ v ++ z ++ unread).length + 1)
    (z ++ unread) hu hv
  refine ⟨z, (u ++ v ++ z ++ unread).length + 1, log, hz, ?_, ?_⟩
  · simp only [List.length_append]
    omega
  · rw [Runner.session, hsplit]
    rw [hsplit] at hopening
    exact hopening

theorem opening_of_run {token : List UInt8} {family : ℕ → Strategy σ} {s : σ} {fuel : ℕ}
    {inbound : List UInt8} {c' : Stream Event}
    (h : runStream (Runner.run .little token family s fuel) (freshStream inbound) = (.ok (), c')) :
    ∃ teamSize game u v rest, Spells (encodeTeamSize teamSize) u ∧ Spells (encodeGame game) v ∧
      inbound = u ++ (v ++ rest) := by
  rw [Runner.run, Prog.bind_eq, runStream, run_bind_of_ok (writes_writeToken .little token _)] at h
  simp only [noteEvent, Prog.bind_eq, Prog.bind, run] at h
  rw [run_bind_eq_ok_iff] at h
  obtain ⟨teamSize, c₁, hteam, h⟩ := h
  obtain ⟨u, _, hu, hin, _⟩ := (reads_of_parses parses_teamSize _ _ _).mp hteam
  simp only [run] at h
  rw [run_bind_of_ok (writes_writeProtocolVersion .little _)] at h
  simp only [run] at h
  rw [run_bind_eq_ok_iff] at h
  obtain ⟨game, c₂, hgame, _⟩ := h
  obtain ⟨v, _, hv, hin', _⟩ := (reads_of_parses parses_game _ _ _).mp hgame
  refine ⟨teamSize, game, u, v, c₂.inbound, hu, hv, ?_⟩
  calc inbound = u ++ c₁.inbound := hin
    _ = u ++ (v ++ c₂.inbound) := congrArg (u ++ ·) hin'

end Session

/-- **A session ends normally exactly if it is a play**, and then the client has written its token,
    the protocol version and the moves of the play, and left what comes behind the play. -/
theorem session_ok_iff (token : List UInt8) (family : ℕ → Strategy σ) (s : σ)
    (inbound outbound unread : List UInt8) :
    (∃ log, runStream (Runner.session .little token family s inbound) (freshStream inbound)
        = (.ok (), ⟨unread, outbound, log⟩)) ↔
    ∃ teamSize game message moves bytes,
      Plays family teamSize game .initial s message moves ∧
      Spells (sessionMessage teamSize game message) bytes ∧ inbound = bytes ++ unread ∧
      outbound = writtenBytes .little token moves := by
  constructor
  · rintro ⟨log, h⟩
    obtain ⟨teamSize, game, u, v, rest, hu, hv, rfl⟩ := opening_of_run h
    obtain ⟨log', hopening⟩ := run_opening token family s _ rest hu hv
    rw [Runner.session, hopening] at h
    obtain ⟨message, moves, bytes, hplays, hsp, hin, hout⟩ := plays_of_run h
    dsimp only at hin hout
    refine ⟨teamSize, game, message, moves, u ++ v ++ bytes, hplays, (hu.append hv).append hsp, ?_,
      hout⟩
    rw [hin]
    simp only [List.append_assoc]
  · rintro ⟨teamSize, game, message, moves, bytes, hplays, hsp, rfl, rfl⟩
    obtain ⟨z, fuel, log, hz, hfuel, hopening⟩ :=
      run_sessionMessage token family s unread hsp
    obtain ⟨log', hrun⟩ := hplays.run (c := ⟨z ++ unread, _, log⟩) hz rfl hfuel
    exact ⟨log', hopening.trans hrun⟩

end CodeTroopers
