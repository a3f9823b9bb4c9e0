import CodeTroopers.Client.GamePlayed
import CodeTroopers.Library.NotedRuns
import CodeTroopers.Strategy.IntProcess

set_option autoImplicit false

/-! # A game in the integers of the machine

`main` calls the strategies in the middle of its dialogue. If two families of strategies answer
alike as long as the contexts are of some kind (`AnswerAlike`), then a run of the program with one
of them, all of whose contexts are of that kind, is a run with the other one (`run_session_congr`).
The contexts are those the program has noted; the network, the calls of the socket and the bytes
that come in are arbitrary.

`MyStrategy.intMain` is `main` with the strategies in the integers of the machine. By
`process_exact` they answer alike on moderate moves of one map with the team connected, and so does
the program (`main_exact`). -/

namespace CodeTroopers

open StreamProgram ByteOrder CheckedVector WireFormat

/-! ## The socket keeps the notes -/

namespace CSimpleSocket

variable {ν : Type} (kernel : Kernel)

theorem log_receiveLoop (nMaxBytes fuel : ℕ) (p : Process ν) :
    (receiveLoop kernel nMaxBytes fuel p).2.log = p.log := by
  induction fuel generalizing p with
  | zero => rfl
  | succ fuel ih =>
      have hrecv : (recv kernel p.nBytesReceived nMaxBytes p).2.log = p.log := by
        unfold recv
        cases kernel.recv p.receives with
        | fails errno => rfl
        | kills => rfl
        | transfers byteCount =>
            dsimp only
            split <;> rfl
      rw [receiveLoop]
      generalize recv kernel p.nBytesReceived nMaxBytes p = r at hrecv
      rcases r with ⟨e | byteCount, p'⟩
      · exact hrecv
      · dsimp only
        split_ifs
        · exact (ih _).trans hrecv
        · exact hrecv

theorem log_receive (fuel nMaxBytes : ℕ) (p : Process ν) :
    (receive kernel fuel nMaxBytes p).2.log = p.log := by
  have hallocate : ∀ p : Process ν, (allocate nMaxBytes p).2.log = p.log := by
    intro p
    unfold allocate
    dsimp only
    split_ifs <;> rfl
  have hreturn : ∀ r : Except Ending Unit × Process ν, (returnReceived r).2.log = r.2.log := by
    rintro ⟨e | _, p⟩
    · rfl
    · unfold returnReceived
      dsimp only
      split_ifs <;> rfl
  unfold receive
  dsimp only
  split_ifs
  · rfl
  · have hbuffer := hallocate { p with nBytesReceived := 0 }
    generalize allocate nMaxBytes { p with nBytesReceived := 0 } = r at hbuffer
    rcases r with ⟨e | _, p'⟩
    · exact hbuffer
    · exact (hreturn _).trans ((log_receiveLoop kernel nMaxBytes fuel _).trans hbuffer)

theorem log_readLoop (fuel byteCount offset : ℕ) (bytes : List UInt8) (p : Process ν) :
    (readLoop kernel fuel byteCount offset bytes p).2.log = p.log := by
  fun_induction readLoop kernel fuel byteCount offset bytes p with
  | case1 offset bytes p hlt e p' hreceive =>
      have hlog := log_receive kernel fuel (byteCount - offset) p
      rw [hreceive] at hlog
      exact hlog
  | case2 offset bytes p hlt received p' hreceive hpos data ih =>
      have hlog := log_receive kernel fuel (byteCount - offset) p
      rw [hreceive] at hlog
      exact ih.trans hlog
  | case3 offset bytes p hlt received p' hreceive hpos =>
      have hlog := log_receive kernel fuel (byteCount - offset) p
      rw [hreceive] at hlog
      exact hlog
  | case4 => rfl

theorem log_sendLoop (pBuf : List UInt8) (fuel : ℕ) (p : Process ν) :
    (sendLoop kernel pBuf fuel p).2.log = p.log := by
  induction fuel generalizing p with
  | zero => rfl
  | succ fuel ih =>
      have hcall : (sendCall kernel pBuf p).2.log = p.log := by
        unfold sendCall
        cases kernel.send p.sends <;> rfl
      rw [sendLoop]
      generalize sendCall kernel pBuf p = r at hcall
      rcases r with ⟨e | byteCount, p'⟩
      · exact hcall
      · dsimp only
        split_ifs
        · exact (ih _).trans hcall
        · exact hcall

theorem log_send (fuel : ℕ) (pBuf : List UInt8) (p : Process ν) :
    (send kernel fuel pBuf p).2.log = p.log := by
  unfold send
  dsimp only
  split_ifs
  · have hloop := log_sendLoop kernel pBuf fuel
      { setSocketError .socketSuccess p with nBytesSent := 0 }
    generalize sendLoop kernel pBuf fuel { setSocketError .socketSuccess p with nBytesSent := 0 }
      = r at hloop
    rcases r with ⟨e | _, p'⟩ <;> exact hloop
  · rfl

theorem log_writeLoop (fuel : ℕ) (bytes : List UInt8) (offset : ℕ) (p : Process ν) :
    (writeLoop kernel fuel bytes offset p).2.log = p.log := by
  fun_induction writeLoop kernel fuel bytes offset p with
  | case1 offset p hlt e p' hsend =>
      have hlog := log_send kernel fuel (bytes.drop offset) p
      rw [hsend] at hlog
      exact hlog
  | case2 offset p hlt sent p' hsend hpos ih =>
      have hlog := log_send kernel fuel (bytes.drop offset) p
      rw [hsend] at hlog
      exact ih.trans hlog
  | case3 offset p hlt sent p' hsend hpos =>
      have hlog := log_send kernel fuel (bytes.drop offset) p
      rw [hsend] at hlog
      exact hlog
  | case4 => rfl

/-- The events a process has noted. -/
def noted (p : Process ν) : List ν := p.log.map Mark.event

/-- **The socket keeps the notes**, whatever its calls do. -/
theorem logs_handler (fuel : ℕ) :
    Logs (handler kernel fuel : Handler Ending ν (Process ν)) noted where
  read n p := by
    have hlog := log_readLoop kernel fuel n 0 (List.replicate n 0) p
    simp only [noted, handler, readBytes]
    generalize readLoop kernel fuel n 0 (List.replicate n 0) p = r at hlog
    rcases r with ⟨e | ⟨bytes, offset⟩, p'⟩
    · exact congrArg _ hlog
    · dsimp only
      split_ifs <;> exact congrArg _ hlog
  write bytes p := by
    have hlog := log_writeLoop kernel fuel bytes 0 p
    simp only [noted, handler, writeBytes]
    generalize writeLoop kernel fuel bytes 0 p = r at hlog
    rcases r with ⟨e | offset, p'⟩
    · exact congrArg _ hlog
    · dsimp only
      split_ifs <;> exact congrArg _ hlog
  note event p := by simp [noted, handler]

end CSimpleSocket

/-! ## Strategies that answer alike -/

/-- The contexts that have been read. -/
def Event.contexts (events : List Event) : List PlayerContext := events.filterMap Event.context?

/-- At most `count` contexts have been read, all of the given kind. -/
structure Within (kind : PlayerContext → Prop) (count : ℕ) (events : List Event) : Prop where
  kind : ∀ ctx, .contextRead ctx ∈ events → kind ctx
  count : (Event.contexts events).length ≤ count

theorem length_contexts_mono {events later : List Event} (h : events <+: later) :
    (Event.contexts events).length ≤ (Event.contexts later).length :=
  (h.filterMap _).length_le

section AnswerAlike

variable {σ τ : Type}

/-- In its first `count` calls, the second family answers contexts of a kind as the first one does.
    `I n` is what the first one keeps over `n` of them. -/
structure AnswerAlike (family family' : ℕ → Strategy σ) (I : ℕ → σ → Prop) (game : Game)
    (kind : PlayerContext → Prop) (count : ℕ) : Prop where
  eq : ∀ {n : ℕ} {s : σ} {ctx : PlayerContext}, I n s → n < count → kind ctx → ∀ i,
    family' i ctx.trooper ctx.world game s = family i ctx.trooper ctx.world game s
  kept : ∀ {n : ℕ} {s s' : σ} {ctx : PlayerContext} {i : ℕ} {move : Move}, I n s → n < count →
    kind ctx → family i ctx.trooper ctx.world game s = some (move, s') → I (n + 1) s'

theorem Runner.at?_strategies (family : ℕ → Strategy σ) (teamSize : Int32) (i : Int) :
    at? (strategies family teamSize) i
      = (at? (List.range teamSize.toInt.toNat) i).map family := by
  rw [strategies, at?, at?]
  split_ifs
  · rw [List.getElem?_map]
  · rfl

variable {hd : Handler Ending Event τ} {notes : τ → List Event} (hl : Logs hd notes)
  {family family' : ℕ → Strategy σ} {I : ℕ → σ → Prop} {kind : Game → PlayerContext → Prop}
  {count : ℕ} {host : Order}

include hl

/-- The loops play alike, by induction on their rounds. -/
theorem run_playLoop_congr {game : Game} {teamSize : Int32}
    (halike : AnswerAlike family family' I game (kind game) count) (fuel : ℕ)
    (client : RemoteProcessClient) {n : ℕ} {s : σ} {t : τ} (hI : I n s)
    (hn : n ≤ (Event.contexts (notes t)).length)
    (hend : Within (kind game) count (notes (run hd
      (Runner.playLoop host (Runner.strategies family teamSize) game fuel client s) t).2)) :
    run hd (Runner.playLoop host (Runner.strategies family' teamSize) game fuel client s) t
      = run hd (Runner.playLoop host (Runner.strategies family teamSize) game fuel client s) t := by
  induction fuel generalizing client n s t with
  | zero => rfl
  | succ fuel ih =>
      refine run_bind_congr (P := fun t => Within (kind game) count (notes t)) hend ?_
      rintro ⟨_ | ctx, client'⟩ t₁ hread hend
      · rfl
      · -- the context has been noted before the strategy is called
        have hnoted : notes (hd.note (.contextRead ctx) t₁) = notes t₁ ++ [.contextRead ctx] :=
          hl.note _ _
        have hcount : n + 1 ≤ (Event.contexts (notes (hd.note (.contextRead ctx) t₁))).length := by
          have hread' := hl.prefix_run (RemoteProcessClient.readPlayerContext host client) t
          rw [hread] at hread'
          have hmono := length_contexts_mono hread'
          rw [hnoted, Event.contexts, List.filterMap_append, List.length_append]
          exact Nat.add_le_add (hn.trans hmono) (le_refl 1)
        simp only [noteEvent, Prog.bind_eq, Prog.bind, run, Runner.at?_strategies] at hend ⊢
        generalize hd.note (.contextRead ctx) t₁ = t₂ at hnoted hcount hend ⊢
        cases hindex : at? (List.range teamSize.toInt.toNat) ctx.trooper.teammateIndex.toInt with
        | none => rfl
        | some i =>
            simp only [hindex, Option.map_some] at hend ⊢
            have hlater : ∀ p : Client Event Unit, Within (kind game) count
                (notes (run hd p t₂).2) → kind game ctx ∧ n < count := fun p hend => by
              have hnotes := hl.prefix_run p t₂
              refine ⟨hend.kind ctx (hnotes.subset ?_), ?_⟩
              · rw [hnoted]
                simp
              · have hmono := length_contexts_mono hnotes
                have hle := hend.count
                omega
            obtain ⟨hkind, hlt⟩ := hlater _ hend
            rw [halike.eq hI hlt hkind]
            cases hmove : family i ctx.trooper ctx.world game s with
            | none => rfl
            | some answer =>
                obtain ⟨move, s'⟩ := answer
                simp only [hmove] at hend ⊢
                refine run_bind_congr (P := fun t => Within (kind game) count (notes t)) hend ?_
                intro _ t₃ hwrite hend
                simp only [run] at hend ⊢
                refine ih client' (halike.kept hI hlt hkind hmove) (hcount.trans ?_) hend
                have hwritten := hl.prefix_run (RemoteProcessClient.writeMove host move) t₂
                rw [hwrite] at hwritten
                refine length_contexts_mono (hwritten.trans ?_)
                rw [hl.note]
                exact List.prefix_append ..

/-- **Sessions with strategies that answer alike** are the same, as far as the contexts go that the
    first one has read. -/
theorem run_session_congr (token : List UInt8) {s : σ} (hI : I 0 s)
    (halike : ∀ game, AnswerAlike family family' I game (kind game) count) (inbound : List UInt8)
    (t : τ)
    (hend : ∀ game,
      .gameRead game ∈ notes (run hd (Runner.session host token family s inbound) t).2 →
      Within (kind game) count
        (notes (run hd (Runner.session host token family s inbound) t).2)) :
    run hd (Runner.session host token family' s inbound) t
      = run hd (Runner.session host token family s inbound) t := by
  let P : τ → Prop := fun t => ∀ game, .gameRead game ∈ notes t → Within (kind game) count (notes t)
  refine run_bind_congr (P := P) hend fun _ t₁ _ hend => ?_
  simp only [noteEvent, Prog.bind_eq, Prog.bind, run] at hend ⊢
  refine run_bind_congr (P := P) hend fun teamSize t₂ _ hend => ?_
  simp only [run] at hend ⊢
  refine run_bind_congr (P := P) hend fun _ t₃ _ hend => ?_
  simp only [run] at hend ⊢
  refine run_bind_congr (P := P) hend fun game t₄ _ hend => ?_
  simp only [run] at hend ⊢
  refine run_playLoop_congr hl (halike game) _ _ hI (Nat.zero_le _) (hend game ?_)
  refine (hl.prefix_run _ _).subset ?_
  rw [hl.note]
  simp

end AnswerAlike

/-! ## The program -/

/-- The strategies of the source in the integers of the machine. -/
def MyStrategy.intFamily (rand : ℕ → ℕ) (fuel : ℕ) : ℕ → Strategy Globals :=
  fun _ self world game => MyStrategy.intMove rand fuel ⟨self, world, game⟩

/-- `main` with these strategies. -/
def MyStrategy.intMain (network : Network) (kernel : Kernel) (fuel : ℕ)
    (arguments : List (List UInt8)) (errno : Errno) (inbound : List UInt8) (rand : ℕ → ℕ)
    (rounds : ℕ) : Except Ending Unit × Process Event :=
  Runner.main .little network kernel fuel (MyStrategy.intFamily rand rounds) Globals.initial
    arguments (CSimpleSocket.construct errno inbound)

section Main

variable {b : BoardSize} {cells : Cells}

/-- A context of a moderate move on the map with its team connected. -/
structure PlayerContext.Regular (b : BoardSize) (cells : Cells) (game : Game)
    (ctx : PlayerContext) : Prop where
  playsOn : (ctx.turn game).PlaysOn b cells
  moderate : (ctx.turn game).Moderate
  connected : (ctx.turn game).Connected

theorem answerAlike_intFamily (b : BoardSize) (cells : Cells) (rand : ℕ → ℕ) (rounds : ℕ)
    (game : Game) : AnswerAlike (MyStrategy.family rand rounds) (MyStrategy.intFamily rand rounds)
      (fun n g => g.OnMap b cells ∧ g.moveIndex + 1 = n) game
      (PlayerContext.Regular b cells game) (2 ^ 31) where
  eq := by
    rintro n g ctx ⟨hg, hindex⟩ hlt h _
    exact hg.intMove_eq h.playsOn h.moderate h.connected (by omega) (by omega) rounds
  kept := by
    rintro n g g' ctx _ move ⟨hg, hindex⟩ _ h hmove
    obtain ⟨hkeeps, _, _, hnext⟩ := hg.kept h.playsOn hmove
    refine ⟨Or.inr hkeeps, ?_⟩
    push_cast
    omega

open CSimpleSocket

/-- **The program does not overflow.** Whatever the network, the calls of the socket and the server
    do: a run of the program that has read at most `2 ^ 31` contexts, all of them of moderate moves
    on one map with the team connected, is a run of the program in the integers of the machine. -/
theorem main_exact (b : BoardSize) (cells : Cells) (network : Network) (kernel : Kernel) (fuel : ℕ)
    (arguments : List (List UInt8)) (errno : Errno) (inbound : List UInt8) (rand : ℕ → ℕ)
    (rounds : ℕ) :
    let r := MyStrategy.main network kernel fuel arguments errno inbound rand rounds
    (∀ game, .gameRead game ∈ noted r.2 →
      Within (PlayerContext.Regular b cells game) (2 ^ 31) (noted r.2)) →
    MyStrategy.intMain network kernel fuel arguments errno inbound rand rounds = r := by
  intro r hregular
  have hr : MyStrategy.main network kernel fuel arguments errno inbound rand rounds = r := rfl
  rw [MyStrategy.main, Runner.main] at hr
  rw [MyStrategy.intMain, Runner.main]
  generalize RemoteProcessClient.connect .little network (Runner.parameters arguments).host
    (atoi (Runner.parameters arguments).port) (construct errno inbound) = o at hr ⊢
  rcases o with ⟨e | _, p⟩
  · exact hr
  · dsimp only at hr ⊢
    have hnoted : ∀ o : Except Ending Unit × Process Event,
        noted (Runner.leave network o).2 = noted o.2 := by
      rintro ⟨e | _, p⟩
      · rfl
      · exact congrArg (List.map Mark.event) (untouched_close network p).log_eq
    rw [← hr, hnoted] at hregular
    rw [← hr]
    exact congrArg _ (run_session_congr (logs_handler kernel fuel) _ ⟨Or.inl rfl, rfl⟩
      (answerAlike_intFamily b cells rand rounds) _ p hregular)

end Main

/-! ## The game in the yard -/

/-- An event of the session in the yard. -/
def yardEvent : Event → Bool
  | .gameRead game => game = yardGame
  | .contextRead ctx => ctx ∈ [yardContext, commanderContext]
  | _ => true

theorem yardContexts_regular : ∀ ctx ∈ [yardContext, commanderContext],
    ctx.Regular ⟨4, 3⟩ yardCells yardGame :=
  List.forall_mem_cons.mpr ⟨⟨yardTurn_playsOn, yardTurn_moderate, yardTurn_connected⟩,
    List.forall_mem_singleton.mpr
      ⟨commanderTurn_playsOn, commanderTurn_moderate, commanderTurn_connected⟩⟩

theorem main_exact_yard :
    MyStrategy.intMain localNetwork packetKernel 1 [] .success yardSession (fun _ => 8) 1
      = MyStrategy.main localNetwork packetKernel 1 [] .success yardSession (fun _ => 8) 1 := by
  have hrun : ((CSimpleSocket.noted (MyStrategy.main localNetwork packetKernel 1 [] .success
        yardSession (fun _ => 8) 1).2).all yardEvent &&
      decide ((Event.contexts (CSimpleSocket.noted (MyStrategy.main localNetwork packetKernel 1 []
        .success yardSession (fun _ => 8) 1).2)).length = 2)) = true := by decide +kernel
  generalize hevents : CSimpleSocket.noted (MyStrategy.main localNetwork packetKernel 1 [] .success
    yardSession (fun _ => 8) 1).2 = events at hrun
  rw [Bool.and_eq_true, decide_eq_true_eq] at hrun
  obtain ⟨hall, hcount⟩ := hrun
  rw [List.all_eq_true] at hall
  refine main_exact ⟨4, 3⟩ yardCells localNetwork packetKernel 1 [] .success yardSession
    (fun _ => 8) 1 fun game hgame => ?_
  rw [hevents] at hgame ⊢
  obtain rfl : game = yardGame := of_decide_eq_true (hall _ hgame)
  exact ⟨fun ctx hctx => yardContexts_regular ctx (of_decide_eq_true (hall _ hctx)),
    hcount.le.trans (by decide)⟩

end CodeTroopers
