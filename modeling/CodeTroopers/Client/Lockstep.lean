import CodeTroopers.Client.Fragmentation
import CodeTroopers.Client.Readers
import CodeTroopers.Library.StreamTriple
import Mathlib.Data.List.Forall2

set_option autoImplicit false

/-! # The client answers in lockstep

`Lockstep` is the dialogue the client is to keep, independent of how it does so: which messages may
have gone over the connection at a point between two messages, and exactly which bytes the client
has written by then. `ReadAs` ties the messages read to the inbound stream, frame by frame.
`session_lockstep` says that every point of every session is in this dialogue, and so is its end,
however it comes about.

The proof follows `Runner.run`, one triple for each message (`triple_read`, `triple_write`), with
the invariant `At`; the `while` loop is an induction on its fuel. -/

namespace CodeTroopers

open StreamProgram ByteOrder CheckedVector

/-! ## Frames -/

/-- The bytes `writeInt` writes. -/
def intFrame (host : Order) (n : Int32) : List UInt8 :=
  RemoteProcessClient.fixOrder host RemoteProcessClient.integerSizeBytes
    (store host RemoteProcessClient.integerSizeBytes n.toUInt32.toNat)

def tokenFrame (host : Order) (token : List UInt8) : List UInt8 :=
  [MessageType.authenticationToken.toCode.toUInt8] ++
    (intFrame host (Int32.ofNat token.length) ++ token)

def versionFrame (host : Order) : List UInt8 :=
  [MessageType.protocolVersion.toCode.toUInt8] ++ intFrame host 2

def moveFrame (host : Order) (move : Move) : List UInt8 :=
  [MessageType.moveMessage.toCode.toUInt8] ++ ([1] ++ ([move.action.toCode.toUInt8] ++
    ([move.direction.toCode.toUInt8] ++ (intFrame host move.x ++ intFrame host move.y))))

theorem writes_writeToken (host : Order) (token : List UInt8) :
    Writes (RemoteProcessClient.writeToken host token : Client Event Unit)
      (tokenFrame host token) :=
  (writes_write _).bind ((writes_write _).bind (writes_write _))

theorem writes_writeProtocolVersion (host : Order) :
    Writes (RemoteProcessClient.writeProtocolVersion host : Client Event Unit)
      (versionFrame host) :=
  (writes_write _).bind (writes_write _)

theorem writes_writeMove (host : Order) (move : Move) :
    Writes (RemoteProcessClient.writeMove host move : Client Event Unit) (moveFrame host move) :=
  (writes_write _).bind ((writes_write _).bind ((writes_write _).bind ((writes_write _).bind
    ((writes_write _).bind (writes_write _)))))

/-- What the client has read for an event, and the members it leaves: the bytes are those its reader
    consumes to return it. -/
inductive Event.ReadFrom (host : Order) :
    RemoteProcessClient → Event → List UInt8 → RemoteProcessClient → Prop
  | tokenWritten (client : RemoteProcessClient) : ReadFrom host client .tokenWritten [] client
  | teamSizeRead (client : RemoteProcessClient) {teamSize : Int32} {bytes : List UInt8}
      (h : Reads (RemoteProcessClient.readTeamSize host : Client Event _) teamSize bytes) :
      ReadFrom host client (.teamSizeRead teamSize) bytes client
  | versionWritten (client : RemoteProcessClient) : ReadFrom host client .versionWritten [] client
  | gameRead (client : RemoteProcessClient) {game : Game} {bytes : List UInt8}
      (h : Reads (RemoteProcessClient.readGameContext host : Client Event _) game bytes) :
      ReadFrom host client (.gameRead game) bytes client
  | contextRead {ctx : PlayerContext} {client client' : RemoteProcessClient} {bytes : List UInt8}
      (h : Reads (RemoteProcessClient.readPlayerContext host client : Client Event _)
        (some ctx, client') bytes) : ReadFrom host client (.contextRead ctx) bytes client'
  | moveWritten (client : RemoteProcessClient) (move : Move) :
      ReadFrom host client (.moveWritten move) [] client
  | nullRead {client client' : RemoteProcessClient} {bytes : List UInt8}
      (h : Reads (RemoteProcessClient.readPlayerContext host client : Client Event _)
        (none, client') bytes) : ReadFrom host client .nullRead bytes client'

/-- The frames of a sequence of events, one behind the other, and the members they leave. -/
inductive Consumed (host : Order) : List Event → List UInt8 → RemoteProcessClient → Prop
  | nil : Consumed host [] [] .initial
  | snoc {events : List Event} {event : Event} {used bytes : List UInt8}
      {client client' : RemoteProcessClient} (before : Consumed host events used client)
      (h : Event.ReadFrom host client event bytes client') :
      Consumed host (events ++ [event]) (used ++ bytes) client'

/-- The inbound stream is made of the frames of the events and what is unread. -/
def ReadAs (host : Order) (inbound : List UInt8) (events : List Event) (unread : List UInt8) :
    Prop :=
  ∃ used client, Consumed host events used client ∧ inbound = used ++ unread

/-! ## The dialogue -/

variable {σ : Type}

/-- Whole rounds: contexts and the moves that answer them, each by the strategy of the acting
    trooper, with the events and the process they leave. -/
inductive Rounds (family : ℕ → Strategy σ) (teamSize : Int32) (game : Game) (s₀ : σ) :
    List PlayerContext → List Move → List Event → σ → Prop
  | nil : Rounds family teamSize game s₀ [] [] [] s₀
  | round {ctxs : List PlayerContext} {moves : List Move} {events : List Event} {s s' : σ}
      {ctx : PlayerContext} {move : Move}
      (before : Rounds family teamSize game s₀ ctxs moves events s)
      (hindex : Runner.HasStrategy teamSize ctx.trooper)
      (hmove : family ctx.trooper.teammateIndex.toInt.toNat ctx.trooper ctx.world game s
        = some (move, s')) :
      Rounds family teamSize game s₀ (ctxs ++ [ctx]) (moves ++ [move])
        (events ++ [.contextRead ctx] ++ [.moveWritten move]) s'

/-- The messages before the first context. -/
def openingEvents (teamSize : Int32) (game : Game) : List Event :=
  [.tokenWritten, .teamSizeRead teamSize, .versionWritten, .gameRead game]

/-- The bytes written when a number of moves has been made. -/
def writtenBytes (host : Order) (token : List UInt8) (moves : List Move) : List UInt8 :=
  tokenFrame host token ++ versionFrame host ++ moves.flatMap (moveFrame host)

/-- **The dialogue**: the messages up to a point between two messages, and the bytes the client has
    written at that point. -/
inductive Lockstep (host : Order) (token : List UInt8) (family : ℕ → Strategy σ) (s₀ : σ) :
    List Event → List UInt8 → Prop
  | authenticated : Lockstep host token family s₀ [.tokenWritten] (tokenFrame host token)
  | sized (teamSize : Int32) :
      Lockstep host token family s₀ [.tokenWritten, .teamSizeRead teamSize] (tokenFrame host token)
  | greeted (teamSize : Int32) :
      Lockstep host token family s₀ [.tokenWritten, .teamSizeRead teamSize, .versionWritten]
        (tokenFrame host token ++ versionFrame host)
  /-- As many moves as contexts. -/
  | waiting {teamSize : Int32} {game : Game} {ctxs : List PlayerContext} {moves : List Move}
      {events : List Event} {s : σ} (h : Rounds family teamSize game s₀ ctxs moves events s) :
      Lockstep host token family s₀ (openingEvents teamSize game ++ events)
        (writtenBytes host token moves)
  /-- One move less than contexts. -/
  | acting {teamSize : Int32} {game : Game} {ctxs : List PlayerContext} {moves : List Move}
      {events : List Event} {s : σ} (h : Rounds family teamSize game s₀ ctxs moves events s)
      (ctx : PlayerContext) :
      Lockstep host token family s₀ (openingEvents teamSize game ++ events ++ [.contextRead ctx])
        (writtenBytes host token moves)
  /-- The null pointer has been returned: as many moves as contexts. -/
  | closed {teamSize : Int32} {game : Game} {ctxs : List PlayerContext} {moves : List Move}
      {events : List Event} {s : σ} (h : Rounds family teamSize game s₀ ctxs moves events s) :
      Lockstep host token family s₀ (openingEvents teamSize game ++ events ++ [.nullRead])
        (writtenBytes host token moves)

theorem Rounds.answers {family : ℕ → Strategy σ} {teamSize : Int32} {game : Game} {s₀ s : σ}
    {ctxs : List PlayerContext} {moves : List Move} {events : List Event}
    (h : Rounds family teamSize game s₀ ctxs moves events s) :
    List.Forall₂ (fun ctx move => Runner.HasStrategy teamSize ctx.trooper ∧ ∃ s s',
      family ctx.trooper.teammateIndex.toInt.toNat ctx.trooper ctx.world game s = some (move, s'))
      ctxs moves := by
  induction h with
  | nil => exact List.Forall₂.nil
  | round _ hindex hmove ih =>
      exact List.rel_append ih (List.Forall₂.cons ⟨hindex, _, _, hmove⟩ List.Forall₂.nil)

/-- What the client writes for an event. -/
def Event.frame (host : Order) (token : List UInt8) : Event → List UInt8
  | .tokenWritten => tokenFrame host token
  | .versionWritten => versionFrame host
  | .moveWritten move => moveFrame host move
  | _ => []

theorem Rounds.flatMap_frame {family : ℕ → Strategy σ} {teamSize : Int32} {game : Game}
    {s₀ s : σ} {ctxs : List PlayerContext} {moves : List Move} {events : List Event}
    (h : Rounds family teamSize game s₀ ctxs moves events s) (host : Order) (token : List UInt8) :
    events.flatMap (Event.frame host token) = moves.flatMap (moveFrame host) := by
  induction h with
  | nil => rfl
  | round _ _ _ ih =>
      simp only [List.flatMap_append, ih, List.flatMap_singleton, Event.frame, List.append_nil]

theorem Lockstep.written_eq {host : Order} {token : List UInt8} {family : ℕ → Strategy σ} {s₀ : σ}
    {events : List Event} {written : List UInt8}
    (h : Lockstep host token family s₀ events written) :
    written = events.flatMap (Event.frame host token) := by
  cases h with
  | authenticated => simp [Event.frame]
  | sized teamSize => simp [Event.frame]
  | greeted teamSize => simp [Event.frame]
  | waiting hrounds =>
      simp [writtenBytes, openingEvents, hrounds.flatMap_frame host token, Event.frame]
  | acting hrounds ctx =>
      simp [writtenBytes, openingEvents, hrounds.flatMap_frame host token, Event.frame]
  | closed hrounds =>
      simp [writtenBytes, openingEvents, hrounds.flatMap_frame host token, Event.frame]

/-! ## The invariant of a session -/

section Session

variable {host : Order} {token : List UInt8} {family : ℕ → Strategy σ} {s₀ : σ}
  {inbound : List UInt8}

variable (host token family s₀ inbound) in
/-- Every point noted so far is in the dialogue. -/
def Marked (log : List (Mark Event)) : Prop :=
  ∀ before mark after, log = before ++ mark :: after →
    Lockstep host token family s₀ ((before ++ [mark]).map Mark.event) mark.written ∧
      ReadAs host inbound ((before ++ [mark]).map Mark.event) mark.unread

variable (host token family s₀ inbound) in
/-- The client is between two messages: those noted so far, those read or written so far (one more
    while it is not yet noted), the bytes written and the members. -/
structure At (noted done : List Event) (written : List UInt8) (client : RemoteProcessClient)
    (c : Stream Event) : Prop where
  marked : Marked host token family s₀ inbound c.log
  noted_eq : c.log.map Mark.event = noted
  written_eq : c.outbound = written
  consumed : ∃ used, Consumed host done used client ∧ inbound = used ++ c.inbound

variable (family s₀) in
/-- The strategy of the last context has not answered. -/
def Unanswered (events : List Event) : Prop :=
  ∃ teamSize game ctxs moves played s ctx, Rounds family teamSize game s₀ ctxs moves played s ∧
    events = openingEvents teamSize game ++ played ++ [.contextRead ctx] ∧
    family ctx.trooper.teammateIndex.toInt.toNat ctx.trooper ctx.world game s = none

variable (host token family s₀ inbound) in
/-- How a session ends early: in the dialogue, with a part of a frame read. -/
structure Ended (e : Ending) (c : Stream Event) : Prop where
  marked : Marked host token family s₀ inbound c.log
  lockstep : Lockstep host token family s₀ (c.log.map Mark.event) c.outbound
  consumed : ∃ part, ReadAs host inbound (c.log.map Mark.event) (part ++ c.inbound)
  index : e = .undefined → ∃ teamSize ctx, .teamSizeRead teamSize ∈ c.log.map Mark.event ∧
    .contextRead ctx ∈ c.log.map Mark.event ∧ ¬ Runner.HasStrategy teamSize ctx.trooper
  answer : e = .noAnswer → Unanswered family s₀ (c.log.map Mark.event)

theorem Marked.snoc {log : List (Mark Event)} {mark : Mark Event}
    (h : Marked host token family s₀ inbound log)
    (hlockstep : Lockstep host token family s₀ ((log ++ [mark]).map Mark.event) mark.written)
    (hread : ReadAs host inbound ((log ++ [mark]).map Mark.event) mark.unread) :
    Marked host token family s₀ inbound (log ++ [mark]) := by
  intro before m after heq
  -- the point is the new one, or one of those before it
  rcases List.eq_nil_or_concat after with rfl | ⟨after', last, rfl⟩
  · obtain ⟨rfl, hm⟩ := List.append_inj' heq rfl
    obtain rfl : mark = m := by simpa using hm
    exact ⟨hlockstep, hread⟩
  · rw [List.concat_eq_append, ← List.cons_append, ← List.append_assoc] at heq
    exact h before m after' (List.append_inj' heq rfl).1

theorem At.ended {events : List Event} {written : List UInt8} {client : RemoteProcessClient}
    {c : Stream Event} (h : At host token family s₀ inbound events events written client c)
    (hlockstep : Lockstep host token family s₀ events written) {part rest : List UInt8}
    (hin : c.inbound = part ++ rest) {e : Ending}
    (hindex : e = .undefined → ∃ teamSize ctx, .teamSizeRead teamSize ∈ events ∧
      .contextRead ctx ∈ events ∧ ¬ Runner.HasStrategy teamSize ctx.trooper)
    (hanswer : e = .noAnswer → Unanswered family s₀ events) :
    Ended host token family s₀ inbound e { c with inbound := rest } := by
  obtain ⟨hmarked, rfl, rfl, used, hconsumed, hused⟩ := h
  exact ⟨hmarked, hlockstep, ⟨part, used, client, hconsumed, by rw [hused, hin]⟩, hindex, hanswer⟩

theorem triple_note {events : List Event} {event : Event} {written : List UInt8}
    {client : RemoteProcessClient}
    (hlockstep : Lockstep host token family s₀ (events ++ [event]) written) :
    Triple (At host token family s₀ inbound events (events ++ [event]) written client)
      (noteEvent event)
      (fun _ => At host token family s₀ inbound (events ++ [event]) (events ++ [event]) written
        client) (Ended host token family s₀ inbound) := by
  refine Triple.note ?_
  intro c h
  obtain ⟨used, hconsumed, hin⟩ := h.consumed
  have hevents : (c.log ++ [Mark.mk event c.inbound c.outbound]).map Mark.event
      = events ++ [event] := by
    rw [List.map_append, h.noted_eq]
    rfl
  refine ⟨h.marked.snoc ?_ ?_, hevents, h.written_eq, used, hconsumed, hin⟩
  · rw [hevents, h.written_eq]
    exact hlockstep
  · rw [hevents]
    exact ⟨used, client, hconsumed, hin⟩

theorem triple_read {α : Type} {p : Client Event α} (hp : ReadsOnly p) {events : List Event}
    {written : List UInt8} {client : RemoteProcessClient} (event : α → Event)
    (after : α → RemoteProcessClient)
    (hread : ∀ a bytes, Reads p a bytes →
      Event.ReadFrom host client (event a) bytes (after a))
    (hlockstep : Lockstep host token family s₀ events written) :
    Triple (At host token family s₀ inbound events events written client) p
      (fun a => At host token family s₀ inbound events (events ++ [event a]) written (after a))
      (Ended host token family s₀ inbound) := by
  refine Triple.reads hp ?_ ?_
  · intro c a bytes rest h hreads hin
    obtain ⟨used, hconsumed, hused⟩ := h.consumed
    refine ⟨h.marked, h.noted_eq, h.written_eq, used ++ bytes,
      hconsumed.snoc (hread a bytes hreads), ?_⟩
    rw [hused, hin, List.append_assoc]
  · intro c e part rest h hin hending
    -- a reader gives up by `exit` or by an uncaught exception
    have hnot : e ≠ .undefined ∧ e ≠ .noAnswer := by
      constructor <;>
      · rintro rfl
        rcases hending with hexit | hover | hshort
        · exact hexit.elim
        · exact absurd hover (by decide)
        · exact absurd hshort (by decide)
    exact h.ended hlockstep hin (fun he => absurd he hnot.1) fun he => absurd he hnot.2

theorem triple_write {p : Client Event Unit} {frame : List UInt8} (hp : Writes p frame)
    {events : List Event} {event : Event} {written : List UInt8} {client : RemoteProcessClient}
    (hread : Event.ReadFrom host client event [] client) :
    Triple (At host token family s₀ inbound events events written client) p
      (fun _ => At host token family s₀ inbound events (events ++ [event]) (written ++ frame)
        client) (Ended host token family s₀ inbound) := by
  refine Triple.writes hp ?_
  intro c h
  obtain ⟨used, hconsumed, hin⟩ := h.consumed
  refine ⟨h.marked, h.noted_eq, by rw [h.written_eq], used ++ [], hconsumed.snoc hread, ?_⟩
  rw [List.append_nil]
  exact hin

variable (host token family s₀ inbound) in
/-- How a session returns: behind the null pointer. -/
def Returned (c : Stream Event) : Prop :=
  ∃ events written client,
    At host token family s₀ inbound (events ++ [.nullRead]) (events ++ [.nullRead]) written client
        c ∧
      Lockstep host token family s₀ (events ++ [.nullRead]) written

/-- The event of a call of `readPlayerContext`. -/
def contextEvent : Option PlayerContext × RemoteProcessClient → Event
  | (none, _) => .nullRead
  | (some ctx, _) => .contextRead ctx

theorem readFrom_contextEvent (client : RemoteProcessClient)
    (b : Option PlayerContext × RemoteProcessClient) (bytes : List UInt8)
    (h : Reads (RemoteProcessClient.readPlayerContext host client : Client Event _) b bytes) :
    Event.ReadFrom host client (contextEvent b) bytes b.2 := by
  obtain ⟨_ | ctx, client'⟩ := b
  · exact .nullRead h
  · exact .contextRead h

theorem writtenBytes_append (moves : List Move) (move : Move) :
    writtenBytes host token (moves ++ [move])
      = writtenBytes host token moves ++ moveFrame host move := by
  simp only [writtenBytes, List.flatMap_append, List.flatMap_singleton, List.append_assoc]

/-- The `while` loop: every round adds a context and the move that answers it. -/
theorem triple_playLoop {teamSize : Int32} {game : Game} (fuel : ℕ) (client : RemoteProcessClient)
    {ctxs : List PlayerContext} {moves : List Move} {events : List Event} {s : σ}
    (hrounds : Rounds family teamSize game s₀ ctxs moves events s) :
    Triple (At host token family s₀ inbound (openingEvents teamSize game ++ events)
        (openingEvents teamSize game ++ events) (writtenBytes host token moves) client)
      (Runner.playLoop host (Runner.strategies family teamSize) game fuel client s)
      (fun _ => Returned host token family s₀ inbound)
      (Ended host token family s₀ inbound) := by
  induction fuel generalizing client ctxs moves events s with
  | zero =>
      -- out of fuel: a point of the dialogue all the same
      exact Triple.exit fun c h => h.ended (.waiting hrounds) (List.nil_append _).symm (by simp)
        (by simp)
  | succ fuel ih =>
      rw [Runner.playLoop]
      refine Triple.bind (triple_read (onlyReads_readPlayerContext host client) contextEvent
        Prod.snd (readFrom_contextEvent client) (.waiting hrounds)) ?_
      intro h
      rcases h with ⟨_ | ctx, client'⟩
      · -- the null pointer ends the loop
        refine (triple_note (.closed hrounds)).mono ?_
        intro _ c h
        exact ⟨_, _, _, h, .closed hrounds⟩
      · refine Triple.bind (triple_note (.acting hrounds ctx)) fun _ => ?_
        dsimp only
        generalize hat : at? (Runner.strategies family teamSize)
          ctx.trooper.teammateIndex.toInt = access
        cases access with
        | none =>
            have hnot : ¬ Runner.HasStrategy teamSize ctx.trooper := fun hindex => by
              have hsome := (Runner.at?_strategies_eq_some_iff family teamSize ctx.trooper _).mpr
                ⟨hindex, rfl⟩
              rw [hat] at hsome
              exact absurd hsome (by simp)
            refine Triple.exit fun c h => h.ended (.acting hrounds ctx)
              (List.nil_append _).symm (fun _ => ⟨teamSize, ctx, ?_, ?_, hnot⟩) (by simp)
            · simp [openingEvents]
            · simp [contextEvent]
        | some strategy =>
            obtain ⟨hindex, rfl⟩ := (Runner.at?_strategies_eq_some_iff ..).mp hat
            dsimp only
            generalize hmove : family ctx.trooper.teammateIndex.toInt.toNat ctx.trooper ctx.world
              game s = answer
            cases answer with
            | none =>
                exact Triple.exit fun c h => h.ended (.acting hrounds ctx)
                  (List.nil_append _).symm (by simp) fun _ =>
                    ⟨_, _, _, _, _, _, ctx, hrounds, rfl, hmove⟩
            | some answer =>
                -- the move is written and noted, and the next round begins
                obtain ⟨move, s'⟩ := answer
                have hround := Rounds.round hrounds hindex hmove
                have hnext := ih client' hround
                have hlockstep : Lockstep host token family s₀ (openingEvents teamSize game ++
                    (events ++ [.contextRead ctx] ++ [.moveWritten move]))
                    (writtenBytes host token (moves ++ [move])) := .waiting hround
                rw [writtenBytes_append, ← List.append_assoc, ← List.append_assoc]
                  at hnext hlockstep
                exact Triple.bind (triple_write (writes_writeMove host move)
                  (.moveWritten client' move)) fun _ => Triple.bind (triple_note hlockstep)
                    fun _ => hnext

/-- The messages before the loop, and the loop. -/
theorem triple_run (fuel : ℕ) :
    Triple (At host token family s₀ inbound [] [] [] .initial)
      (Runner.run host token family s₀ fuel)
      (fun _ => Returned host token family s₀ inbound)
      (Ended host token family s₀ inbound) := by
  refine Triple.bind (triple_write (writes_writeToken host token) (.tokenWritten _)) fun _ => ?_
  refine Triple.bind (triple_note .authenticated) fun _ => ?_
  refine Triple.bind (triple_read (onlyReads_readTeamSize host) .teamSizeRead (fun _ => .initial)
    (fun _ _ h => .teamSizeRead _ h) .authenticated) fun teamSize => ?_
  refine Triple.bind (triple_note (.sized teamSize)) fun _ => ?_
  refine Triple.bind (triple_write (writes_writeProtocolVersion host) (.versionWritten _))
    fun _ => ?_
  refine Triple.bind (triple_note (.greeted teamSize)) fun _ => ?_
  refine Triple.bind (triple_read (onlyReads_readGameContext host) .gameRead (fun _ => .initial)
    (fun _ _ h => .gameRead _ h) (.greeted teamSize)) fun game => ?_
  have hwritten : writtenBytes host token [] = tokenFrame host token ++ versionFrame host :=
    List.append_nil _
  have hready : Lockstep host token family s₀ (openingEvents teamSize game)
      (tokenFrame host token ++ versionFrame host) := by
    rw [← hwritten, ← List.append_nil (openingEvents teamSize game)]
    exact .waiting .nil
  refine Triple.bind (triple_note hready) fun _ => ?_
  have hnone : Rounds family teamSize game s₀ [] [] [] s₀ := .nil
  have hloop : Triple (At host token family s₀ inbound (openingEvents teamSize game ++ [])
      (openingEvents teamSize game ++ []) (writtenBytes host token []) .initial) _ _ _ :=
    triple_playLoop fuel .initial hnone
  rw [hwritten, List.append_nil] at hloop
  exact hloop

theorem ne_nil_of_reads {client : RemoteProcessClient}
    {b : Option PlayerContext × RemoteProcessClient} {bytes : List UInt8}
    (h : Reads (RemoteProcessClient.readPlayerContext host client : Client Event _) b bytes) :
    bytes ≠ [] := by
  rintro rfl
  -- on an empty stream the message type is missing
  have hrun := h ⟨[], [], []⟩ [] rfl
  have hshort : runStream (RemoteProcessClient.readPlayerContext host client : Client Event _)
      ⟨[], [], []⟩ = (.error (.exit 10012), ⟨[], [], []⟩) := rfl
  rw [hshort] at hrun
  simp at hrun

/-- A part of a session that consumes at least `k` bytes, and does not end for lack of rounds. -/
structure Takes {α : Type} (k : ℕ) (p : Client Event α) : Prop where
  length_le : ∀ {c c' : Stream Event} {a : α}, runStream p c = (.ok a, c') →
    c'.inbound.length + k ≤ c.inbound.length
  ending_ne : ∀ {c c' : Stream Event} {e : Ending}, runStream p c = (.error e, c') →
    e ≠ .outOfFuel

theorem takes_of_readsOnly {α : Type} {p : Client Event α} (hp : ReadsOnly p) : Takes 0 p where
  length_le {c c' a} h := by
    obtain ⟨used, hin⟩ := suffix_of_run hp c
    rw [h] at hin
    rw [hin, List.length_append]
    exact Nat.le_add_left _ _
  ending_ne h := by
    rintro rfl
    rcases ending_of_run hp h with hexit | hover | hshort
    · exact hexit.elim
    · exact absurd hover (by decide)
    · exact absurd hshort (by decide)

theorem takes_of_writes {p : Client Event Unit} {frame : List UInt8} (hp : Writes p frame) :
    Takes 0 p where
  length_le h := by
    rw [hp _] at h
    cases h
    exact le_refl _
  ending_ne h := by
    rw [hp _] at h
    cases h

theorem takes_noteEvent (event : Event) : Takes 0 (noteEvent event) where
  length_le h := by
    cases h
    exact le_refl _
  ending_ne h := by cases h

/-- A context, or the end of the session, takes something off the stream. -/
theorem takes_readPlayerContext (host : Order) (client : RemoteProcessClient) :
    Takes 1 (RemoteProcessClient.readPlayerContext host client) where
  length_le h := by
    obtain ⟨bytes, hin, hreads⟩ := reads_of_run (onlyReads_readPlayerContext host client) h
    have hpos := List.length_pos_of_ne_nil (ne_nil_of_reads hreads)
    rw [hin, List.length_append]
    omega
  ending_ne := (takes_of_readsOnly (onlyReads_readPlayerContext host client)).ending_ne

theorem Takes.triple {α : Type} {k : ℕ} {p : Client Event α} (hp : Takes k p) (n : ℕ) :
    Triple (fun c => c.inbound.length < n + k) p (fun _ c => c.inbound.length < n)
      (fun e _ => e ≠ .outOfFuel) := by
  intro c hlt
  refine ⟨fun a c' h => ?_, fun e c' h => hp.ending_ne h⟩
  have hle := hp.length_le h
  omega

/-- The loop has rounds enough for the stream: each round consumes a part of it. -/
theorem triple_playLoop_length (strategies : List (Strategy σ)) (game : Game) (fuel : ℕ)
    (client : RemoteProcessClient) (s : σ) :
    Triple (fun c => c.inbound.length < fuel) (Runner.playLoop host strategies game fuel client s)
      (fun _ _ => True) (fun e _ => e ≠ .outOfFuel) := by
  induction fuel generalizing client s with
  | zero => exact Triple.exit fun c hlt => absurd hlt (Nat.not_lt_zero _)
  | succ fuel ih =>
      rw [Runner.playLoop]
      refine Triple.bind ((takes_readPlayerContext host client).triple fuel) ?_
      intro h
      rcases h with ⟨_ | ctx, client'⟩
      · exact Triple.note fun _ _ => trivial
      · refine Triple.bind ((takes_noteEvent _).triple fuel) fun _ => ?_
        dsimp only
        split
        · exact Triple.exit fun _ _ => by simp
        · split
          · exact Triple.exit fun _ _ => by simp
          · exact Triple.bind ((takes_of_writes (writes_writeMove host _)).triple fuel) fun _ =>
              Triple.bind ((takes_noteEvent _).triple fuel) fun _ => ih client' _

theorem triple_run_length (fuel : ℕ) :
    Triple (fun c => c.inbound.length < fuel) (Runner.run host token family s₀ fuel)
      (fun _ _ => True) (fun e _ => e ≠ .outOfFuel) := by
  refine Triple.bind ((takes_of_writes (writes_writeToken host token)).triple fuel) fun _ => ?_
  refine Triple.bind ((takes_noteEvent _).triple fuel) fun _ => ?_
  refine Triple.bind ((takes_of_readsOnly (onlyReads_readTeamSize host)).triple fuel)
    fun teamSize => ?_
  refine Triple.bind ((takes_noteEvent _).triple fuel) fun _ => ?_
  refine Triple.bind ((takes_of_writes (writes_writeProtocolVersion host)).triple fuel)
    fun _ => ?_
  refine Triple.bind ((takes_noteEvent _).triple fuel) fun _ => ?_
  refine Triple.bind ((takes_of_readsOnly (onlyReads_readGameContext host)).triple fuel)
    fun game => ?_
  refine Triple.bind ((takes_noteEvent _).triple fuel) fun _ => ?_
  exact triple_playLoop_length _ _ fuel _ _

theorem at_freshStream :
    At host token family s₀ inbound [] [] [] .initial (freshStream inbound) where
  marked before mark after h := by simp [freshStream] at h
  noted_eq := rfl
  written_eq := rfl
  consumed := ⟨[], .nil, rfl⟩

/-- A session returns behind the null pointer, or ends early. -/
theorem session_ends (host : Order) (token : List UInt8) (family : ℕ → Strategy σ) (s₀ : σ)
    (inbound : List UInt8) :
    let r := runStream (Runner.session host token family s₀ inbound) (freshStream inbound)
    (r.1 = .ok () ∧ Returned host token family s₀ inbound r.2) ∨
      ∃ e, r.1 = .error e ∧ e ≠ .outOfFuel ∧ Ended host token family s₀ inbound e r.2 := by
  intro r
  have htriple : Triple (At host token family s₀ inbound [] [] [] .initial)
      (Runner.session host token family s₀ inbound)
      (fun _ => Returned host token family s₀ inbound)
      (Ended host token family s₀ inbound) := triple_run _
  have hlength : Triple (fun c => c.inbound.length < inbound.length + 1)
      (Runner.session host token family s₀ inbound) (fun _ _ => True)
      (fun e _ => e ≠ .outOfFuel) := triple_run_length _
  have hrun := htriple _ at_freshStream
  have hr : runStream (Runner.session host token family s₀ inbound) (freshStream inbound) = r := rfl
  rcases r with ⟨e | _, c⟩
  · exact Or.inr ⟨e, rfl, (hlength _ (Nat.lt_succ_self _)).2 e c hr, hrun.2 e c hr⟩
  · exact Or.inl ⟨rfl, hrun.1 _ c hr⟩

theorem lockstep_session (host : Order) (token : List UInt8) (family : ℕ → Strategy σ) (s₀ : σ)
    (inbound : List UInt8) :
    let r := runStream (Runner.session host token family s₀ inbound) (freshStream inbound)
    Lockstep host token family s₀ (r.2.log.map Mark.event) r.2.outbound := by
  intro r
  rcases session_ends host token family s₀ inbound with
    ⟨_, events, written, client, h, hlockstep⟩ | ⟨e, _, _, hended⟩
  · rw [h.noted_eq, h.written_eq]
    exact hlockstep
  · exact hended.lockstep

end Session

/-- **Lockstep of the client**: for every inbound stream and family of strategies, every point
    between two messages of a session is in the dialogue, with the frames of its messages read, and
    so is its end: nothing is written behind the last message noted. The rounds of the loop are
    enough, and no access to the strategies is undefined if every acting trooper has one. -/
theorem session_lockstep (host : Order) (token : List UInt8) (family : ℕ → Strategy σ) (s₀ : σ)
    (inbound : List UInt8) :
    let r := runStream (Runner.session host token family s₀ inbound) (freshStream inbound)
    (∀ before mark after, r.2.log = before ++ mark :: after →
      Lockstep host token family s₀ ((before ++ [mark]).map Mark.event) mark.written ∧
        ReadAs host inbound ((before ++ [mark]).map Mark.event) mark.unread) ∧
    Lockstep host token family s₀ (r.2.log.map Mark.event) r.2.outbound ∧
    r.2.outbound = (r.2.log.map Mark.event).flatMap (Event.frame host token) ∧
    (∃ part, ReadAs host inbound (r.2.log.map Mark.event) (part ++ r.2.inbound)) ∧
    (r.1 = .ok () → ∃ events, r.2.log.map Mark.event = events ++ [.nullRead]) ∧
    r.1 ≠ .error .outOfFuel ∧
    ((∀ teamSize ctx, .teamSizeRead teamSize ∈ r.2.log.map Mark.event →
      .contextRead ctx ∈ r.2.log.map Mark.event → Runner.HasStrategy teamSize ctx.trooper) →
      r.1 ≠ .error .undefined) := by
  intro r
  have hend := lockstep_session host token family s₀ inbound
  refine ⟨?_, hend, hend.written_eq, ?_⟩
  · rcases session_ends host token family s₀ inbound with
      ⟨_, _, _, _, h, _⟩ | ⟨_, _, _, hended⟩
    · exact h.marked
    · exact hended.marked
  rcases session_ends host token family s₀ inbound with
    ⟨hok, events, written, client, h, _⟩ | ⟨e, herror, hfuel, hended⟩
  · obtain ⟨used, hconsumed, hin⟩ := h.consumed
    have hread : ReadAs host inbound (r.2.log.map Mark.event) ([] ++ r.2.inbound) := by
      rw [h.noted_eq]
      exact ⟨used, client, hconsumed, hin⟩
    have hnot : ∀ e, r.1 ≠ .error e := by
      intro e herror
      rw [hok] at herror
      simp at herror
    exact ⟨⟨[], hread⟩, fun _ => ⟨events, h.noted_eq⟩, hnot _, fun _ => hnot _⟩
  · have hr : r.1 = .error e := herror
    rw [hr]
    refine ⟨hended.consumed, by simp, by simpa using hfuel, ?_⟩
    intro hall hundefined
    obtain ⟨teamSize, ctx, hteam, hctx, hnot⟩ := hended.index (by simpa using hundefined)
    exact hnot (hall teamSize ctx hteam hctx)

end CodeTroopers
