import CodeTroopers.Client.Grammar
import CodeTroopers.Client.Runner

set_option autoImplicit false

/-! # Fragmentation does not matter

A whole session over a socket, whatever numbers of bytes its calls transfer. By `handler_follows`
the loops of `readBytes` and `writeBytes` do to the socket what reading and writing do to a plain
stream, so by `run_follows` every session is the session over the stream, or one that a failing
`Send` has cut off. Two schedules without such a failure are both compared with the stream. -/

namespace CodeTroopers

open StreamProgram ByteOrder WireFormat

variable {σ : Type}

/-- A session with as many rounds of the main loop as the stream can feed. -/
def Runner.session (host : Order) (token : List UInt8) (family : ℕ → Strategy σ) (s : σ)
    (inbound : List UInt8) : Client Event Unit :=
  Runner.run host token family s (inbound.length + 1)

/-- A stream of which nothing has been read. -/
def freshStream (inbound : List UInt8) : Stream Event := ⟨inbound, [], []⟩

/-- A socket that has not been used. -/
def freshSocket (inbound : List UInt8) : Socket Event := ⟨inbound, [], [], 0, 0⟩

/-- No `Send` of the schedule fails. -/
def Schedule.Sends (sched : Schedule) : Prop := ∀ i, (sched.send i).isSome

namespace Socket

theorem agrees_fresh (sched : Schedule) (inbound : List UInt8) :
    Agrees sched (freshSocket inbound) (freshStream inbound) :=
  ⟨rfl, rfl, rfl, fun i hi => absurd hi (Nat.not_lt_zero i)⟩

/-- A run over the socket is the run over the stream, or a `Send` has cut it off. -/
theorem run_agrees_or_failed {α : Type} (sched : Schedule) (p : Client Event α)
    (inbound : List UInt8) :
    Alike (Agrees sched) (Failed sched) (run (handler sched) p (freshSocket inbound))
      (runStream p (freshStream inbound)) :=
  run_follows (handler_follows sched) p _ _ (agrees_fresh sched inbound)

theorem run_agrees {α : Type} {sched : Schedule} (hsends : sched.Sends) (p : Client Event α)
    (inbound : List UInt8) :
    (run (handler sched) p (freshSocket inbound)).1 = (runStream p (freshStream inbound)).1 ∧
      Agrees sched (run (handler sched) p (freshSocket inbound)).2
        (runStream p (freshStream inbound)).2 := by
  rcases run_agrees_or_failed sched p inbound with h | ⟨_, _, hfailed⟩
  · exact h
  · obtain ⟨i, _, hi⟩ := hfailed.unsent
    have hsome := hsends i
    rw [hi] at hsome
    exact absurd hsome (by decide)

/-- A failing `Send` ends the run, with a part of the outbound stream on the wire. -/
theorem run_failed {α : Type} {sched : Schedule} (p : Client Event α) (inbound : List UInt8)
    {i : ℕ} (hi : i < (run (handler sched) p (freshSocket inbound)).2.sends)
    (hsend : sched.send i = none) :
    (run (handler sched) p (freshSocket inbound)).1 = .error (.exit 10013) ∧
      (run (handler sched) p (freshSocket inbound)).2.wire
        <+: (runStream p (freshStream inbound)).2.outbound := by
  rcases run_agrees_or_failed sched p inbound with ⟨_, hagrees⟩ | ⟨e, hending, hfailed⟩
  · have hsome := hagrees.sent i hi
    rw [hsend] at hsome
    exact absurd hsome (by decide)
  · exact ⟨hfailed.ending_eq ▸ hending, hfailed.wire_prefix⟩

end Socket

/-- **Fragmentation does not matter**: for every inbound stream and family of strategies,
    * over every schedule without a failing `Send`, a session does what it does over the stream: it
      ends as that does, with its messages noted at its points, its bytes on the wire, and its bytes
      left, so that two schedules make no difference;
    * `readBytes` returns exactly the next bytes, or exits with 10012 precisely if there are fewer;
    * a failing `Send` makes the client exit with 10013 and leaves a part of the outbound stream on
      the wire. -/
theorem session_schedules (host : Order) (token : List UInt8) (family : ℕ → Strategy σ) (s : σ)
    (inbound : List UInt8) :
    let stream := runStream (Runner.session host token family s inbound) (freshStream inbound)
    (∀ sched : Schedule, sched.Sends →
      let r := run (Socket.handler sched) (Runner.session host token family s inbound)
        (freshSocket inbound)
      r.1 = stream.1 ∧ r.2.log = stream.2.log ∧ r.2.wire = stream.2.outbound ∧
        r.2.inbound = stream.2.inbound) ∧
    (∀ sched sched' : Schedule, sched.Sends → sched'.Sends →
      let r := run (Socket.handler sched) (Runner.session host token family s inbound)
        (freshSocket inbound)
      let r' := run (Socket.handler sched') (Runner.session host token family s inbound)
        (freshSocket inbound)
      r.1 = r'.1 ∧ r.2.log = r'.2.log ∧ r.2.wire = r'.2.wire ∧ r.2.inbound = r'.2.inbound) ∧
    (∀ (sched : Schedule) (byteCount : ℕ) (t : Socket Event), byteCount < 2 ^ 31 →
      (Socket.readBytes sched byteCount t).1 = (if byteCount ≤ t.inbound.length
        then .ok (t.inbound.take byteCount) else .error (.exit 10012)) ∧
      (Socket.readBytes sched byteCount t).2.inbound = t.inbound.drop byteCount) ∧
    ∀ (sched : Schedule) (i : ℕ),
      let r := run (Socket.handler sched) (Runner.session host token family s inbound)
        (freshSocket inbound)
      i < r.2.sends → sched.send i = none →
        r.1 = .error (.exit 10013) ∧ r.2.wire <+: stream.2.outbound := by
  intro stream
  refine ⟨?_, ?_, ?_, ?_⟩
  · intro sched hsends
    obtain ⟨hending, h⟩ := Socket.run_agrees hsends (Runner.session host token family s inbound)
      inbound
    exact ⟨hending, h.log_eq, h.wire_eq, h.inbound_eq⟩
  · intro sched sched' hsends hsends'
    obtain ⟨hending, h⟩ := Socket.run_agrees hsends (Runner.session host token family s inbound)
      inbound
    obtain ⟨hending', h'⟩ := Socket.run_agrees hsends'
      (Runner.session host token family s inbound) inbound
    exact ⟨hending.trans hending'.symm, h.log_eq.trans h'.log_eq.symm,
      h.wire_eq.trans h'.wire_eq.symm, h.inbound_eq.trans h'.inbound_eq.symm⟩
  · intro sched byteCount t hcount
    obtain ⟨receives, hread⟩ := Socket.readBytes_eq sched byteCount hcount t
    rw [hread]
    split_ifs with hlen
    · exact ⟨rfl, rfl⟩
    · exact ⟨rfl, (List.drop_of_length_le (by omega)).symm⟩
  · intro sched i r hi hsend
    exact Socket.run_failed _ inbound hi hsend

/-- Every call transfers one byte. -/
def bytewise : Schedule := ⟨fun _ => 1, fun _ => some 1⟩

/-- Five bytes are sent, and no more. -/
def brokenSends : Schedule := ⟨fun _ => 1, fun i => if i < 5 then some 1 else none⟩

/-- A team of one, a game, one context and the end of the game. -/
def twoCellSession : List UInt8 :=
  canonical (encodeTeamSize 1 ++ (encodeGame default ++
    (encodePlayerContext .initial twoCellHeader twoCellContext ++
      encodeCode MessageType.gameOver.toCode)))

/-- A strategy that answers every context with the same move. -/
def lieDown : ℕ → Strategy Unit := fun _ _ _ _ _ =>
  some ({ action := .lowerStance, direction := .currentPoint, x := 1, y := -2 }, ())

theorem session_schedules_bytewise :
    let session := Runner.session .little [65, 66] lieDown () twoCellSession
    let r := run (Socket.handler bytewise) session (freshSocket twoCellSession)
    let broken := run (Socket.handler brokenSends) session (freshSocket twoCellSession)
    (r.1 = .ok () ∧ r.2.inbound = [] ∧
      r.2.wire =
        [2, 2, 0, 0, 0, 65, 66, 4, 2, 0, 0, 0, 7, 1, 4, 0, 1, 0, 0, 0, 254, 255, 255, 255]) ∧
    (broken.1 = .error (.exit 10013) ∧ broken.2.wire <+: r.2.wire) := by
  intro session r broken
  obtain ⟨hstream, _, _, hbroken⟩ :=
    session_schedules .little [65, 66] lieDown () twoCellSession
  obtain ⟨hend, _, hwire, hin⟩ := hstream bytewise fun _ => rfl
  have hsends : 5 < broken.2.sends := by decide +kernel
  refine ⟨⟨?_, ?_, ?_⟩, ?_⟩
  · rw [hend]
    decide +kernel
  · rw [hin]
    decide +kernel
  · rw [hwire]
    decide +kernel
  · rw [hwire]
    exact hbroken brokenSends 5 hsends rfl

end CodeTroopers
