import CodeTroopers.Library.FailingHandler
import Mathlib.Data.List.Basic
import Mathlib.Algebra.Order.Group.Nat

set_option autoImplicit false

/-! # The socket and its loops

`readBytes` and `writeBytes` of `RemoteProcessClient.cpp` over a socket that may transfer fewer
bytes than it is asked for. Of `CActiveSocket` only what these two functions use is modelled:
`Receive(n)` hands over between 1 and `n` of the next inbound bytes, or none at their end; an error
is an end too, since `readBytes` does not ask again. `Send` puts a prefix of at least one byte on
the wire, or fails. A `Schedule` fixes how many bytes each call transfers. `Receive` takes an
`int32` and allocates a buffer of that size first, so that a request of `2^31` bytes or more ends in
an uncaught exception.

A program of the client (`Prog`) runs over such a socket by `Socket.handler`. `handler_follows` says
that the loops do to the socket what reading and writing do to a plain byte stream, unless a `Send`
fails, which ends the run with a part of the outbound stream on the wire. -/

namespace CodeTroopers

open StreamProgram

/-- How a run of the client ends, other than by returning. -/
inductive Ending where
  /-- `exit(code)`. -/
  | exit (code : ℕ)
  /-- An uncaught exception. -/
  | abort
  /-- An access outside the vector of strategies. -/
  | undefined
  /-- The strategy does not return a move. -/
  | noAnswer
  /-- A signal has killed the process. -/
  | killed
  /-- The bound on the rounds of the main loop was too small. -/
  | outOfFuel
deriving DecidableEq

/-- The run ends by `exit`. -/
def Ending.IsExit : Ending → Prop
  | .exit _ => True
  | _ => False

instance : ConnectionEnds Ending where
  limit := 2 ^ 31
  overlong := .abort
  short := .exit 10012
  unsent := .exit 10013

/-- The number of bytes the `i`-th call of `Receive` and of `Send` transfers, cut to what the call
    can transfer; `none` is a failing `Send`. -/
structure Schedule where
  receive : ℕ → ℕ
  send : ℕ → Option ℕ

/-- The state of the socket: what is still to arrive, what is on the wire, the notes of the run, and
    the numbers of calls so far. -/
structure Socket (ν : Type) where
  inbound : List UInt8
  wire : List UInt8
  log : List (Mark ν)
  receives : ℕ
  sends : ℕ

namespace Socket

variable {ν : Type} (sched : Schedule)

/-- `Receive(byteCount)`: the bytes received. -/
def receive (byteCount : ℕ) (s : Socket ν) : List UInt8 × Socket ν :=
  let amount := min (max 1 (sched.receive s.receives)) byteCount
  (s.inbound.take amount,
    { s with inbound := s.inbound.drop amount, receives := s.receives + 1 })

/-- `Send(bytes)`: the number of bytes sent. -/
def send (bytes : List UInt8) (s : Socket ν) : ℕ × Socket ν :=
  match sched.send s.sends with
  | none => (0, { s with sends := s.sends + 1 })
  | some n =>
    let amount := min (max 1 n) bytes.length
    (amount, { s with wire := s.wire ++ bytes.take amount, sends := s.sends + 1 })

/-- `memcpy(&bytes[offset], data, data.size())`. -/
def copyTo (bytes : List UInt8) (offset : ℕ) (data : List UInt8) : List UInt8 :=
  bytes.take offset ++ data ++ bytes.drop (offset + data.length)

/-- The loop of `readBytes`: the buffer and the offset it ends with. -/
def readLoop (byteCount offset : ℕ) (bytes : List UInt8) (s : Socket ν) :
    (List UInt8 × ℕ) × Socket ν :=
  if offset < byteCount then
    match receive sched (byteCount - offset) s with
    | (data, s) =>
      if 0 < data.length then
        readLoop byteCount (offset + data.length) (copyTo bytes offset data) s
      else ((bytes, offset), s)
  else ((bytes, offset), s)
termination_by byteCount - offset

/-- `readBytes(byteCount)`. -/
def readBytes (byteCount : ℕ) (s : Socket ν) : Except Ending (List UInt8) × Socket ν :=
  if 2 ^ 31 ≤ byteCount then (.error .abort, s)
  else
    match readLoop sched byteCount 0 (List.replicate byteCount 0) s with
    | ((bytes, offset), s) =>
      if offset ≠ byteCount then (.error (.exit 10012), s) else (.ok bytes, s)

/-- The loop of `writeBytes`: the offset it ends with. -/
def writeLoop (bytes : List UInt8) (offset : ℕ) (s : Socket ν) : ℕ × Socket ν :=
  if offset < bytes.length then
    match send sched (bytes.drop offset) s with
    | (sent, s) => if 0 < sent then writeLoop bytes (offset + sent) s else (offset, s)
  else (offset, s)
termination_by bytes.length - offset

/-- `writeBytes(bytes)`. -/
def writeBytes (bytes : List UInt8) (s : Socket ν) : Except Ending Unit × Socket ν :=
  match writeLoop sched bytes 0 s with
  | (offset, s) => if offset ≠ bytes.length then (.error (.exit 10013), s) else (.ok (), s)

/-- A program of the client over the socket. -/
def handler : Handler Ending ν (Socket ν) where
  read byteCount s := readBytes sched byteCount s
  write bytes s := writeBytes sched bytes s
  note event s := { s with log := s.log ++ [⟨event, s.inbound, s.wire⟩] }

/-! ## What the loops transfer -/

theorem length_copyTo {bytes : List UInt8} {offset : ℕ} {data : List UInt8}
    (h : offset + data.length ≤ bytes.length) :
    (copyTo bytes offset data).length = bytes.length := by
  simp only [copyTo, List.length_append, List.length_take, List.length_drop]
  omega

theorem copyTo_copyTo {bytes : List UInt8} {offset : ℕ} {data rest : List UInt8}
    (h : offset + data.length ≤ bytes.length) :
    copyTo (copyTo bytes offset data) (offset + data.length) rest
      = copyTo bytes offset (data ++ rest) := by
  have htake : (bytes.take offset ++ data).length = offset + data.length := by
    simp only [List.length_append, List.length_take]
    omega
  simp only [copyTo]
  rw [List.take_left' htake, ← List.drop_drop, List.drop_left' htake, List.drop_drop]
  simp only [List.append_assoc, List.length_append, Nat.add_assoc]

theorem take_append_missing (l : List UInt8) {amount n : ℕ} (h : amount ≤ n) :
    l.take amount ++ (l.drop amount).take (n - (l.take amount).length) = l.take n ∧
      (l.drop amount).drop (n - (l.take amount).length) = l.drop n := by
  by_cases hl : amount ≤ l.length
  · have htake : (l.take amount).length = amount := by simp [hl]
    rw [htake, ← List.take_add, List.drop_drop, Nat.add_sub_cancel' h]
    exact ⟨rfl, rfl⟩
  · have hshort : l.length ≤ amount := by omega
    simp only [List.take_of_length_le hshort, List.drop_of_length_le hshort, List.take_nil,
      List.drop_nil, List.append_nil, List.take_of_length_le (hshort.trans h),
      List.drop_of_length_le (hshort.trans h), and_self]

/-- The loop of `readBytes` fills the buffer with what there is, up to its size. -/
theorem readLoop_eq (byteCount offset : ℕ) (bytes : List UInt8) (s : Socket ν)
    (hlen : bytes.length = byteCount) (hoff : offset ≤ byteCount) :
    ∃ receives, readLoop sched byteCount offset bytes s =
      ((copyTo bytes offset (s.inbound.take (byteCount - offset)),
          offset + (s.inbound.take (byteCount - offset)).length),
        { s with inbound := s.inbound.drop (byteCount - offset), receives := receives }) := by
  -- the induction is on the number of bytes still missing
  generalize hmissing : byteCount - offset = missing
  induction missing using Nat.strongRecOn generalizing offset bytes s with
  | _ missing ih =>
      rw [readLoop]
      by_cases hlt : offset < byteCount
      · rw [if_pos hlt, hmissing]
        generalize hamount : min (max 1 (sched.receive s.receives)) missing = amount
        have hpos : 0 < amount := by omega
        have hle : amount ≤ missing := by omega
        simp only [receive, hamount]
        by_cases hdata : 0 < (s.inbound.take amount).length
        · rw [if_pos hdata]
          have hgot : (s.inbound.take amount).length ≤ amount := by simp
          obtain ⟨receives, hloop⟩ := ih (missing - (s.inbound.take amount).length) (by omega)
            (offset + (s.inbound.take amount).length) (copyTo bytes offset (s.inbound.take amount))
            { s with inbound := s.inbound.drop amount, receives := s.receives + 1 }
            ((length_copyTo (by omega)).trans hlen) (by omega) (by omega)
          refine ⟨receives, ?_⟩
          obtain ⟨htake, hdrop⟩ := take_append_missing s.inbound hle
          rw [hloop, copyTo_copyTo (by omega), htake, Nat.add_assoc, ← List.length_append, htake]
          dsimp only
          rw [hdrop]
        · -- nothing received: the stream is at its end
          have hnil : s.inbound = [] := by
            rw [List.length_take] at hdata
            exact List.eq_nil_of_length_eq_zero (by omega)
          rw [if_neg hdata]
          exact ⟨s.receives + 1, by simp [hnil, copyTo]⟩
      · rw [if_neg hlt]
        have hzero : missing = 0 := by omega
        subst hzero
        exact ⟨s.receives, by simp [copyTo]⟩

/-- `readBytes` returns exactly the next bytes; it ends the run precisely if there are fewer. -/
theorem readBytes_eq (byteCount : ℕ) (hcount : byteCount < 2 ^ 31) (s : Socket ν) :
    ∃ receives, readBytes sched byteCount s =
      if byteCount ≤ s.inbound.length then
        (.ok (s.inbound.take byteCount),
          { s with inbound := s.inbound.drop byteCount, receives := receives })
      else (.error (.exit 10012), { s with inbound := [], receives := receives }) := by
  obtain ⟨receives, hloop⟩ := readLoop_eq sched byteCount 0 (List.replicate byteCount 0) s
    (List.length_replicate ..) (Nat.zero_le _)
  refine ⟨receives, ?_⟩
  rw [readBytes, if_neg (Nat.not_le.mpr hcount), hloop]
  simp only [Nat.sub_zero, Nat.zero_add, List.length_take]
  by_cases hlen : byteCount ≤ s.inbound.length
  · have hfull : min byteCount s.inbound.length = byteCount := Nat.min_eq_left hlen
    rw [if_pos hlen, if_neg (by omega)]
    simp [copyTo, hfull]
  · rw [if_neg hlen, if_pos (by omega), List.drop_of_length_le (by omega)]

/-- The loop of `writeBytes` puts the rest of the buffer on the wire, or a part of it if a `Send`
    fails. -/
theorem writeLoop_eq (bytes : List UInt8) (offset : ℕ) (s : Socket ν)
    (hoff : offset ≤ bytes.length) :
    ∃ end_ sends, writeLoop sched bytes offset s =
        (end_, { s with wire := s.wire ++ (bytes.drop offset).take (end_ - offset),
                        sends := sends }) ∧
      s.sends ≤ sends ∧ offset ≤ end_ ∧
      ((end_ = bytes.length ∧ ∀ i, s.sends ≤ i → i < sends → (sched.send i).isSome) ∨
        (end_ < bytes.length ∧ ∃ i, i < sends ∧ sched.send i = none)) := by
  -- the induction is on the number of bytes still unsent
  generalize hmissing : bytes.length - offset = missing
  induction missing using Nat.strongRecOn generalizing offset s with
  | _ missing ih =>
      rw [writeLoop]
      by_cases hlt : offset < bytes.length
      · rw [if_pos hlt]
        cases hsend : sched.send s.sends with
        | none =>
            -- the loop breaks with the offset it has reached
            simp only [send, hsend]
            refine ⟨offset, s.sends + 1, by simp, by omega, le_refl _,
              Or.inr ⟨hlt, s.sends, by omega, ?_⟩⟩
            exact hsend
        | some n =>
            simp only [send, hsend, List.length_drop]
            generalize hamount : min (max 1 n) (bytes.length - offset) = amount
            have hpos : 0 < amount := by omega
            have hle : amount ≤ bytes.length - offset := by omega
            rw [if_pos hpos]
            obtain ⟨end_, sends, hloop, hsends, hend, hcase⟩ := ih (missing - amount) (by omega)
              (offset + amount) { s with wire := s.wire ++ (bytes.drop offset).take amount,
                                         sends := s.sends + 1 } (by omega) (by omega)
            refine ⟨end_, sends, ?_, by dsimp only at hsends; omega, by omega, ?_⟩
            · have hsplit : end_ - offset = amount + (end_ - (offset + amount)) := by omega
              rw [hloop, hsplit, List.take_add, List.drop_drop, List.append_assoc]
            · refine hcase.imp (fun ⟨hfull, hall⟩ => ⟨hfull, fun i h₁ h₂ => ?_⟩) id
              rcases Nat.eq_or_lt_of_le h₁ with rfl | h₁
              · rw [hsend]
                rfl
              · exact hall i h₁ h₂
      · rw [if_neg hlt]
        have hfull : offset = bytes.length := by omega
        exact ⟨offset, s.sends, by simp, le_refl _, le_refl _,
          Or.inl ⟨hfull, fun i h₁ h₂ => by omega⟩⟩

/-! ## Schedules do not matter -/

/-- The socket and the stream agree, and no `Send` has failed. -/
structure Agrees (s : Socket ν) (c : Stream ν) : Prop where
  inbound_eq : s.inbound = c.inbound
  wire_eq : s.wire = c.outbound
  log_eq : s.log = c.log
  sent : ∀ i < s.sends, (sched.send i).isSome

/-- A `Send` has failed, and the wire holds a part of the outbound stream. -/
structure Failed (e : Ending) (s : Socket ν) (c : Stream ν) : Prop where
  ending_eq : e = .exit 10013
  wire_prefix : s.wire <+: c.outbound
  log_prefix : s.log <+: c.log
  unsent : ∃ i < s.sends, sched.send i = none

/-- **The loops of `readBytes` and `writeBytes`** do what reading and writing a stream does, until a
    `Send` fails. -/
theorem handler_follows :
    Follows (handler sched) (streamHandler : Handler Ending ν (Stream ν)) (Agrees sched)
      (Failed sched) where
  read n s c h := by
    -- the allocation fails before anything is received
    by_cases hn : 2 ^ 31 ≤ n
    · simp only [handler, readBytes, streamHandler, ConnectionEnds.limit, if_pos hn]
      exact Or.inl ⟨rfl, h⟩
    · obtain ⟨receives, hread⟩ := readBytes_eq sched n (by omega) s
      simp only [handler, hread, streamHandler, ConnectionEnds.limit, if_neg hn, h.inbound_eq]
      split_ifs with hlen
      · exact Or.inl ⟨rfl, rfl, h.wire_eq, h.log_eq, h.sent⟩
      · exact Or.inl ⟨rfl, rfl, h.wire_eq, h.log_eq, h.sent⟩
  write bytes s c h := by
    obtain ⟨end_, sends, hloop, hsends, _, hcase⟩ := writeLoop_eq sched bytes 0 s (Nat.zero_le _)
    simp only [handler, writeBytes, hloop, streamHandler, List.drop_zero, Nat.sub_zero]
    rcases hcase with ⟨rfl, hall⟩ | ⟨hlt, hunsent⟩
    · refine Or.inl ⟨by simp, ?_⟩
      have hsent : ∀ i < sends, (sched.send i).isSome := fun i hi => by
        rcases Nat.lt_or_ge i s.sends with h' | h'
        · exact h.sent i h'
        · exact hall i h' hi
      simp only [ne_eq, not_true_eq_false, if_false, List.take_length]
      exact ⟨h.inbound_eq, by rw [h.wire_eq], h.log_eq, hsent⟩
    · refine Or.inr ⟨.exit 10013, by simp [hlt.ne], ?_⟩
      simp only [ne_eq, hlt.ne, not_false_eq_true, if_true]
      refine ⟨rfl, ?_, h.log_eq ▸ List.prefix_refl _, hunsent⟩
      rw [h.wire_eq]
      exact (List.prefix_append_right_inj _).mpr (List.take_prefix _ _)
  note event s c h := by
    refine ⟨h.inbound_eq, h.wire_eq, ?_, h.sent⟩
    simp only [handler, streamHandler, h.log_eq, h.inbound_eq, h.wire_eq]
  over_read e n s c h := by
    simp only [streamHandler]
    split_ifs <;> exact ⟨h.ending_eq, h.wire_prefix, h.log_prefix, h.unsent⟩
  over_write e bytes s c h :=
    ⟨h.ending_eq, h.wire_prefix.trans (List.prefix_append ..), h.log_prefix, h.unsent⟩
  over_note e event s c h :=
    ⟨h.ending_eq, h.wire_prefix, h.log_prefix.trans (List.prefix_append ..), h.unsent⟩

end Socket

end CodeTroopers
