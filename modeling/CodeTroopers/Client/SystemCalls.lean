import CodeTroopers.Client.CSimpleSocket
import CodeTroopers.Client.Fragmentation
import CodeTroopers.Library.FailingHandler

set_option autoImplicit false

/-! # A session over the system calls

The loops of `readBytes` and `writeBytes` over `CSimpleSocket` do to the connection what reading and
writing do to a plain stream, until a call of `recv` or `send` fails (`handler_follows`). A call
that fails for good ends the client with exit code 10012 or 10013. A call that is interrupted is
repeated, but no call resets `errno`, so each repetition counts as interrupted, too, until one fails
in another way; and the repetition of `recv` stores its bytes from one before the buffer on. A call
may also kill the process, as `send` does over a connection that the other side has closed. -/

namespace CodeTroopers

open StreamProgram ByteOrder

/-- The call has transferred something or met the end of the stream. -/
def Transfer.Succeeds : Transfer → Prop
  | .transfers _ => True
  | .fails _ | .kills => False

theorem Transfer.succeeds_iff (t : Transfer) : t.Succeeds ↔ ∃ n, t = .transfers n := by
  cases t <;> simp [Succeeds]

namespace CSimpleSocket

variable {ν : Type} {kernel : Kernel}

/-! ## The state between two calls -/

/-- A socket that is open, with no interruption pending and a buffer of the size it has noted. -/
structure Ready (p : Process ν) : Prop where
  valid : p.socket = true
  errno : p.errno ≠ .eintr
  buffer : ∀ buffer, p.pBuffer = some buffer →
    buffer.length = p.nBufferSize ∧ p.nBufferSize < 2 ^ 31

/-- Reading has left the other direction as it is. -/
structure OnlyRead (p p' : Process ν) : Prop where
  wire_eq : p'.wire = p.wire
  log_eq : p'.log = p.log
  sends_eq : p'.sends = p.sends
  receives_le : p.receives ≤ p'.receives

theorem OnlyRead.trans {p p' p'' : Process ν} (h : OnlyRead p p') (h' : OnlyRead p' p'') :
    OnlyRead p p'' :=
  ⟨h'.wire_eq.trans h.wire_eq, h'.log_eq.trans h.log_eq, h'.sends_eq.trans h.sends_eq,
    h.receives_le.trans h'.receives_le⟩

/-- The process when `Receive` enters its loop. -/
def entering (p : Process ν) (buffer : List UInt8) : Process ν :=
  { p with
    nBytesReceived := 0, pBuffer := some buffer, nBufferSize := buffer.length,
    socketErrno := .socketSuccess }

variable (kernel) in
/-- `Receive` gets a buffer of the size it is asked for. -/
theorem receive_of_lt {p : Process ν} (hp : Ready p) {n : ℕ} (hn : n < 2 ^ 31) (fuel : ℕ) :
    ∃ buffer, buffer.length = n ∧
      receive kernel fuel n p = returnReceived (receiveLoop kernel n fuel (entering p buffer)) := by
  obtain ⟨socket, socketErrno, pBuffer, nBufferSize, _, nBytesSent, errno, inbound, wire, log,
    receives, sends⟩ := p
  obtain rfl : socket = true := hp.valid
  have hnot : ¬ 2147483648 ≤ n := by omega
  cases pBuffer with
  | none => exact ⟨List.replicate n 0, List.length_replicate, by
      simp [receive, isSocketValid, allocate, hnot, entering, setSocketError]⟩
  | some buffer =>
      obtain ⟨hlen, _⟩ := hp.buffer buffer rfl
      dsimp only at hlen
      by_cases hsize : n = nBufferSize
      · -- the buffer has the size already
        subst hsize
        exact ⟨buffer, hlen, by
          simp [receive, isSocketValid, allocate, entering, setSocketError, hlen]⟩
      · exact ⟨List.replicate n 0, List.length_replicate, by
          simp [receive, isSocketValid, allocate, hsize, hnot, entering, setSocketError]⟩

/-- A size that is negative as an `int32` makes `new` throw. -/
theorem receive_of_le {p : Process ν} (hp : Ready p) {n : ℕ} (hn : 2 ^ 31 ≤ n) (fuel : ℕ) :
    receive kernel fuel n p = (.error .abort,
      { p with nBytesReceived := 0, pBuffer := none, nBufferSize := n }) := by
  obtain ⟨socket, socketErrno, pBuffer, nBufferSize, _, nBytesSent, errno, inbound, wire, log,
    receives, sends⟩ := p
  obtain rfl : socket = true := hp.valid
  have hle : 2147483648 ≤ n := by omega
  cases pBuffer with
  | none => simp [receive, isSocketValid, allocate, hle]
  | some buffer =>
      have hlt := (hp.buffer buffer rfl).2
      dsimp only at hlt
      have hsize : n ≠ nBufferSize := by omega
      simp [receive, isSocketValid, allocate, hsize, hle]

theorem storeAt_zero {buffer data : List UInt8} (h : data.length ≤ buffer.length) :
    storeAt buffer 0 data = some (data ++ buffer.drop data.length) := by
  have hfits : data = [] ∨ (0 : Int) ≤ 0 ∧ (0 : Int).toNat + data.length ≤ buffer.length :=
    Or.inr ⟨le_refl _, by simpa using h⟩
  rw [storeAt, if_pos hfits]
  simp [Socket.copyTo]

/-! ## Receiving -/

/-- How a read ends of which a call of `recv` has failed. -/
inductive ReadFailure (kernel : Kernel) (receives : ℕ) : Ending → Prop
  /-- Too few bytes. -/
  | short {i : ℕ} {errno : Errno} (hi : i < receives) (h : kernel.recv i = .fails errno) :
      ReadFailure kernel receives (.exit 10012)
  /-- Bytes are stored outside the buffer. -/
  | outside {i : ℕ} (hi : i < receives) (h : kernel.recv i = .fails .eintr) :
      ReadFailure kernel receives .undefined
  /-- The loop of `Receive` does not end. -/
  | endless {i : ℕ} (hi : i < receives) (h : kernel.recv i = .fails .eintr) :
      ReadFailure kernel receives .outOfFuel
  | killed {i : ℕ} (hi : i < receives) (h : kernel.recv i = .kills) :
      ReadFailure kernel receives .killed

theorem receiveLoop_succ {offset : Int} {n fuel : ℕ} {p q : Process ν}
    (hrecv : recv kernel p.nBytesReceived n p = (.ok offset, q)) :
    receiveLoop kernel n (fuel + 1) p =
      if q.errno = .eintr then
        receiveLoop kernel n fuel (translateSocketError { q with nBytesReceived := offset })
      else (.ok (), translateSocketError { q with nBytesReceived := offset }) := by
  simp only [receiveLoop, hrecv, translateSocketError, setSocketError,
    Errno.translate_eq_interrupted_iff]

/-- The bytes a call of `recv` hands over. -/
def received (p : Process ν) (byteCount nMaxBytes : ℕ) : List UInt8 :=
  p.inbound.take (min (max 1 byteCount) nMaxBytes)

/-- **A call of `recv` that succeeds** fills the front of the buffer, and `Receive` returns. -/
theorem receive_of_transfers {p : Process ν} (hp : Ready p) (fuel n : ℕ) {byteCount : ℕ}
    (hn : n < 2 ^ 31) (hcall : kernel.recv p.receives = .transfers byteCount) :
    ∃ p', receive kernel (fuel + 1) n p = (.ok (received p byteCount n).length, p') ∧
      (p'.pBuffer.getD []).take (received p byteCount n).length = received p byteCount n ∧
      p'.inbound = p.inbound.drop (received p byteCount n).length ∧ Ready p' ∧ OnlyRead p p' ∧
      p'.receives = p.receives + 1 := by
  obtain ⟨buffer, hlen, hreceive⟩ := receive_of_lt kernel hp hn (fuel + 1)
  have hfits : (received p byteCount n).length ≤ buffer.length := by
    rw [received, List.length_take]
    omega
  have hpos : ((received p byteCount n).length : Int) ≠ -1 := by omega
  have hstore := storeAt_zero hfits
  have hloop : receiveLoop kernel n (fuel + 1) (entering p buffer) = (.ok (),
      { entering p (received p byteCount n ++ buffer.drop (received p byteCount n).length) with
        nBytesReceived := (received p byteCount n).length, socketErrno := p.errno.translate,
        inbound := p.inbound.drop (received p byteCount n).length,
        receives := p.receives + 1, nBufferSize := buffer.length }) := by
    have hrecv : recv kernel (entering p buffer).nBytesReceived n (entering p buffer)
        = (.ok (received p byteCount n).length,
          { entering p buffer with
            receives := p.receives + 1,
            inbound := p.inbound.drop (received p byteCount n).length,
            pBuffer := some (received p byteCount n
              ++ buffer.drop (received p byteCount n).length) }) := by
      rw [received] at hstore ⊢
      simp only [recv, entering, hcall, Option.getD_some, hstore]
    rw [receiveLoop_succ hrecv]
    exact if_neg hp.errno
  have hlen' : (received p byteCount n ++ buffer.drop (received p byteCount n).length).length
      = buffer.length := by
    rw [List.length_append, List.length_drop]
    omega
  rw [hreceive, hloop, returnReceived]
  refine ⟨_, if_neg hpos, ?_, rfl, ⟨hp.valid, hp.errno, ?_⟩, ⟨rfl, rfl, rfl, Nat.le_succ _⟩,
    rfl⟩
  · exact @List.take_left _ _ (buffer.drop (received p byteCount n).length)
  · intro _ h
    cases h
    exact ⟨hlen', hlen.symm ▸ hn⟩

/-- A call of `recv` that fails for good: `Receive` returns -1 and frees the buffer. -/
theorem receive_of_fails {p : Process ν} (hp : Ready p) (fuel n : ℕ) {errno : Errno}
    (hn : n < 2 ^ 31) (hcall : kernel.recv p.receives = .fails errno) (hne : errno ≠ .eintr) :
    ∃ p', receive kernel (fuel + 1) n p = (.ok (-1), p') ∧ OnlyRead p p' ∧
      p'.receives = p.receives + 1 := by
  obtain ⟨buffer, _, hreceive⟩ := receive_of_lt kernel hp hn (fuel + 1)
  have hloop : receiveLoop kernel n (fuel + 1) (entering p buffer) = (.ok (),
      { entering p buffer with
        nBytesReceived := -1, socketErrno := errno.translate, errno := errno,
        receives := p.receives + 1 }) := by
    have hrecv : recv kernel (entering p buffer).nBytesReceived n (entering p buffer) = (.ok (-1),
        { entering p buffer with receives := p.receives + 1, errno := errno }) := by
      simp only [recv, entering, hcall]
    rw [receiveLoop_succ hrecv]
    exact if_neg hne
  rw [hreceive, hloop, returnReceived]
  exact ⟨_, if_pos rfl, ⟨rfl, rfl, rfl, Nat.le_succ _⟩, rfl⟩

theorem receive_of_kills {p : Process ν} (hp : Ready p) (fuel n : ℕ) (hn : n < 2 ^ 31)
    (hcall : kernel.recv p.receives = .kills) :
    ∃ p', receive kernel (fuel + 1) n p = (.error .killed, p') ∧ OnlyRead p p' ∧
      p'.receives = p.receives + 1 := by
  obtain ⟨buffer, _, hreceive⟩ := receive_of_lt kernel hp hn (fuel + 1)
  have hloop : receiveLoop kernel n (fuel + 1) (entering p buffer) = (.error .killed,
      { entering p buffer with receives := p.receives + 1 }) := by
    simp only [receiveLoop, recv, entering, hcall]
  rw [hreceive, hloop, returnReceived]
  exact ⟨_, rfl, ⟨rfl, rfl, rfl, Nat.le_succ _⟩, rfl⟩

variable (kernel) in
/-- **An interruption is never over**: no call resets `errno`, so the loop goes on until a call
    fails in another way, stores something outside the buffer, kills the process, or has used up
    its rounds. -/
theorem receiveLoop_of_eintr (n fuel : ℕ) (p : Process ν) (herrno : p.errno = .eintr) {i : ℕ}
    (hi : i < p.receives) (hintr : kernel.recv i = .fails .eintr) :
    ∃ r p', receiveLoop kernel n fuel p = (r, p') ∧ OnlyRead p p' ∧
      ((∃ e, ReadFailure kernel p'.receives e ∧ r = .error e) ∨
        r = .ok () ∧ p'.nBytesReceived = -1) := by
  induction fuel generalizing p with
  | zero =>
      exact ⟨_, p, rfl, ⟨rfl, rfl, rfl, le_refl _⟩, Or.inl ⟨_, .endless hi hintr, rfl⟩⟩
  | succ fuel ih =>
      have hagain : ∀ offset q, recv kernel p.nBytesReceived n p = (.ok offset, q) →
          q.errno = .eintr → OnlyRead p q → ∃ r p', receiveLoop kernel n (fuel + 1) p = (r, p') ∧
            OnlyRead p p' ∧ ((∃ e, ReadFailure kernel p'.receives e ∧ r = .error e) ∨
              r = .ok () ∧ p'.nBytesReceived = -1) := by
        intro offset q hrecv hq honly
        obtain ⟨r, p', hloop, honly', hcases⟩ :=
          ih (translateSocketError { q with nBytesReceived := offset }) hq
            (hi.trans_le honly.receives_le)
        rw [receiveLoop_succ hrecv, if_pos hq]
        exact ⟨r, p', hloop, honly.trans ⟨honly'.wire_eq, honly'.log_eq, honly'.sends_eq,
          honly'.receives_le⟩, hcases⟩
      cases hcall : kernel.recv p.receives with
      | kills =>
          refine ⟨.error .killed, { p with receives := p.receives + 1 }, ?_,
            ⟨rfl, rfl, rfl, Nat.le_succ _⟩, Or.inl ⟨_, .killed (Nat.lt_succ_self _) hcall, rfl⟩⟩
          simp only [receiveLoop, recv, hcall]
      | fails errno =>
          have hrecv : recv kernel p.nBytesReceived n p = (.ok (-1),
              { p with receives := p.receives + 1, errno := errno }) := by
            simp only [recv, hcall]
          by_cases hagain' : errno = .eintr
          · exact hagain _ _ hrecv hagain' ⟨rfl, rfl, rfl, Nat.le_succ _⟩
          · rw [receiveLoop_succ hrecv, if_neg hagain']
            exact ⟨_, _, rfl, ⟨rfl, rfl, rfl, Nat.le_succ _⟩, Or.inr ⟨rfl, rfl⟩⟩
      | transfers byteCount =>
          cases hstore : storeAt (p.pBuffer.getD []) p.nBytesReceived
              (received p byteCount n) with
          | none =>
              rw [received] at hstore
              refine ⟨.error .undefined, { p with receives := p.receives + 1 }, ?_,
                ⟨rfl, rfl, rfl, Nat.le_succ _⟩,
                Or.inl ⟨_, .outside (hi.trans (Nat.lt_succ_self _)) hintr, rfl⟩⟩
              simp only [receiveLoop, recv, hcall, hstore]
          | some buffer =>
              rw [received] at hstore
              have hrecv : recv kernel p.nBytesReceived n p = (.ok (received p byteCount n).length,
                  { p with
                    receives := p.receives + 1, pBuffer := some buffer,
                    inbound := p.inbound.drop (received p byteCount n).length }) := by
                simp only [recv, hcall, hstore, received]
              exact hagain _ _ hrecv herrno ⟨rfl, rfl, rfl, Nat.le_succ _⟩

/-- A call of `recv` that is interrupted: `Receive` returns -1 at best. -/
theorem receive_of_eintr {p : Process ν} (hp : Ready p) (fuel n : ℕ) (hn : n < 2 ^ 31)
    (hcall : kernel.recv p.receives = .fails .eintr) :
    ∃ r p', receive kernel (fuel + 1) n p = (r, p') ∧ OnlyRead p p' ∧ p.receives < p'.receives ∧
      ((∃ e, ReadFailure kernel p'.receives e ∧ r = .error e) ∨ r = .ok (-1)) := by
  obtain ⟨buffer, _, hreceive⟩ := receive_of_lt kernel hp hn (fuel + 1)
  have hrecv : recv kernel (entering p buffer).nBytesReceived n (entering p buffer) = (.ok (-1),
      { entering p buffer with receives := p.receives + 1, errno := .eintr }) := by
    simp only [recv, entering, hcall]
  rw [hreceive, receiveLoop_succ hrecv, if_pos rfl]
  obtain ⟨r, p', hloop, honly, hcases⟩ := receiveLoop_of_eintr kernel n fuel
    (translateSocketError { entering p buffer with
      receives := p.receives + 1, errno := .eintr, nBytesReceived := -1 }) rfl
    (Nat.lt_succ_self p.receives) hcall
  have honly' : OnlyRead p p' :=
    ⟨honly.wire_eq, honly.log_eq, honly.sends_eq, (Nat.le_succ _).trans honly.receives_le⟩
  rcases hcases with ⟨e, hfailure, rfl⟩ | ⟨rfl, hfree⟩
  · exact ⟨.error e, p', congrArg returnReceived hloop, honly', honly.receives_le,
      Or.inl ⟨e, hfailure, rfl⟩⟩
  · refine ⟨.ok (-1), { translateSocketError p' with pBuffer := none },
      (congrArg returnReceived hloop).trans ?_,
      ⟨honly'.wire_eq, honly'.log_eq, honly'.sends_eq, honly'.receives_le⟩, honly.receives_le,
      Or.inr rfl⟩
    have hminus : (translateSocketError p').nBytesReceived = -1 := hfree
    simp only [returnReceived, hminus, if_true]

/-- **A call of `recv` that does not succeed** ends the read: what `Receive` returns is -1 at
    best. -/
theorem receive_of_failure {p : Process ν} (hp : Ready p) (fuel n : ℕ) (hn : n < 2 ^ 31)
    (hcall : ¬ (kernel.recv p.receives).Succeeds) :
    ∃ r p', receive kernel (fuel + 1) n p = (r, p') ∧ OnlyRead p p' ∧
      ∃ e, ReadFailure kernel p'.receives e ∧
        (r = .error e ∨ e = .exit 10012 ∧ r = .ok (-1)) := by
  cases hrecv : kernel.recv p.receives with
  | transfers n => exact absurd ((Transfer.succeeds_iff _).mpr ⟨n, hrecv⟩) hcall
  | kills =>
      obtain ⟨p', hreceive, honly, hreceives⟩ := receive_of_kills hp fuel n hn hrecv
      exact ⟨_, p', hreceive, honly, _, .killed (by omega) hrecv, Or.inl rfl⟩
  | fails errno =>
      by_cases hintr : errno = .eintr
      · subst hintr
        obtain ⟨r, p', hreceive, honly, hlt, hcases⟩ := receive_of_eintr hp fuel n hn hrecv
        rcases hcases with ⟨e, hfailure, rfl⟩ | rfl
        · exact ⟨_, p', hreceive, honly, e, hfailure, Or.inl rfl⟩
        · exact ⟨_, p', hreceive, honly, _, .short hlt hrecv, Or.inr ⟨rfl, rfl⟩⟩
      · obtain ⟨p', hreceive, honly, hreceives⟩ := receive_of_fails hp fuel n hn hrecv hintr
        exact ⟨_, p', hreceive, honly, _, .short (by omega) hrecv, Or.inr ⟨rfl, rfl⟩⟩

/-! ## Reading -/

/-- The loop of `readBytes` has filled the buffer with what there is, as far as it goes. -/
structure LoopServed (kernel : Kernel) (p : Process ν) (missing : ℕ) (p' : Process ν) : Prop where
  inbound_eq : p'.inbound = p.inbound.drop missing
  ready : Ready p'
  onlyRead : OnlyRead p p'
  succeed : ∀ i, p.receives ≤ i → i < p'.receives → (kernel.recv i).Succeeds

/-- A call of `recv` has failed in the loop of `readBytes`. -/
structure LoopFailed (kernel : Kernel) (p : Process ν) (byteCount : ℕ)
    (r : Except Ending (List UInt8 × ℕ)) (p' : Process ν) : Prop where
  onlyRead : OnlyRead p p'
  failure : ∃ e, ReadFailure kernel p'.receives e ∧
    (r = .error e ∨ e = .exit 10012 ∧ ∃ bytes offset, r = .ok (bytes, offset) ∧ offset ≠ byteCount)

variable (kernel) in
/-- The loop of `readBytes` fills the buffer with what there is, up to its size, unless a call of
    `recv` fails. -/
theorem readLoop_cases (fuel byteCount offset : ℕ) (bytes : List UInt8) (p : Process ν)
    (hp : Ready p) (hlen : bytes.length = byteCount) (hoff : offset ≤ byteCount)
    (hcount : byteCount < 2 ^ 31) :
    (∃ p', readLoop kernel (fuel + 1) byteCount offset bytes p =
        (.ok (Socket.copyTo bytes offset (p.inbound.take (byteCount - offset)),
          offset + (p.inbound.take (byteCount - offset)).length), p') ∧
      LoopServed kernel p (byteCount - offset) p') ∨
    ∃ r p', readLoop kernel (fuel + 1) byteCount offset bytes p = (r, p') ∧
      LoopFailed kernel p byteCount r p' := by
  -- the induction is on the number of bytes still missing
  generalize hmissing : byteCount - offset = missing
  induction missing using Nat.strongRecOn generalizing offset bytes p with
  | _ missing ih =>
      rw [readLoop]
      by_cases hlt : offset < byteCount
      · rw [if_pos hlt, hmissing]
        by_cases hok : (kernel.recv p.receives).Succeeds
        · obtain ⟨n, hcall⟩ := (Transfer.succeeds_iff _).mp hok
          obtain ⟨p', hreceive, hdata, hin, hready, honly, hreceives⟩ :=
            receive_of_transfers hp fuel missing (by omega) hcall
          rw [hreceive]
          generalize hgot : received p n missing = data at hdata hin hreceive
          have hle : data.length ≤ missing := by
            rw [← hgot, received, List.length_take]
            omega
          by_cases hnone : data.length = 0
          · -- nothing received: the stream is at its end
            have hnil : p.inbound = [] := by
              rw [← hgot, received, List.length_take] at hnone
              exact List.eq_nil_of_length_eq_zero (by omega)
            refine Or.inl ⟨p', ?_, ?_⟩
            · simp [hnone, hnil, Socket.copyTo]
            · refine ⟨by simp [hin, hnil], hready, honly, fun i h₁ h₂ => ?_⟩
              obtain rfl : i = p.receives := by omega
              exact hok
          · have hpos : (0 : Int) < data.length := by omega
            dsimp only
            rw [if_pos hpos, Int.toNat_natCast, hdata]
            have htake : p.inbound.take data.length = data := by
              rw [← hgot, received, List.length_take]
              exact List.take_eq_take_min.symm
            obtain ⟨happend, hdrop⟩ := Socket.take_append_missing p.inbound hle
            rw [htake] at happend hdrop
            rw [← hin] at happend hdrop
            have hfits : offset + data.length ≤ bytes.length := by omega
            rcases ih (missing - data.length) (by omega) (offset + data.length)
              (Socket.copyTo bytes offset data) p' hready
              ((Socket.length_copyTo hfits).trans hlen) (by omega) (by omega) with
              ⟨p'', hloop, hserved⟩ | ⟨r, p'', hloop, hfailed⟩
            · refine Or.inl ⟨p'', ?_, ?_⟩
              · rw [hloop, Socket.copyTo_copyTo hfits, happend, Nat.add_assoc,
                  ← List.length_append, happend]
              · refine ⟨hserved.inbound_eq.trans hdrop, hserved.ready,
                  honly.trans hserved.onlyRead, fun i h₁ h₂ => ?_⟩
                rcases Nat.eq_or_lt_of_le h₁ with rfl | h₁
                · exact hok
                · exact hserved.succeed i (by omega) h₂
            · exact Or.inr ⟨r, p'', hloop, honly.trans hfailed.onlyRead, hfailed.failure⟩
        · obtain ⟨r, p', hreceive, honly, e, hfailure, hend⟩ :=
            receive_of_failure hp fuel missing (by omega) hok
          rw [hreceive]
          rcases hend with rfl | ⟨rfl, rfl⟩
          · exact Or.inr ⟨_, p', rfl, honly, e, hfailure, Or.inl rfl⟩
          · exact Or.inr ⟨_, p', rfl, honly, _, hfailure, Or.inr ⟨rfl, _, _, rfl, hlt.ne⟩⟩
      · rw [if_neg hlt]
        have hzero : missing = 0 := by omega
        subst hzero
        refine Or.inl ⟨p, by simp [Socket.copyTo], by simp, hp, ⟨rfl, rfl, rfl, le_refl _⟩, ?_⟩
        intro i h₁ h₂
        omega

/-! ## Sending -/

/-- Writing has left the other direction as it is. -/
structure OnlySent (p p' : Process ν) : Prop where
  inbound_eq : p'.inbound = p.inbound
  log_eq : p'.log = p.log
  receives_eq : p'.receives = p.receives
  sends_le : p.sends ≤ p'.sends

theorem OnlySent.trans {p p' p'' : Process ν} (h : OnlySent p p') (h' : OnlySent p' p'') :
    OnlySent p p'' :=
  ⟨h'.inbound_eq.trans h.inbound_eq, h'.log_eq.trans h.log_eq, h'.receives_eq.trans h.receives_eq,
    h.sends_le.trans h'.sends_le⟩

/-- How a write ends of which a call of `send` has failed. -/
inductive WriteFailure (kernel : Kernel) (sends : ℕ) : Ending → Prop
  /-- Bytes are unsent. -/
  | unsent {i : ℕ} {errno : Errno} (hi : i < sends) (h : kernel.send i = .fails errno) :
      WriteFailure kernel sends (.exit 10013)
  /-- The loop of `Send` does not end. -/
  | endless {i : ℕ} (hi : i < sends) (h : kernel.send i = .fails .eintr) :
      WriteFailure kernel sends .outOfFuel
  | killed {i : ℕ} (hi : i < sends) (h : kernel.send i = .kills) :
      WriteFailure kernel sends .killed

theorem sendLoop_succ {sent : Int} {fuel : ℕ} {buf : List UInt8} {p q : Process ν}
    (hsend : sendCall kernel buf p = (.ok sent, q)) :
    sendLoop kernel buf (fuel + 1) p =
      if q.errno = .eintr then
        sendLoop kernel buf fuel (translateSocketError { q with nBytesSent := sent })
      else (.ok (), translateSocketError { q with nBytesSent := sent }) := by
  simp only [sendLoop, hsend, translateSocketError, setSocketError,
    Errno.translate_eq_interrupted_iff]

/-- The process when `Send` enters its loop. -/
def enteringSend (p : Process ν) : Process ν :=
  { p with nBytesSent := 0, socketErrno := .socketSuccess }

theorem send_of_valid {p : Process ν} (hp : Ready p) {buf : List UInt8} (hbuf : 0 < buf.length)
    (fuel : ℕ) :
    send kernel fuel buf p =
      match sendLoop kernel buf fuel (enteringSend p) with
      | (.error e, p) => (.error e, p)
      | (.ok _, p) => (.ok p.nBytesSent, p) := by
  have hvalid : isSocketValid { setSocketError .socketSuccess p with nBytesSent := 0 } = true :=
    hp.valid
  rw [send, if_pos ⟨hvalid, hbuf⟩]
  rfl

/-- **A call of `send` that succeeds** puts a piece of the buffer on the wire, and `Send`
    returns. -/
theorem send_of_transfers {p : Process ν} (hp : Ready p) (fuel : ℕ) {n : ℕ} {buf : List UInt8}
    (hbuf : 0 < buf.length) (hcall : kernel.send p.sends = .transfers n) :
    ∃ p' sent, send kernel (fuel + 1) buf p = (.ok (sent : ℕ), p') ∧ 0 < sent ∧
      sent ≤ buf.length ∧ p'.wire = p.wire ++ buf.take sent ∧ Ready p' ∧ OnlySent p p' ∧
      p'.sends = p.sends + 1 := by
  obtain ⟨sent, hcut, hlen, hpos, hle⟩ : ∃ sent, buf.take (min (max 1 n) maxTransfer)
      = buf.take sent ∧ (buf.take sent).length = sent ∧ 0 < sent ∧ sent ≤ buf.length := by
    refine ⟨min (min (max 1 n) maxTransfer) buf.length, List.take_eq_take_min, ?_, ?_, ?_⟩
    · rw [List.length_take]
      omega
    · rw [maxTransfer]
      omega
    · omega
  have hsend : sendCall kernel buf (enteringSend p) = (.ok (sent : Int),
      { enteringSend p with sends := p.sends + 1, wire := p.wire ++ buf.take sent }) := by
    simp only [sendCall, enteringSend, hcall, hcut, hlen]
  have hloop : sendLoop kernel buf (fuel + 1) (enteringSend p) = (.ok (),
      translateSocketError { enteringSend p with
        sends := p.sends + 1, wire := p.wire ++ buf.take sent, nBytesSent := sent }) :=
    (sendLoop_succ hsend).trans (if_neg hp.errno)
  rw [send_of_valid hp hbuf, hloop]
  exact ⟨_, sent, rfl, hpos, hle, rfl, ⟨hp.valid, hp.errno, hp.buffer⟩,
    ⟨rfl, rfl, rfl, Nat.le_succ _⟩, rfl⟩

/-- A call of `send` that fails for good: `Send` returns -1. -/
theorem send_of_fails {p : Process ν} (hp : Ready p) (fuel : ℕ) {buf : List UInt8} {errno : Errno}
    (hbuf : 0 < buf.length) (hcall : kernel.send p.sends = .fails errno) (hne : errno ≠ .eintr) :
    ∃ p', send kernel (fuel + 1) buf p = (.ok (-1), p') ∧ p'.wire = p.wire ∧ OnlySent p p' ∧
      p'.sends = p.sends + 1 := by
  have hsend : sendCall kernel buf (enteringSend p) = (.ok (-1),
      { enteringSend p with sends := p.sends + 1, errno := errno }) := by
    simp only [sendCall, enteringSend, hcall]
  rw [send_of_valid hp hbuf, sendLoop_succ hsend, if_neg hne]
  exact ⟨_, rfl, rfl, ⟨rfl, rfl, rfl, Nat.le_succ _⟩, rfl⟩

theorem send_of_kills {p : Process ν} (hp : Ready p) (fuel : ℕ) {buf : List UInt8}
    (hbuf : 0 < buf.length) (hcall : kernel.send p.sends = .kills) :
    ∃ p', send kernel (fuel + 1) buf p = (.error .killed, p') ∧ p'.wire = p.wire ∧
      OnlySent p p' ∧ p'.sends = p.sends + 1 := by
  have hloop : sendLoop kernel buf (fuel + 1) (enteringSend p) = (.error .killed,
      { enteringSend p with sends := p.sends + 1 }) := by
    simp only [sendLoop, sendCall, enteringSend, hcall]
  rw [send_of_valid hp hbuf, hloop]
  exact ⟨_, rfl, rfl, ⟨rfl, rfl, rfl, Nat.le_succ _⟩, rfl⟩

variable (kernel) in
/-- An interruption is never over: the buffer is sent again and again until a call fails in another
    way or kills the process. A repetition that succeeds has sent its bytes once more. -/
theorem sendLoop_of_eintr (buf : List UInt8) (fuel : ℕ) (p : Process ν)
    (herrno : p.errno = .eintr) {i : ℕ} (hi : i < p.sends) (hintr : kernel.send i = .fails .eintr) :
    ∃ r p', sendLoop kernel buf fuel p = (r, p') ∧ OnlySent p p' ∧
      ((∃ e, WriteFailure kernel p'.sends e ∧ r = .error e) ∨ r = .ok () ∧ p'.nBytesSent = -1) := by
  induction fuel generalizing p with
  | zero =>
      exact ⟨_, p, rfl, ⟨rfl, rfl, rfl, le_refl _⟩, Or.inl ⟨_, .endless hi hintr, rfl⟩⟩
  | succ fuel ih =>
      have hagain : ∀ sent q, sendCall kernel buf p = (.ok sent, q) → q.errno = .eintr →
          OnlySent p q → ∃ r p', sendLoop kernel buf (fuel + 1) p = (r, p') ∧ OnlySent p p' ∧
            ((∃ e, WriteFailure kernel p'.sends e ∧ r = .error e) ∨
              r = .ok () ∧ p'.nBytesSent = -1) := by
        intro sent q hsend hq honly
        obtain ⟨r, p', hloop, honly', hcases⟩ :=
          ih (translateSocketError { q with nBytesSent := sent }) hq (hi.trans_le honly.sends_le)
        rw [sendLoop_succ hsend, if_pos hq]
        exact ⟨r, p', hloop, honly.trans ⟨honly'.inbound_eq, honly'.log_eq, honly'.receives_eq,
          honly'.sends_le⟩, hcases⟩
      cases hcall : kernel.send p.sends with
      | kills =>
          refine ⟨.error .killed, { p with sends := p.sends + 1 }, ?_,
            ⟨rfl, rfl, rfl, Nat.le_succ _⟩, Or.inl ⟨_, .killed (Nat.lt_succ_self _) hcall, rfl⟩⟩
          simp only [sendLoop, sendCall, hcall]
      | fails errno =>
          have hsend : sendCall kernel buf p = (.ok (-1),
              { p with sends := p.sends + 1, errno := errno }) := by
            simp only [sendCall, hcall]
          by_cases hagain' : errno = .eintr
          · exact hagain _ _ hsend hagain' ⟨rfl, rfl, rfl, Nat.le_succ _⟩
          · rw [sendLoop_succ hsend, if_neg hagain']
            exact ⟨_, _, rfl, ⟨rfl, rfl, rfl, Nat.le_succ _⟩, Or.inr ⟨rfl, rfl⟩⟩
      | transfers n =>
          have hsend : sendCall kernel buf p
              = (.ok ((buf.take (min (max 1 n) maxTransfer)).length : Int), { p with
                sends := p.sends + 1,
                wire := p.wire ++ buf.take (min (max 1 n) maxTransfer) }) := by
            simp only [sendCall, hcall]
          exact hagain _ _ hsend herrno ⟨rfl, rfl, rfl, Nat.le_succ _⟩

/-- A call of `send` that is interrupted: `Send` returns -1 at best. -/
theorem send_of_eintr {p : Process ν} (hp : Ready p) (fuel : ℕ) {buf : List UInt8}
    (hbuf : 0 < buf.length) (hcall : kernel.send p.sends = .fails .eintr) :
    ∃ r p', send kernel (fuel + 1) buf p = (r, p') ∧ OnlySent p p' ∧ p.sends < p'.sends ∧
      ((∃ e, WriteFailure kernel p'.sends e ∧ r = .error e) ∨ r = .ok (-1)) := by
  have hsend : sendCall kernel buf (enteringSend p) = (.ok (-1),
      { enteringSend p with sends := p.sends + 1, errno := .eintr }) := by
    simp only [sendCall, enteringSend, hcall]
  rw [send_of_valid hp hbuf, sendLoop_succ hsend, if_pos rfl]
  obtain ⟨r, p', hloop, honly, hcases⟩ := sendLoop_of_eintr kernel buf fuel
    (translateSocketError { enteringSend p with
      sends := p.sends + 1, errno := .eintr, nBytesSent := -1 }) rfl (Nat.lt_succ_self p.sends)
    hcall
  have honly' : OnlySent p p' :=
    ⟨honly.inbound_eq, honly.log_eq, honly.receives_eq, (Nat.le_succ _).trans honly.sends_le⟩
  rw [hloop]
  rcases hcases with ⟨e, hfailure, rfl⟩ | ⟨rfl, hminus⟩
  · exact ⟨_, p', rfl, honly', honly.sends_le, Or.inl ⟨e, hfailure, rfl⟩⟩
  · exact ⟨_, p', rfl, honly', honly.sends_le, Or.inr (congrArg Except.ok hminus)⟩

/-- No call of `send` up to now was interrupted. -/
def Uninterrupted (kernel : Kernel) (sends : ℕ) : Prop :=
  ∀ i < sends, kernel.send i ≠ .fails .eintr

/-- **A call of `send` that does not succeed** ends the write: what `Send` returns is -1 at best,
    and nothing is sent unless the call was interrupted. -/
theorem send_of_failure {p : Process ν} (hp : Ready p) (fuel : ℕ) {buf : List UInt8}
    (hbuf : 0 < buf.length) (hcall : ¬ (kernel.send p.sends).Succeeds) :
    ∃ r p', send kernel (fuel + 1) buf p = (r, p') ∧ OnlySent p p' ∧
      (Uninterrupted kernel p'.sends → p'.wire = p.wire) ∧
      ∃ e, WriteFailure kernel p'.sends e ∧ (r = .error e ∨ e = .exit 10013 ∧ r = .ok (-1)) := by
  cases hsends : kernel.send p.sends with
  | transfers n => exact absurd ((Transfer.succeeds_iff _).mpr ⟨n, hsends⟩) hcall
  | kills =>
      obtain ⟨p', hsend, hwire, honly, hcount⟩ := send_of_kills hp fuel hbuf hsends
      exact ⟨_, p', hsend, honly, fun _ => hwire, _, .killed (by omega) hsends, Or.inl rfl⟩
  | fails errno =>
      by_cases hintr : errno = .eintr
      · subst hintr
        obtain ⟨r, p', hsend, honly, hlt, hcases⟩ := send_of_eintr hp fuel hbuf hsends
        have habsurd : Uninterrupted kernel p'.sends → p'.wire = p.wire :=
          fun hall => absurd hsends (hall _ hlt)
        rcases hcases with ⟨e, hfailure, rfl⟩ | rfl
        · exact ⟨_, p', hsend, honly, habsurd, e, hfailure, Or.inl rfl⟩
        · exact ⟨_, p', hsend, honly, habsurd, _, .unsent hlt hsends, Or.inr ⟨rfl, rfl⟩⟩
      · obtain ⟨p', hsend, hwire, honly, hcount⟩ := send_of_fails hp fuel hbuf hsends hintr
        exact ⟨_, p', hsend, honly, fun _ => hwire, _, .unsent (by omega) hsends,
          Or.inr ⟨rfl, rfl⟩⟩

/-! ## Writing -/

/-- The loop of `writeBytes` has sent the rest of the buffer. -/
structure LoopSent (kernel : Kernel) (p : Process ν) (rest : List UInt8) (p' : Process ν) :
    Prop where
  wire_eq : p'.wire = p.wire ++ rest
  ready : Ready p'
  onlySent : OnlySent p p'
  succeed : ∀ i, p.sends ≤ i → i < p'.sends → (kernel.send i).Succeeds

/-- A call of `send` has failed in the loop of `writeBytes`. -/
structure LoopUnsent (kernel : Kernel) (p : Process ν) (rest : List UInt8) (byteCount : ℕ)
    (r : Except Ending ℕ) (p' : Process ν) : Prop where
  onlySent : OnlySent p p'
  wire_prefix : Uninterrupted kernel p'.sends → ∃ part, part <+: rest ∧ p'.wire = p.wire ++ part
  failure : ∃ e, WriteFailure kernel p'.sends e ∧
    (r = .error e ∨ e = .exit 10013 ∧ ∃ offset, r = .ok offset ∧ offset ≠ byteCount)

variable (kernel) in
/-- The loop of `writeBytes` sends the rest of the buffer, unless a call of `send` fails. -/
theorem writeLoop_cases (fuel : ℕ) (bytes : List UInt8) (offset : ℕ) (p : Process ν)
    (hp : Ready p) (hoff : offset ≤ bytes.length) :
    (∃ p', writeLoop kernel (fuel + 1) bytes offset p = (.ok bytes.length, p') ∧
      LoopSent kernel p (bytes.drop offset) p') ∨
    ∃ r p', writeLoop kernel (fuel + 1) bytes offset p = (r, p') ∧
      LoopUnsent kernel p (bytes.drop offset) bytes.length r p' := by
  -- the induction is on the number of bytes still unsent
  generalize hmissing : bytes.length - offset = missing
  induction missing using Nat.strongRecOn generalizing offset p with
  | _ missing ih =>
      rw [writeLoop]
      by_cases hlt : offset < bytes.length
      · rw [if_pos hlt]
        have hbuf : 0 < (bytes.drop offset).length := by
          rw [List.length_drop]
          omega
        by_cases hok : (kernel.send p.sends).Succeeds
        · obtain ⟨n, hcall⟩ := (Transfer.succeeds_iff _).mp hok
          obtain ⟨p', sent, hsend, hpos, hle, hwire, hready, honly, hsends⟩ :=
            send_of_transfers hp fuel hbuf hcall
          rw [List.length_drop] at hle
          have hpos' : (0 : Int) < (sent : ℕ) := by omega
          have hrest : (bytes.drop offset).take sent ++ bytes.drop (offset + sent)
              = bytes.drop offset := by
            rw [← List.drop_drop, List.take_append_drop]
          rw [hsend]
          dsimp only
          rw [if_pos hpos', Int.toNat_natCast]
          rcases ih (missing - sent) (by omega) (offset + sent) p' hready (by omega) (by omega)
            with ⟨p'', hloop, hsent⟩ | ⟨r, p'', hloop, hunsent⟩
          · refine Or.inl ⟨p'', hloop, ?_, hsent.ready, honly.trans hsent.onlySent, ?_⟩
            · rw [hsent.wire_eq, hwire, List.append_assoc, hrest]
            · intro i h₁ h₂
              rcases Nat.eq_or_lt_of_le h₁ with rfl | h₁
              · exact hok
              · exact hsent.succeed i (by omega) h₂
          · refine Or.inr ⟨r, p'', hloop, honly.trans hunsent.onlySent, fun hall => ?_,
              hunsent.failure⟩
            obtain ⟨part, hpart, hwire'⟩ := hunsent.wire_prefix hall
            refine ⟨(bytes.drop offset).take sent ++ part, ?_, ?_⟩
            · have happend := (List.prefix_append_right_inj
                ((bytes.drop offset).take sent)).mpr hpart
              rwa [hrest] at happend
            · rw [hwire', hwire, List.append_assoc]
        · obtain ⟨r, p', hsend, honly, hwire, e, hfailure, hend⟩ :=
            send_of_failure hp fuel hbuf hok
          have hpart : Uninterrupted kernel p'.sends →
              ∃ part, part <+: bytes.drop offset ∧ p'.wire = p.wire ++ part :=
            fun hall => ⟨[], List.nil_prefix, by simp [hwire hall]⟩
          rw [hsend]
          rcases hend with rfl | ⟨rfl, rfl⟩
          · exact Or.inr ⟨_, p', rfl, honly, hpart, e, hfailure, Or.inl rfl⟩
          · exact Or.inr ⟨_, p', rfl, honly, hpart, _, hfailure, Or.inr ⟨rfl, _, rfl, hlt.ne⟩⟩
      · rw [if_neg hlt]
        have hfull : offset = bytes.length := by omega
        subst hfull
        refine Or.inl ⟨p, rfl, by simp, hp, ⟨rfl, rfl, rfl, le_refl _⟩, ?_⟩
        intro i h₁ h₂
        omega

/-! ## Whole runs -/

/-- The process has done what the stream has, and every call has succeeded. -/
structure Matches (kernel : Kernel) (p : Process ν) (c : Stream ν) : Prop where
  inbound_eq : p.inbound = c.inbound
  wire_eq : p.wire = c.outbound
  log_eq : p.log = c.log
  received : ∀ i < p.receives, (kernel.recv i).Succeeds
  sent : ∀ i < p.sends, (kernel.send i).Succeeds

/-- The process matches the stream and can go on. -/
structure InStep (kernel : Kernel) (p : Process ν) (c : Stream ν) : Prop
    extends Matches kernel p c where
  ready : Ready p

/-- A call has failed and ended the run. -/
structure Broken (kernel : Kernel) (e : Ending) (p : Process ν) (c : Stream ν) : Prop where
  cause : ReadFailure kernel p.receives e ∧ (∀ i < p.sends, (kernel.send i).Succeeds) ∨
    WriteFailure kernel p.sends e ∧ ∀ i < p.receives, (kernel.recv i).Succeeds
  wire_prefix : Uninterrupted kernel p.sends → p.wire <+: c.outbound
  log_prefix : p.log <+: c.log

theorem Broken.mono {e : Ending} {p : Process ν} {c c' : Stream ν} (h : Broken kernel e p c)
    (hout : c.outbound <+: c'.outbound) (hlog : c.log <+: c'.log) : Broken kernel e p c' :=
  ⟨h.cause, fun hall => (h.wire_prefix hall).trans hout, h.log_prefix.trans hlog⟩

theorem uninterrupted_of_succeeds {n : ℕ} (h : ∀ i < n, (kernel.send i).Succeeds) :
    Uninterrupted kernel n := by
  intro i hi hintr
  have := h i hi
  rw [hintr] at this
  exact this

/-- A read is served like on the stream, or a call of `recv` has failed. -/
theorem alike_readBytes (fuel n : ℕ) {p : Process ν} {c : Stream ν} (h : InStep kernel p c) :
    Alike (InStep kernel) (Broken kernel) (readBytes kernel (fuel + 1) n p)
      ((streamHandler : Handler Ending ν (Stream ν)).read n c) := by
  by_cases hn : 2 ^ 31 ≤ n
  · -- the allocation throws before anything is received
    have hloop : readLoop kernel (fuel + 1) n 0 (List.replicate n 0) p = (.error .abort,
        { p with nBytesReceived := 0, pBuffer := none, nBufferSize := n }) := by
      have hpos : 0 < n := by omega
      rw [readLoop, if_pos hpos, Nat.sub_zero, receive_of_le h.ready hn]
    simp only [readBytes, hloop, streamHandler, ConnectionEnds.limit, if_pos hn]
    exact Or.inl ⟨rfl, ⟨h.inbound_eq, h.wire_eq, h.log_eq, h.received, h.sent⟩,
      h.ready.valid, h.ready.errno, by simp⟩
  have hlen : (List.replicate n (0 : UInt8)).length = n := List.length_replicate
  rcases readLoop_cases kernel fuel n 0 (List.replicate n 0) p h.ready hlen
    (Nat.zero_le _) (by omega) with ⟨p', hloop, hserved⟩ | ⟨r, p', hloop, hfailed⟩
  · rw [Nat.sub_zero, Nat.zero_add] at hloop
    rw [Nat.sub_zero] at hserved
    have hreceived : ∀ i < p'.receives, (kernel.recv i).Succeeds := fun i hi => by
      rcases Nat.lt_or_ge i p.receives with h' | h'
      · exact h.received i h'
      · exact hserved.succeed i h' hi
    have hstep : ∀ c' : Stream ν, c'.inbound = c.inbound.drop n → c'.outbound = c.outbound →
        c'.log = c.log → InStep kernel p' c' := fun c' hin hout hlog =>
      ⟨⟨by rw [hserved.inbound_eq, h.inbound_eq, hin],
        by rw [hserved.onlyRead.wire_eq, h.wire_eq, hout],
        by rw [hserved.onlyRead.log_eq, h.log_eq, hlog], hreceived,
        by rw [hserved.onlyRead.sends_eq]; exact h.sent⟩, hserved.ready⟩
    simp only [readBytes, hloop, streamHandler, ConnectionEnds.limit, if_neg hn, h.inbound_eq]
    by_cases hle : n ≤ c.inbound.length
    · have hfull : (c.inbound.take n).length = n := by
        rw [List.length_take]
        omega
      rw [if_neg (not_not.mpr hfull), if_pos hle]
      refine Or.inl ⟨?_, hstep _ rfl rfl rfl⟩
      simp [Socket.copyTo, hfull]
    · have hshort : (c.inbound.take n).length ≠ n := by
        rw [List.length_take]
        omega
      rw [if_pos hshort, if_neg hle]
      refine Or.inl ⟨rfl, hstep _ ?_ rfl rfl⟩
      exact (List.drop_of_length_le (by omega)).symm
  · obtain ⟨honly, e, hfailure, hcases⟩ := hfailed
    have hsends : ∀ i < p'.sends, (kernel.send i).Succeeds := by
      rw [honly.sends_eq]
      exact h.sent
    have hend : readBytes kernel (fuel + 1) n p = (.error e, p') := by
      rcases hcases with rfl | ⟨rfl, bytes, offset, rfl, hne⟩
      · simp only [readBytes, hloop]
      · simp only [readBytes, hloop, if_pos hne]
    rw [hend]
    refine Or.inr ⟨e, rfl, Or.inl ⟨hfailure, hsends⟩, fun _ => ?_, ?_⟩
    · rw [honly.wire_eq, h.wire_eq]
      simp only [streamHandler]
      split_ifs <;> exact List.prefix_refl _
    · rw [honly.log_eq, h.log_eq]
      simp only [streamHandler]
      split_ifs <;> exact List.prefix_refl _

/-- A write is served like on the stream, or a call of `send` has failed. -/
theorem alike_writeBytes (fuel : ℕ) (bytes : List UInt8) {p : Process ν} {c : Stream ν}
    (h : InStep kernel p c) :
    Alike (InStep kernel) (Broken kernel) (writeBytes kernel (fuel + 1) bytes p)
      ((streamHandler : Handler Ending ν (Stream ν)).write bytes c) := by
  rcases writeLoop_cases kernel fuel bytes 0 p h.ready (Nat.zero_le _) with
    ⟨p', hloop, hsent⟩ | ⟨r, p', hloop, hunsent⟩
  · have hend : writeBytes kernel (fuel + 1) bytes p = (.ok (), p') := by
      simp only [writeBytes, hloop, ne_eq, not_true_eq_false, if_false]
    have hsends : ∀ i < p'.sends, (kernel.send i).Succeeds := fun i hi => by
      rcases Nat.lt_or_ge i p.sends with h' | h'
      · exact h.sent i h'
      · exact hsent.succeed i h' hi
    rw [hend]
    exact Or.inl ⟨rfl, ⟨hsent.onlySent.inbound_eq.trans h.inbound_eq,
      by rw [hsent.wire_eq, h.wire_eq]; rfl, hsent.onlySent.log_eq.trans h.log_eq,
      by rw [hsent.onlySent.receives_eq]; exact h.received, hsends⟩, hsent.ready⟩
  · obtain ⟨honly, hprefix, e, hfailure, hcases⟩ := hunsent
    have hend : writeBytes kernel (fuel + 1) bytes p = (.error e, p') := by
      rcases hcases with rfl | ⟨rfl, offset, rfl, hne⟩
      · simp only [writeBytes, hloop]
      · simp only [writeBytes, hloop, if_pos hne]
    have hreceives : ∀ i < p'.receives, (kernel.recv i).Succeeds := by
      rw [honly.receives_eq]
      exact h.received
    rw [hend]
    refine Or.inr ⟨e, rfl, Or.inr ⟨hfailure, hreceives⟩, fun hall => ?_, ?_⟩
    · obtain ⟨part, hpart, hwire⟩ := hprefix hall
      rw [hwire, h.wire_eq]
      exact (List.prefix_append_right_inj _).mpr hpart
    · rw [honly.log_eq, h.log_eq]
      exact List.prefix_refl _

/-- **The socket class serves the client like a stream**, until a call fails. -/
theorem handler_follows (kernel : Kernel) (fuel : ℕ) :
    Follows (handler kernel (fuel + 1)) (streamHandler : Handler Ending ν (Stream ν))
      (InStep kernel) (Broken kernel) where
  read n _ _ h := alike_readBytes fuel n h
  write bytes _ _ h := alike_writeBytes fuel bytes h
  note event p c h := by
    refine ⟨⟨h.inbound_eq, h.wire_eq, ?_, h.received, h.sent⟩, h.ready.valid, h.ready.errno,
      h.ready.buffer⟩
    simp only [handler, streamHandler, h.log_eq, h.inbound_eq, h.wire_eq]
  over_read e n p c h := by
    simp only [streamHandler]
    split_ifs <;> exact h.mono (List.prefix_refl _) (List.prefix_refl _)
  over_write e bytes p c h := h.mono (List.prefix_append ..) (List.prefix_refl _)
  over_note e event p c h := h.mono (List.prefix_refl _) (List.prefix_append ..)

end CSimpleSocket

end CodeTroopers
