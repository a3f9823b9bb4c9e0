import CodeTroopers.Client.Socket

set_option autoImplicit false

/-! # The socket class

`Receive` and `Send` of `CSimpleSocket`, over the system calls: what `Socket` takes for granted of a
socket that transfers some of the bytes it is asked for. `Kernel` is the other side of `recv` and
`send`. A call that fails returns -1 and sets `errno`; a call that succeeds leaves `errno` as it is,
and nothing but these calls and `Initialize` sets it. A call may also be the last thing the process
does: `send` is called with no flags and `SIGPIPE` is left as it is, so that sending over a
connection the other side has closed kills the process, unless the signal is ignored or blocked
from outside.

Both functions repeat a call while the socket error is `SocketInterrupted`, with `fuel` rounds at
most. `Receive` repeats it at `m_pBuffer + m_nBytesReceived`, so that writing outside the buffer is
possible and is `undefined`. The socket is a TCP socket in blocking mode, as the client makes it,
and the time measurements are left out. -/

namespace CodeTroopers

open StreamProgram

/-- The values of `errno` that are told apart. -/
inductive Errno where
  | success
  | enotconn
  | enotsock
  | ebadf
  | eacces
  | eafnosupport
  | emfile
  | enfile
  | enobufs
  | enomem
  | eprotonosupport
  | econnrefused
  | etimedout
  | einprogress
  | ewouldblock
  | eintr
  | econnaborted
  | einval
  | eproto
  | eperm
  | efault
  | econnreset
  | enoprotoopt
  /-- Any other value. -/
  | other (value : ℕ)
deriving DecidableEq

/-- `CSimpleSocket::CSocketError`. -/
inductive CSocketError where
  | socketError
  | socketSuccess
  | socketInvalidSocket
  | socketInvalidAddress
  | socketInvalidPort
  | socketConnectionRefused
  | socketTimedout
  | socketEwouldblock
  | socketNotconnected
  | socketEinprogress
  | socketInterrupted
  | socketConnectionAborted
  | socketProtocolError
  | socketFirewallError
  | socketInvalidSocketBuffer
  | socketConnectionReset
  | socketAddressInUse
  | socketInvalidPointer
  | socketEunknown
deriving DecidableEq

/-- The `switch` of `TranslateSocketError`. -/
def Errno.translate : Errno → CSocketError
  | .success => .socketSuccess
  | .enotconn => .socketNotconnected
  | .enotsock | .ebadf | .eacces | .eafnosupport | .emfile | .enfile | .enobufs | .enomem
  | .eprotonosupport => .socketInvalidSocket
  | .econnrefused => .socketConnectionRefused
  | .etimedout => .socketTimedout
  | .einprogress => .socketEinprogress
  | .ewouldblock => .socketEwouldblock
  | .eintr => .socketInterrupted
  | .econnaborted => .socketConnectionAborted
  | .einval | .eproto => .socketProtocolError
  | .eperm => .socketFirewallError
  | .efault => .socketInvalidSocketBuffer
  | .econnreset | .enoprotoopt => .socketConnectionReset
  | .other _ => .socketEunknown

theorem Errno.translate_eq_interrupted_iff (errno : Errno) :
    errno.translate = .socketInterrupted ↔ errno = .eintr := by
  cases errno <;> simp [translate]

/-- What a call of `recv` or `send` comes to: the number of bytes, cut to what the call can
    transfer, or a failure, or a signal that kills the process (`SIGPIPE`, in `send`). -/
inductive Transfer where
  | transfers (byteCount : ℕ)
  | fails (errno : Errno)
  | kills
deriving DecidableEq

/-- The `i`-th call of `recv` and of `send`. -/
structure Kernel where
  recv : ℕ → Transfer
  send : ℕ → Transfer

/-- The bytes Linux transfers in one call at most. -/
def maxTransfer : ℕ := 0x7ffff000

/-- The members of the socket, `errno`, both directions of the connection and the notes of the run,
    and the numbers of calls so far. -/
structure Process (ν : Type) where
  /-- `m_socket` is not -1. -/
  socket : Bool
  socketErrno : CSocketError
  pBuffer : Option (List UInt8)
  nBufferSize : ℕ
  nBytesReceived : Int
  nBytesSent : Int
  errno : Errno
  inbound : List UInt8
  wire : List UInt8
  log : List (Mark ν)
  receives : ℕ
  sends : ℕ

namespace CSimpleSocket

variable {ν : Type} (kernel : Kernel)

/-- `IsSocketValid`. -/
def isSocketValid (p : Process ν) : Bool := p.socket

/-- `SetSocketError`. -/
def setSocketError (error : CSocketError) (p : Process ν) : Process ν :=
  { p with socketErrno := error }

/-- `TranslateSocketError`. -/
def translateSocketError (p : Process ν) : Process ν := setSocketError p.errno.translate p

/-! ## Receiving -/

/-- Storing bytes at an offset of a buffer, if none of them falls outside. -/
def storeAt (buffer : List UInt8) (offset : Int) (data : List UInt8) : Option (List UInt8) :=
  if data = [] ∨ 0 ≤ offset ∧ offset.toNat + data.length ≤ buffer.length then
    some (Socket.copyTo buffer offset.toNat data)
  else none

/-- `recv(m_socket, m_pBuffer + offset, nMaxBytes, 0)`. -/
def recv (offset : Int) (nMaxBytes : ℕ) (p : Process ν) : Except Ending Int × Process ν :=
  let p' := { p with receives := p.receives + 1 }
  match kernel.recv p.receives with
  | .kills => (.error .killed, p')
  | .fails errno => (.ok (-1), { p' with errno := errno })
  | .transfers byteCount =>
    let data := p.inbound.take (min (max 1 byteCount) nMaxBytes)
    match storeAt (p.pBuffer.getD []) offset data with
    | none => (.error .undefined, p')
    | some buffer =>
      (.ok data.length, { p' with inbound := p.inbound.drop data.length, pBuffer := some buffer })

/-- The `do` loop of `Receive`. -/
def receiveLoop (nMaxBytes : ℕ) : ℕ → Process ν → Except Ending Unit × Process ν
  | 0, p => (.error .outOfFuel, p)
  | fuel + 1, p =>
    match recv kernel p.nBytesReceived nMaxBytes p with
    | (.error e, p) => (.error e, p)
    | (.ok byteCount, p) =>
      let p := translateSocketError { p with nBytesReceived := byteCount }
      if p.socketErrno = .socketInterrupted then receiveLoop nMaxBytes fuel p else (.ok (), p)

/-- The buffer of `Receive`: the one there is if it has the size asked for, else a new one. The size
    is an `int32`: from `2^31` on it is negative, and `new` throws. -/
def allocate (nMaxBytes : ℕ) (p : Process ν) : Except Ending Unit × Process ν :=
  let p := if p.pBuffer ≠ none ∧ nMaxBytes ≠ p.nBufferSize then { p with pBuffer := none } else p
  if p.pBuffer = none then
    let p := { p with nBufferSize := nMaxBytes }
    if 2 ^ 31 ≤ nMaxBytes then (.error .abort, p)
    else (.ok (), { p with pBuffer := some (List.replicate nMaxBytes 0) })
  else (.ok (), p)

/-- `Receive` behind its loop: the buffer is freed after a call that has failed. -/
def returnReceived : Except Ending Unit × Process ν → Except Ending Int × Process ν
  | (.error e, p) => (.error e, p)
  | (.ok _, p) =>
    let p := translateSocketError p
    if p.nBytesReceived = -1 then (.ok p.nBytesReceived, { p with pBuffer := none })
    else (.ok p.nBytesReceived, p)

/-- `Receive(nMaxBytes)`. -/
def receive (fuel nMaxBytes : ℕ) (p : Process ν) : Except Ending Int × Process ν :=
  let p := { p with nBytesReceived := 0 }
  if isSocketValid p = false then (.ok p.nBytesReceived, p)
  else
    match allocate nMaxBytes p with
    | (.error e, p) => (.error e, p)
    | (.ok _, p) =>
      returnReceived (receiveLoop kernel nMaxBytes fuel (setSocketError .socketSuccess p))

/-! ## Sending -/

/-- `send(m_socket, pBuf, bytesToSend, 0)`. -/
def sendCall (pBuf : List UInt8) (p : Process ν) : Except Ending Int × Process ν :=
  let p' := { p with sends := p.sends + 1 }
  match kernel.send p.sends with
  | .kills => (.error .killed, p')
  | .fails errno => (.ok (-1), { p' with errno := errno })
  | .transfers byteCount =>
    let data := pBuf.take (min (max 1 byteCount) maxTransfer)
    (.ok data.length, { p' with wire := p.wire ++ data })

/-- The `do` loop of `Send`. -/
def sendLoop (pBuf : List UInt8) : ℕ → Process ν → Except Ending Unit × Process ν
  | 0, p => (.error .outOfFuel, p)
  | fuel + 1, p =>
    match sendCall kernel pBuf p with
    | (.error e, p) => (.error e, p)
    | (.ok byteCount, p) =>
      let p := translateSocketError { p with nBytesSent := byteCount }
      if p.socketErrno = .socketInterrupted then sendLoop pBuf fuel p else (.ok (), p)

/-- `Send(pBuf, bytesToSend)`. -/
def send (fuel : ℕ) (pBuf : List UInt8) (p : Process ν) : Except Ending Int × Process ν :=
  let p := { setSocketError .socketSuccess p with nBytesSent := 0 }
  if isSocketValid p ∧ 0 < pBuf.length then
    match sendLoop kernel pBuf fuel p with
    | (.error e, p) => (.error e, p)
    | (.ok _, p) => (.ok p.nBytesSent, p)
  else (.ok p.nBytesSent, p)

/-! ## The loops of the client -/

/-- The loop of `readBytes`: the buffer and the offset it ends with. -/
def readLoop (fuel byteCount offset : ℕ) (bytes : List UInt8) (p : Process ν) :
    Except Ending (List UInt8 × ℕ) × Process ν :=
  if offset < byteCount then
    match receive kernel fuel (byteCount - offset) p with
    | (.error e, p) => (.error e, p)
    | (.ok received, p) =>
      if 0 < received then
        let data := (p.pBuffer.getD []).take received.toNat
        readLoop fuel byteCount (offset + received.toNat) (Socket.copyTo bytes offset data) p
      else (.ok (bytes, offset), p)
  else (.ok (bytes, offset), p)
termination_by byteCount - offset

/-- `readBytes(byteCount)`. -/
def readBytes (fuel byteCount : ℕ) (p : Process ν) : Except Ending (List UInt8) × Process ν :=
  match readLoop kernel fuel byteCount 0 (List.replicate byteCount 0) p with
  | (.error e, p) => (.error e, p)
  | (.ok (bytes, offset), p) =>
    if offset ≠ byteCount then (.error (.exit 10012), p) else (.ok bytes, p)

/-- The loop of `writeBytes`: the offset it ends with. -/
def writeLoop (fuel : ℕ) (bytes : List UInt8) (offset : ℕ) (p : Process ν) :
    Except Ending ℕ × Process ν :=
  if offset < bytes.length then
    match send kernel fuel (bytes.drop offset) p with
    | (.error e, p) => (.error e, p)
    | (.ok sent, p) =>
      if 0 < sent then writeLoop fuel bytes (offset + sent.toNat) p else (.ok offset, p)
  else (.ok offset, p)
termination_by bytes.length - offset

/-- `writeBytes(bytes)`. -/
def writeBytes (fuel : ℕ) (bytes : List UInt8) (p : Process ν) : Except Ending Unit × Process ν :=
  match writeLoop kernel fuel bytes 0 p with
  | (.error e, p) => (.error e, p)
  | (.ok offset, p) => if offset ≠ bytes.length then (.error (.exit 10013), p) else (.ok (), p)

/-- A program of the client over the system calls. -/
def handler (fuel : ℕ) : Handler Ending ν (Process ν) where
  read byteCount p := readBytes kernel fuel byteCount p
  write bytes p := writeBytes kernel fuel bytes p
  note event p := { p with log := p.log ++ [⟨event, p.inbound, p.wire⟩] }

end CSimpleSocket

end CodeTroopers
