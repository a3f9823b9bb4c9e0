import CodeTroopers.Client.SystemCalls

set_option autoImplicit false

/-! # The program

`main`, with the calls that open the connection: the constructor of `RemoteProcessClient`, and
`Initialize`, `DisableNagleAlgoritm`, `Open` and `Close` of the socket. `Network` is the other side
of these calls. `main_cases` says what the program does as a whole: it exits with 10001 before
anything is read or written, or it is connected to the host and the port of its arguments and runs
the session as over a stream, until a call fails or a signal kills the process. -/

namespace CodeTroopers

open StreamProgram ByteOrder

/-- What `gethostbyname` finds: the first address of the host, as it is in memory. -/
inductive HostEntry where
  | found (address : UInt32)
  | hostNotFound
  | failed

/-- The fields of `sockaddr_in` that the client sets, as they are in memory. -/
structure SockAddr where
  address : UInt32
  port : UInt16

/-- The calls that open and close a connection; `none` is a success. Setting an option is never
    interrupted. -/
structure Network where
  socket : Option Errno
  setsockopt : Option {errno : Errno // errno ≠ .eintr}
  gethostbyname : List UInt8 → HostEntry
  connect : SockAddr → Option Errno
  close : Option Errno

/-- `htons`: the bytes of the number in memory are in network order. -/
def htons (host : Order) (n : UInt16) : UInt16 := UInt16.ofNat (load host (store .big 2 n.toNat))

/-- The port that is meant. -/
def SockAddr.portNumber (host : Order) (addr : SockAddr) : ℕ :=
  load .big (store host 2 addr.port.toNat)

/-! ## The standard library -/

/-- `isspace` of the C locale. -/
def isspace (c : UInt8) : Bool := c = 32 ∨ 9 ≤ c ∧ c ≤ 13

def isdigit (c : UInt8) : Bool := 48 ≤ c ∧ c ≤ 57

/-- The number the decimal digits at the front stand for. -/
def digitsValue (s : List UInt8) : ℕ :=
  (s.takeWhile isdigit).foldl (fun n c => 10 * n + (c.toNat - 48)) 0

/-- `strtol` with base 10, which cuts off what is too large for a `long`. -/
def strtol (s : List UInt8) : Int :=
  match s.dropWhile isspace with
  | 45 :: digits => max (-(digitsValue digits : Int)) (-2 ^ 63)
  | 43 :: digits => min (digitsValue digits : Int) (2 ^ 63 - 1)
  | digits => min (digitsValue digits : Int) (2 ^ 63 - 1)

/-- `atoi`: the `long` as an `int`. -/
def atoi (s : List UInt8) : Int32 := Int32.ofInt (strtol s)

/-! ## Opening and closing -/

namespace CSimpleSocket

variable {ν : Type} (network : Network)

/-- The constructor, with the process and the connection as they are by then. -/
def construct (errno : Errno) (inbound : List UInt8) : Process ν where
  socket := false
  socketErrno := .socketInvalidSocket
  pBuffer := none
  nBufferSize := 0
  nBytesReceived := -1
  nBytesSent := -1
  errno := errno
  inbound := inbound
  wire := []
  log := []
  receives := 0
  sends := 0

/-- `Initialize`. -/
def initializeSocket (p : Process ν) : Bool × Process ν :=
  let p := { p with errno := .success }
  let p :=
    match network.socket with
    | none => { p with socket := true }
    | some errno => { p with socket := false, errno := errno }
  let p := translateSocketError p
  (isSocketValid p, p)

/-- `DisableNagleAlgoritm`. -/
def disableNagleAlgoritm (p : Process ν) : Bool × Process ν :=
  match if p.socket then network.setsockopt else some ⟨.ebadf, by decide⟩ with
  | none => (true, translateSocketError p)
  | some errno => (false, translateSocketError { p with errno := errno })

/-- `Close`. -/
def close (p : Process ν) : Bool × Process ν :=
  let p := { p with pBuffer := none }
  if isSocketValid p then
    match network.close with
    | none => (true, translateSocketError { p with socket := false })
    | some errno => (false, translateSocketError { p with errno := errno })
  else (false, translateSocketError p)

end CSimpleSocket

namespace CActiveSocket

open CSimpleSocket

variable {ν : Type} (host : Order) (network : Network)

/-- `ConnectTCP`. -/
def connectTCP (pAddr : List UInt8) (nPort : Int16) (p : Process ν) : Bool × Process ν :=
  match network.gethostbyname pAddr with
  | .hostNotFound => (false, setSocketError .socketInvalidAddress p)
  | .failed => (false, p)
  | .found address =>
    if address = 0xffffffff then (false, translateSocketError p)
    else
      match network.connect ⟨address, htons host nPort.toUInt16⟩ with
      | some errno => (false, translateSocketError { p with errno := errno })
      | none => (true, translateSocketError p)

/-- `Open`. -/
def openSocket (pAddr : List UInt8) (nPort : Int16) (p : Process ν) : Bool × Process ν :=
  if isSocketValid p = false then (false, setSocketError .socketInvalidSocket p)
  else if nPort = 0 then (false, setSocketError .socketInvalidPort p)
  else
    match connectTCP host network pAddr nPort p with
    | (true, p) => (true, setSocketError .socketSuccess p)
    | (false, p) => (false, p)

end CActiveSocket

/-- The constructor of `RemoteProcessClient`. -/
def RemoteProcessClient.connect {ν : Type} (host : Order) (network : Network)
    (hostName : List UInt8) (port : Int32) (p : Process ν) : Except Ending Unit × Process ν :=
  let p := (CSimpleSocket.initializeSocket network p).2
  let p := (CSimpleSocket.disableNagleAlgoritm network p).2
  match CActiveSocket.openSocket host network hostName port.toInt16 p with
  | (true, p) => (.ok (), p)
  | (false, p) => (.error (.exit 10001), p)

/-- The bytes of a string of the source. -/
def ascii (s : String) : List UInt8 := s.toList.map fun c => UInt8.ofNat c.toNat

/-- What the constructor of `Runner` is given. -/
structure Runner.Parameters where
  host : List UInt8
  port : List UInt8
  token : List UInt8

namespace Runner

variable {σ : Type} (host : Order) (network : Network) (kernel : Kernel) (fuel : ℕ)
  (family : ℕ → Strategy σ) (s : σ)

/-- The parameters of `main`, from the arguments behind the name of the program. -/
def parameters : List (List UInt8) → Parameters
  | [host, port, token] => ⟨host, port, token⟩
  | _ => ⟨ascii "127.0.0.1", ascii "31001", ascii "0000000000000000"⟩

/-- The end of the block in which the runner lives: its socket is closed, unless `exit` was
    called. -/
def leave : Except Ending Unit × Process Event → Except Ending Unit × Process Event
  | (.error e, p) => (.error e, p)
  | (.ok _, p) => (.ok (), (CSimpleSocket.close network p).2)

/-- `main`. -/
def main (arguments : List (List UInt8)) (p : Process Event) : Except Ending Unit × Process Event :=
  let runner := parameters arguments
  match RemoteProcessClient.connect host network runner.host (atoi runner.port) p with
  | (.error e, p) => (.error e, p)
  | (.ok _, p) =>
    leave network (StreamProgram.run (CSimpleSocket.handler kernel fuel)
      (session host runner.token family s p.inbound) p)

end Runner

/-! ## The address -/

theorem htons_lt (host : Order) (n : UInt16) :
    (htons host n).toNat = load host (store .big 2 n.toNat) := by
  have hlt := load_lt host (store .big 2 n.toNat)
  rw [length_store] at hlt
  rw [htons, UInt16.toNat_ofNat']
  omega

/-- The port that is meant is the one given, on a machine of either byte order. -/
theorem portNumber_eq_iff (host : Order) (addr : SockAddr) (n : UInt16) :
    addr.portNumber host = n.toNat ↔ addr.port = htons host n := by
  have hn : n.toNat < 256 ^ 2 := n.toNat_lt
  have hport : addr.port.toNat < 256 ^ 2 := addr.port.toNat_lt
  constructor
  · intro h
    have hbytes : store .big 2 n.toNat = store host 2 addr.port.toNat := by
      rw [← h, SockAddr.portNumber, store_load .big (length_store ..)]
    rw [← UInt16.toNat_inj, htons_lt, hbytes, load_store host 2 _ hport]
  · intro h
    rw [SockAddr.portNumber, h, htons_lt, store_load host (length_store ..), load_store .big 2 _ hn]

theorem toNat_toInt16 (port : Int32) :
    (port.toInt16.toUInt16.toNat : Int) = port.toInt % 65536 := by
  have hcut : port.toInt16.toUInt16.toNat = port.toBitVec.toNat % 2 ^ 16 := by
    show (port.toBitVec.signExtend 16).toNat = _
    rw [BitVec.signExtend_eq_setWidth_of_le _ (by decide), BitVec.toNat_setWidth]
  have hval : port.toInt = if 2 * port.toBitVec.toNat < 2 ^ 32 then (port.toBitVec.toNat : Int)
      else (port.toBitVec.toNat : Int) - (2 ^ 32 : ℕ) := BitVec.toInt_eq_toNat_cond port.toBitVec
  rw [hcut]
  split_ifs at hval <;> omega

theorem toInt16_eq_zero_iff (port : Int32) :
    port.toInt16 = 0 ↔ port.toInt16.toUInt16.toNat = 0 := by
  constructor
  · intro h
    rw [h]
    rfl
  · intro h
    have hzero : port.toInt16.toUInt16 = 0 := UInt16.toNat_inj.mp h
    rw [← Int16.toInt16_toUInt16 port.toInt16, hzero]
    rfl

/-- The connection the program is to make. -/
structure Connects (host : Order) (network : Network) (runner : Runner.Parameters)
    (addr : SockAddr) : Prop where
  socket : network.socket = none
  resolved : network.gethostbyname runner.host = .found addr.address
  address : addr.address ≠ 0xffffffff
  port : (addr.portNumber host : Int) = (atoi runner.port).toInt % 65536
  nonzero : addr.portNumber host ≠ 0
  connected : network.connect addr = none

theorem Connects.eq {host : Order} {network : Network} {runner : Runner.Parameters}
    {addr : SockAddr} (h : Connects host network runner addr) :
    addr.port = htons host (atoi runner.port).toInt16.toUInt16 ∧
      (atoi runner.port).toInt16 ≠ 0 := by
  have hport : addr.portNumber host = (atoi runner.port).toInt16.toUInt16.toNat := by
    have hcast := toNat_toInt16 (atoi runner.port)
    rw [← h.port] at hcast
    exact (Int.ofNat_inj.mp hcast).symm
  refine ⟨(portNumber_eq_iff host addr _).mp hport, fun hzero => h.nonzero ?_⟩
  rw [hport]
  exact (toInt16_eq_zero_iff _).mp hzero

namespace CSimpleSocket

variable {ν : Type}

/-- Nothing has gone over the connection. -/
structure Untouched (p p' : Process ν) : Prop where
  inbound_eq : p'.inbound = p.inbound
  wire_eq : p'.wire = p.wire
  log_eq : p'.log = p.log
  receives_eq : p'.receives = p.receives
  sends_eq : p'.sends = p.sends

/-- `Initialize` and `DisableNagleAlgoritm` leave a socket that is ready if the system gives one. -/
theorem initialized (network : Network) (p : Process ν) (hbuffer : p.pBuffer = none) :
    ∃ p', (disableNagleAlgoritm network (initializeSocket network p).2).2 = p' ∧ Untouched p p' ∧
      ((network.socket = none ∧ Ready p') ∨ (network.socket ≠ none ∧ p'.socket = false)) := by
  have hnone : ∀ errno : Errno, ∀ error, errno ≠ .eintr →
      Ready { p with socket := true, errno := errno, socketErrno := error } := fun errno error h =>
    ⟨rfl, h, by simp [hbuffer]⟩
  cases hsocket : network.socket with
  | some errno =>
      simp only [initializeSocket, disableNagleAlgoritm, hsocket, translateSocketError,
        setSocketError]
      exact ⟨_, rfl, ⟨rfl, rfl, rfl, rfl, rfl⟩, Or.inr ⟨by simp, rfl⟩⟩
  | none =>
      cases hoption : network.setsockopt with
      | none =>
          simp only [initializeSocket, disableNagleAlgoritm, hsocket, hoption,
            translateSocketError, setSocketError]
          exact ⟨_, rfl, ⟨rfl, rfl, rfl, rfl, rfl⟩, Or.inl ⟨trivial, hnone .success _ (by decide)⟩⟩
      | some errno =>
          simp only [initializeSocket, disableNagleAlgoritm, hsocket, hoption,
            translateSocketError, setSocketError]
          exact ⟨_, rfl, ⟨rfl, rfl, rfl, rfl, rfl⟩, Or.inl ⟨trivial, hnone errno.1 _ errno.2⟩⟩

theorem untouched_close (network : Network) (p : Process ν) :
    Untouched p (close network p).2 := by
  cases hvalid : p.socket with
  | false =>
      simp only [close, isSocketValid, hvalid, translateSocketError, setSocketError,
        Bool.false_eq_true, if_false]
      exact ⟨rfl, rfl, rfl, rfl, rfl⟩
  | true =>
      cases hclose : network.close <;>
        simp only [close, isSocketValid, hvalid, hclose, translateSocketError, setSocketError] <;>
        exact ⟨rfl, rfl, rfl, rfl, rfl⟩

end CSimpleSocket

open CSimpleSocket in
/-- The constructor of the client opens the connection, or exits. -/
theorem connect_cases {ν : Type} (host : Order) (network : Network) (runner : Runner.Parameters)
    (p : Process ν) (hbuffer : p.pBuffer = none) :
    ∃ r p', RemoteProcessClient.connect host network runner.host (atoi runner.port) p = (r, p') ∧
      Untouched p p' ∧
      ((r = .ok () ∧ Ready p' ∧ ∃ addr, Connects host network runner addr) ∨
        (r = .error (.exit 10001) ∧ ∀ addr, ¬ Connects host network runner addr)) := by
  obtain ⟨q, hq, huntouched, hcases⟩ := initialized network p hbuffer
  rw [RemoteProcessClient.connect, hq]
  rcases hcases with ⟨hsocket, hready⟩ | ⟨hsocket, hinvalid⟩
  · have hvalid : ¬ isSocketValid q = false := by simp [isSocketValid, hready.valid]
    have hleft : ∀ q' : Process ν, q'.inbound = q.inbound → q'.wire = q.wire → q'.log = q.log →
        q'.receives = q.receives → q'.sends = q.sends → Untouched p q' := fun q' h₁ h₂ h₃ h₄ h₅ =>
      ⟨h₁.trans huntouched.inbound_eq, h₂.trans huntouched.wire_eq, h₃.trans huntouched.log_eq,
        h₄.trans huntouched.receives_eq, h₅.trans huntouched.sends_eq⟩
    rw [CActiveSocket.openSocket, if_neg hvalid]
    by_cases hzero : (atoi runner.port).toInt16 = 0
    · rw [if_pos hzero]
      exact ⟨_, _, rfl, hleft _ rfl rfl rfl rfl rfl, Or.inr ⟨rfl, fun addr h => h.eq.2 hzero⟩⟩
    rw [if_neg hzero, CActiveSocket.connectTCP]
    cases hhost : network.gethostbyname runner.host with
    | hostNotFound =>
        exact ⟨_, _, rfl, hleft _ rfl rfl rfl rfl rfl, Or.inr ⟨rfl, fun addr h => by
          simpa [hhost] using h.resolved⟩⟩
    | failed =>
        exact ⟨_, _, rfl, huntouched, Or.inr ⟨rfl, fun addr h => by
          simpa [hhost] using h.resolved⟩⟩
    | found address =>
        dsimp only
        have heq : ∀ addr, Connects host network runner addr →
            addr = ⟨address, htons host (atoi runner.port).toInt16.toUInt16⟩ := fun addr h => by
          have haddress := h.resolved
          rw [hhost, HostEntry.found.injEq] at haddress
          obtain ⟨a, port⟩ := addr
          have hport : port = _ := h.eq.1
          rw [hport, haddress]
        by_cases hnone : address = 0xffffffff
        · rw [if_pos hnone]
          refine ⟨_, _, rfl, hleft _ rfl rfl rfl rfl rfl, Or.inr ⟨rfl, fun addr h => ?_⟩⟩
          have haddress := h.address
          rw [heq addr h] at haddress
          exact haddress hnone
        rw [if_neg hnone]
        cases hconnect : network.connect
            ⟨address, htons host (atoi runner.port).toInt16.toUInt16⟩ with
        | some errno =>
            refine ⟨_, _, rfl, hleft _ rfl rfl rfl rfl rfl, Or.inr ⟨rfl, fun addr h => ?_⟩⟩
            have hconnected := h.connected
            rw [heq addr h, hconnect] at hconnected
            simp at hconnected
        | none =>
            have hport := (portNumber_eq_iff host
              ⟨address, htons host (atoi runner.port).toInt16.toUInt16⟩ _).mpr rfl
            refine ⟨_, _, rfl, hleft _ rfl rfl rfl rfl rfl, Or.inl ⟨rfl,
              ⟨hready.valid, hready.errno, hready.buffer⟩, _, hsocket, hhost, hnone, ?_, ?_,
              hconnect⟩⟩
            · rw [hport, toNat_toInt16]
            · rw [hport]
              exact fun h => hzero ((toInt16_eq_zero_iff _).mpr h)
  · have hvalid : isSocketValid q = false := hinvalid
    rw [CActiveSocket.openSocket, if_pos hvalid]
    exact ⟨_, _, rfl, ⟨huntouched.inbound_eq, huntouched.wire_eq, huntouched.log_eq,
      huntouched.receives_eq, huntouched.sends_eq⟩,
      Or.inr ⟨rfl, fun addr h => hsocket h.socket⟩⟩

/-! ## The program as a whole -/

section Main

open CSimpleSocket

variable {σ : Type} (host : Order) (network : Network) (kernel : Kernel) (fuel : ℕ)
  (family : ℕ → Strategy σ) (s : σ)

theorem alike_leave {run : Except Ending Unit × Process Event}
    {ideal : Except Ending Unit × Stream Event}
    (h : Alike (InStep kernel) (Broken kernel) run ideal) :
    Alike (Matches kernel) (Broken kernel) (Runner.leave network run) ideal := by
  obtain ⟨answer, p⟩ := run
  rcases h with ⟨hend, hstep⟩ | ⟨e, hend, hbroken⟩
  · dsimp only at hend hstep
    cases answer with
    | error e => exact Or.inl ⟨hend, hstep.toMatches⟩
    | ok _ =>
        have hclose := untouched_close network p
        exact Or.inl ⟨hend, hclose.inbound_eq.trans hstep.inbound_eq,
          hclose.wire_eq.trans hstep.wire_eq, hclose.log_eq.trans hstep.log_eq,
          fun i hi => hstep.received i (hclose.receives_eq ▸ hi),
          fun i hi => hstep.sent i (hclose.sends_eq ▸ hi)⟩
  · obtain rfl : answer = .error e := hend
    exact Or.inr ⟨e, rfl, hbroken⟩

/-- The program exits, or it is connected and does what a session over a stream does until a call
    fails. -/
theorem main_alike (arguments : List (List UInt8)) (errno : Errno) (inbound : List UInt8) :
    ((∀ addr, ¬ Connects host network (Runner.parameters arguments) addr) ∧
      ∃ p, Runner.main host network kernel (fuel + 1) family s arguments (construct errno inbound)
          = (.error (.exit 10001), p) ∧ Untouched (construct errno inbound) p) ∨
    ((∃ addr, Connects host network (Runner.parameters arguments) addr) ∧
      Alike (Matches kernel) (Broken kernel)
        (Runner.main host network kernel (fuel + 1) family s arguments (construct errno inbound))
        (runStream (Runner.session host (Runner.parameters arguments).token family s inbound)
          (freshStream inbound))) := by
  obtain ⟨answer, p, hconnect, huntouched, hcases⟩ := connect_cases host network
    (Runner.parameters arguments) (construct errno inbound : Process Event) rfl
  rw [Runner.main, hconnect]
  rcases hcases with ⟨rfl, hready, haddr⟩ | ⟨rfl, hnone⟩
  · have hin : p.inbound = inbound := huntouched.inbound_eq
    have hreceives : p.receives = 0 := huntouched.receives_eq
    have hsends : p.sends = 0 := huntouched.sends_eq
    have hstart : InStep kernel p (freshStream inbound) :=
      ⟨⟨hin, huntouched.wire_eq, huntouched.log_eq, by simp [hreceives], by simp [hsends]⟩, hready⟩
    dsimp only
    rw [hin]
    exact Or.inr ⟨haddr, alike_leave network kernel
      (run_follows (handler_follows kernel fuel) _ p (freshStream inbound) hstart)⟩
  · exact Or.inl ⟨hnone, p, rfl, huntouched⟩

/-- **What the program does.** If the connection its arguments ask for cannot be made, it exits with
    10001 before anything is read or written. Otherwise it does over the connection what a session
    does over a stream, or a call of `recv` or `send` has failed. Then it has completed the first
    messages of that session only; unless a call was interrupted, it exits with 10012 or 10013 or is
    killed during the call (by `SIGPIPE`, when `send` finds the connection closed), and what it has
    written is the beginning of what the session writes. -/
theorem main_cases (arguments : List (List UInt8)) (errno : Errno) (inbound : List UInt8) :
    let runner := Runner.parameters arguments
    let r := Runner.main host network kernel (fuel + 1) family s arguments (construct errno inbound)
    let ideal := runStream (Runner.session host runner.token family s inbound) (freshStream inbound)
    ((∀ addr, ¬ Connects host network runner addr) ∧ r.1 = .error (.exit 10001) ∧
      r.2.inbound = inbound ∧ r.2.wire = [] ∧ r.2.log = []) ∨
    (∃ addr, Connects host network runner addr) ∧
      ((r.1 = ideal.1 ∧ r.2.inbound = ideal.2.inbound ∧ r.2.wire = ideal.2.outbound ∧
          r.2.log = ideal.2.log) ∨
        r.2.log <+: ideal.2.log ∧
          (r.1 = .error (.exit 10012) ∧ r.2.wire <+: ideal.2.outbound ∧
              (∃ i < r.2.receives, ∃ errno, kernel.recv i = .fails errno) ∨
            r.1 = .error (.exit 10013) ∧ r.2.wire <+: ideal.2.outbound ∧
              (∃ i < r.2.sends, ∃ errno, kernel.send i = .fails errno) ∨
            r.1 = .error .killed ∧ r.2.wire <+: ideal.2.outbound ∧
              ((∃ i < r.2.receives, kernel.recv i = .kills) ∨
                ∃ i < r.2.sends, kernel.send i = .kills) ∨
            (∃ i < r.2.receives, kernel.recv i = .fails .eintr) ∨
            ∃ i < r.2.sends, kernel.send i = .fails .eintr)) := by
  intro runner r ideal
  rcases main_alike host network kernel fuel family s arguments errno inbound with
    ⟨hnone, p, hr, huntouched⟩ | ⟨haddr, ⟨hend, h⟩ | ⟨e, hend, hbroken⟩⟩
  · refine Or.inl ⟨hnone, ?_⟩
    simp only [r, hr]
    exact ⟨trivial, huntouched.inbound_eq, huntouched.wire_eq, huntouched.log_eq⟩
  · exact Or.inr ⟨haddr, Or.inl ⟨hend, h.inbound_eq, h.wire_eq, h.log_eq⟩⟩
  · refine Or.inr ⟨haddr, Or.inr ⟨hbroken.log_prefix, ?_⟩⟩
    rcases hbroken.cause with ⟨hfailure, hsent⟩ | ⟨hfailure, _⟩
    · have hprefix := hbroken.wire_prefix (uninterrupted_of_succeeds hsent)
      cases hfailure with
      | short hi h => exact Or.inl ⟨hend, hprefix, _, hi, _, h⟩
      | outside hi h => exact Or.inr (Or.inr (Or.inr (Or.inl ⟨_, hi, h⟩)))
      | endless hi h => exact Or.inr (Or.inr (Or.inr (Or.inl ⟨_, hi, h⟩)))
      | killed hi h => exact Or.inr (Or.inr (Or.inl ⟨hend, hprefix, Or.inl ⟨_, hi, h⟩⟩))
    · by_cases hall : Uninterrupted kernel r.2.sends
      · have hprefix := hbroken.wire_prefix hall
        cases hfailure with
        | unsent hi h => exact Or.inr (Or.inl ⟨hend, hprefix, _, hi, _, h⟩)
        | endless hi h => exact absurd h (hall _ hi)
        | killed hi h => exact Or.inr (Or.inr (Or.inl ⟨hend, hprefix, Or.inr ⟨_, hi, h⟩⟩))
      · simp only [Uninterrupted, not_forall, not_not] at hall
        obtain ⟨i, hi, hintr⟩ := hall
        exact Or.inr (Or.inr (Or.inr (Or.inr ⟨i, hi, hintr⟩)))

/-- **The program does not survive an interruption**: if a call of `recv` or `send` was interrupted,
    it never returns. It exits because the repeated call has failed in another way, is killed during
    it, stores bytes outside the receive buffer, or repeats the call for as many rounds as it
    may. -/
theorem main_interrupted (arguments : List (List UInt8)) (errno : Errno) (inbound : List UInt8) :
    let r := Runner.main host network kernel (fuel + 1) family s arguments (construct errno inbound)
    ((∃ i < r.2.receives, kernel.recv i = .fails .eintr) →
      r.1 = .error (.exit 10012) ∨ r.1 = .error .killed ∨ r.1 = .error .undefined ∨
        r.1 = .error .outOfFuel) ∧
    ((∃ i < r.2.sends, kernel.send i = .fails .eintr) →
      r.1 = .error (.exit 10013) ∨ r.1 = .error .killed ∨ r.1 = .error .outOfFuel) := by
  intro r
  have hnot : ∀ {t : Transfer}, t.Succeeds → t ≠ .fails .eintr := by
    rintro _ h rfl
    exact h
  rcases main_alike host network kernel fuel family s arguments errno inbound with
    ⟨_, p, hr, huntouched⟩ | ⟨_, ⟨_, h⟩ | ⟨e, hend, hbroken⟩⟩
  · -- no call at all
    simp only [r, hr, huntouched.receives_eq, huntouched.sends_eq]
    exact ⟨fun ⟨i, hi, _⟩ => absurd hi (Nat.not_lt_zero i),
      fun ⟨i, hi, _⟩ => absurd hi (Nat.not_lt_zero i)⟩
  · exact ⟨fun ⟨i, hi, hintr⟩ => absurd hintr (hnot (h.received i hi)),
      fun ⟨i, hi, hintr⟩ => absurd hintr (hnot (h.sent i hi))⟩
  · have hr : r.1 = .error e := hend
    rw [hr]
    rcases hbroken.cause with ⟨hfailure, hsent⟩ | ⟨hfailure, hreceived⟩
    · refine ⟨fun _ => ?_, fun ⟨i, hi, hintr⟩ => absurd hintr (hnot (hsent i hi))⟩
      cases hfailure with
      | short => exact Or.inl rfl
      | killed => exact Or.inr (Or.inl rfl)
      | outside => exact Or.inr (Or.inr (Or.inl rfl))
      | endless => exact Or.inr (Or.inr (Or.inr rfl))
    · refine ⟨fun ⟨i, hi, hintr⟩ => absurd hintr (hnot (hreceived i hi)), fun _ => ?_⟩
      cases hfailure with
      | unsent => exact Or.inl rfl
      | killed => exact Or.inr (Or.inl rfl)
      | endless => exact Or.inr (Or.inr rfl)

end Main

end CodeTroopers
