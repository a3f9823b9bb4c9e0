import CodeTroopers.Client.Lockstep
import CodeTroopers.Client.Parser
import Mathlib.Data.List.Rotate

set_option autoImplicit false

/-! # Words on a machine of the other byte order

`readInt`, `writeInt`, `readLong` and `writeLong` reverse the bytes of a word where the machine does
not keep them as the wire does. The reversal ends one byte early, `reverse(&bytes[0],
&bytes[size - 1])`: on a big-endian machine the word goes out rotated by one byte and is rotated
back when read (`wireBytes_big`, `wireValue_big`), so that such a client understands itself and
nobody else. `hostIndependent_iff` says for which words the machine makes no difference. -/

namespace CodeTroopers

open StreamProgram ByteOrder

namespace RemoteProcessClient

/-! ## Words -/

/-- The bytes written for a number of `k` bytes. -/
def wireBytes (host : Order) (k n : ℕ) : List UInt8 := fixOrder host k (store host k n)

/-- The number read from the bytes. -/
def wireValue (host : Order) (bytes : List UInt8) : ℕ :=
  load host (fixOrder host bytes.length bytes)

theorem isLittleEndianMachine_big : isLittleEndianMachine .big = false := by decide

theorem fixOrder_big (size : ℕ) (bytes : List UInt8) :
    fixOrder .big size bytes = reverseBytes size bytes := by
  rw [fixOrder, isLittleEndianMachine_big, littleEndianByteOrder, if_pos Bool.false_ne_true]

theorem reverseBytes_concat (bytes : List UInt8) (b : UInt8) :
    reverseBytes (bytes ++ [b]).length (bytes ++ [b]) = bytes.reverse ++ [b] := by
  have hsize : (bytes ++ [b]).length - 1 = bytes.length := by simp
  rw [reverseBytes, hsize, List.take_left, List.drop_left]

theorem wireBytes_little (k n : ℕ) : wireBytes .little k n = leBytes k n := by
  rw [wireBytes, fixOrder_little, store]

theorem wireBytes_big (k n : ℕ) : wireBytes .big k n = (leBytes k n).rotate 1 := by
  rw [wireBytes, fixOrder_big, store]
  have hlen := length_leBytes k n
  cases hbytes : leBytes k n with
  | nil =>
      simp [reverseBytes]
  | cons b bytes =>
      rw [hbytes] at hlen
      have hsize : k = (bytes.reverse ++ [b]).length := by simpa using hlen.symm
      rw [List.reverse_cons, hsize, reverseBytes_concat, List.reverse_reverse,
        List.rotate_cons_succ, List.rotate_zero]

theorem wireValue_little (bytes : List UInt8) : wireValue .little bytes = leValue bytes := by
  rw [wireValue, fixOrder_little, load]

theorem wireValue_big (bytes : List UInt8) : wireValue .big (bytes.rotate 1) = leValue bytes := by
  rw [wireValue, fixOrder_big, load]
  cases bytes with
  | nil => rfl
  | cons b bytes =>
      rw [List.rotate_cons_succ, List.rotate_zero, reverseBytes_concat, List.reverse_append,
        List.reverse_singleton, List.reverse_reverse, List.singleton_append]

/-- Rotating a word changes nothing if its bytes are all the same, and only then. -/
theorem rotate_eq_self_iff (bytes : List UInt8) : bytes.rotate 1 = bytes ↔ Uniform bytes :=
  List.rotate_one_eq_self_iff_eq_replicate

theorem wireBytes_eq_iff (host : Order) (k n : ℕ) :
    wireBytes host k n = leBytes k n ↔ host = .little ∨ Uniform (leBytes k n) := by
  cases host with
  | little => simp [wireBytes_little]
  | big => simp [wireBytes_big, rotate_eq_self_iff]

theorem uniform_rotate_iff (bytes : List UInt8) : Uniform (bytes.rotate 1) ↔ Uniform bytes := by
  rw [← rotate_eq_self_iff, ← rotate_eq_self_iff]
  exact (List.rotate_injective 1).eq_iff

theorem exists_rotate_eq (bytes : List UInt8) :
    ∃ before : List UInt8, bytes = before.rotate 1 := by
  rcases List.eq_nil_or_concat bytes with rfl | ⟨rest, b, rfl⟩
  · exact ⟨[], rfl⟩
  · exact ⟨b :: rest, by simp⟩

theorem wireValue_eq_iff (host : Order) (bytes : List UInt8) :
    wireValue host bytes = leValue bytes ↔ host = .little ∨ Uniform bytes := by
  cases host with
  | little => simp [wireValue_little]
  | big =>
      obtain ⟨before, rfl⟩ := exists_rotate_eq bytes
      rw [wireValue_big, leValue_inj (List.length_rotate before 1).symm, eq_comm,
        rotate_eq_self_iff, uniform_rotate_iff]
      simp

/-- Machines of different byte order agree on the words whose bytes are all the same. -/
theorem wireBytes_eq_wireBytes_iff (host host' : Order) (k n : ℕ) :
    wireBytes host k n = wireBytes host' k n ↔ host = host' ∨ Uniform (leBytes k n) := by
  have hbig := wireBytes_eq_iff .big k n
  cases host <;> cases host' <;> simp [wireBytes_little] at hbig ⊢
  · rw [eq_comm, hbig]
  · exact hbig

theorem wireValue_eq_wireValue_iff (host host' : Order) (bytes : List UInt8) :
    wireValue host bytes = wireValue host' bytes ↔ host = host' ∨ Uniform bytes := by
  have hbig := wireValue_eq_iff .big bytes
  cases host <;> cases host' <;> simp [wireValue_little] at hbig ⊢
  · rw [eq_comm, hbig]
  · exact hbig

theorem wireValue_lt (host : Order) (bytes : List UInt8) :
    wireValue host bytes < 256 ^ bytes.length := by
  have hlen : (fixOrder host bytes.length bytes).length = bytes.length := by
    cases host with
    | little => rw [fixOrder_little]
    | big =>
        rw [fixOrder_big, reverseBytes, List.length_append, List.length_reverse,
          ← List.length_append, List.take_append_drop]
  have hlt := load_lt host (fixOrder host bytes.length bytes)
  rwa [hlen] at hlt

/-! ## Reading and writing them -/

variable {ν : Type} (host : Order)

theorem writes_writeInt (n : Int32) :
    Writes (writeInt host n : Client ν Unit) (wireBytes host 4 n.toUInt32.toNat) :=
  writes_write _

theorem writes_writeLong (n : Int64) :
    Writes (writeLong host n : Client ν Unit) (wireBytes host 8 n.toUInt64.toNat) :=
  writes_write _

theorem writes_writeDouble (d : Double) :
    Writes (writeDouble host d : Client ν Unit) (wireBytes host 8 d.bits.toNat) := by
  have h := writes_writeLong (ν := ν) host d.bits.toInt64
  rwa [UInt64.toUInt64_toInt64] at h

variable {bytes : List UInt8}

theorem reads_readInt (hlen : bytes.length = 4) :
    Reads (readInt host : Client ν Int32) (UInt32.ofNat (wireValue host bytes)).toInt32 bytes := by
  have h := reads_read (ε := Ending) (ν := ν) (n := 4) (by decide)
    (fun bytes => (UInt32.ofNat (load host (fixOrder host 4 bytes))).toInt32) hlen
  rw [wireValue, hlen]
  exact h

theorem reads_readLong (hlen : bytes.length = 8) :
    Reads (readLong host : Client ν Int64) (UInt64.ofNat (wireValue host bytes)).toInt64 bytes := by
  have h := reads_read (ε := Ending) (ν := ν) (n := 8) (by decide)
    (fun bytes => (UInt64.ofNat (load host (fixOrder host 8 bytes))).toInt64) hlen
  rw [wireValue, hlen]
  exact h

theorem reads_readDouble (hlen : bytes.length = 8) :
    Reads (readDouble host : Client ν Double) ⟨UInt64.ofNat (wireValue host bytes)⟩ bytes := by
  have h := reads_read (ε := Ending) (ν := ν) (n := 8) (by decide)
    (fun bytes => (⟨(UInt64.ofNat (load host (fixOrder host 8 bytes))).toInt64.toUInt64⟩ : Double))
    hlen
  rw [UInt64.toUInt64_toInt64] at h
  rw [wireValue, hlen]
  exact h

theorem int_inj {u v : ℕ} (hu : u < 256 ^ 4) (hv : v < 256 ^ 4) :
    (UInt32.ofNat u).toInt32 = (UInt32.ofNat v).toInt32 ↔ u = v := by
  constructor
  · intro h
    have h' := congrArg (fun n => n.toUInt32.toNat) h
    simpa only [UInt32.toUInt32_toInt32, UInt32.toNat_ofNat_of_lt' hu,
      UInt32.toNat_ofNat_of_lt' hv] using h'
  · intro h
    rw [h]

theorem toInt64_inj {u v : UInt64} : u.toInt64 = v.toInt64 ↔ u = v := by
  constructor
  · intro h
    exact congrArg Int64.toUInt64 h
  · intro h
    rw [h]

theorem long_inj {u v : ℕ} (hu : u < 256 ^ 8) (hv : v < 256 ^ 8) :
    UInt64.ofNat u = UInt64.ofNat v ↔ u = v := by
  constructor
  · intro h
    have h' := congrArg UInt64.toNat h
    rwa [UInt64.toNat_ofNat_of_lt' hu, UInt64.toNat_ofNat_of_lt' hv] at h'
  · intro h
    rw [h]

end RemoteProcessClient

open RemoteProcessClient

section Law

variable (ν : Type) (host : Order)

/-- `writeInt` emits the little-endian bytes of the value. -/
def WritesInt (n : Int32) : Prop :=
  Writes (writeInt host n : Client ν Unit) (leBytes 4 n.toUInt32.toNat)

/-- `writeLong` emits the little-endian bytes of the value. -/
def WritesLong (n : Int64) : Prop :=
  Writes (writeLong host n : Client ν Unit) (leBytes 8 n.toUInt64.toNat)

/-- `writeDouble` emits the little-endian bytes of the bits of the value. -/
def WritesDouble (d : Double) : Prop :=
  Writes (writeDouble host d : Client ν Unit) (leBytes 8 d.bits.toNat)

/-- `readInt` returns what the bytes denote in little-endian order. -/
def ReadsInt (bytes : List UInt8) : Prop :=
  Reads (readInt host : Client ν Int32) (UInt32.ofNat (leValue bytes)).toInt32 bytes

/-- `readLong` returns what the bytes denote in little-endian order. -/
def ReadsLong (bytes : List UInt8) : Prop :=
  Reads (readLong host : Client ν Int64) (UInt64.ofNat (leValue bytes)).toInt64 bytes

/-- `readDouble` returns the double of the bits the bytes denote in little-endian order. -/
def ReadsDouble (bytes : List UInt8) : Prop :=
  Reads (readDouble host : Client ν Double) ⟨UInt64.ofNat (leValue bytes)⟩ bytes

end Law

/-- **Which words cross the wire unharmed.** A machine writes a word as its little-endian bytes, and
    reads bytes as the word they denote in little-endian order, if and only if it is little-endian
    or the bytes of the word are all the same. Two machines emit the same bytes for a word, and read
    the same word off some bytes, if and only if they have the same byte order or the bytes are all
    the same. -/
theorem hostIndependent_iff (ν : Type) (host host' : Order) :
    ((∀ n, WritesInt ν host n ↔ host = .little ∨ Uniform (leBytes 4 n.toUInt32.toNat)) ∧
      (∀ n, WritesLong ν host n ↔ host = .little ∨ Uniform (leBytes 8 n.toUInt64.toNat)) ∧
      (∀ d, WritesDouble ν host d ↔ host = .little ∨ Uniform (leBytes 8 d.bits.toNat)) ∧
      (∀ bytes, bytes.length = 4 → (ReadsInt ν host bytes ↔ host = .little ∨ Uniform bytes)) ∧
      (∀ bytes, bytes.length = 8 → (ReadsLong ν host bytes ↔ host = .little ∨ Uniform bytes) ∧
        (ReadsDouble ν host bytes ↔ host = .little ∨ Uniform bytes))) ∧
    (∀ n, (∃ bytes, Writes (writeInt host n : Client ν Unit) bytes ∧
        Writes (writeInt host' n : Client ν Unit) bytes)
      ↔ host = host' ∨ Uniform (leBytes 4 n.toUInt32.toNat)) ∧
    (∀ n, (∃ bytes, Writes (writeLong host n : Client ν Unit) bytes ∧
        Writes (writeLong host' n : Client ν Unit) bytes)
      ↔ host = host' ∨ Uniform (leBytes 8 n.toUInt64.toNat)) ∧
    (∀ bytes, bytes.length = 4 → ((∃ n, Reads (readInt host : Client ν Int32) n bytes ∧
        Reads (readInt host' : Client ν Int32) n bytes) ↔ host = host' ∨ Uniform bytes)) ∧
    ∀ bytes, bytes.length = 8 → ((∃ n, Reads (readLong host : Client ν Int64) n bytes ∧
        Reads (readLong host' : Client ν Int64) n bytes) ↔ host = host' ∨ Uniform bytes) := by
  refine ⟨⟨fun n => ?_, fun n => ?_, fun d => ?_, fun bytes hlen => ?_, fun bytes hlen => ?_⟩,
    fun n => ?_, fun n => ?_, fun bytes hlen => ?_, fun bytes hlen => ?_⟩
  · rw [WritesInt, (writes_writeInt host n).iff_eq, eq_comm, wireBytes_eq_iff]
  · rw [WritesLong, (writes_writeLong host n).iff_eq, eq_comm, wireBytes_eq_iff]
  · rw [WritesDouble, (writes_writeDouble host d).iff_eq, eq_comm, wireBytes_eq_iff]
  · rw [ReadsInt, (reads_readInt host hlen).iff_eq, int_inj (hlen ▸ leValue_lt bytes)
      (hlen ▸ wireValue_lt host bytes), eq_comm, wireValue_eq_iff]
  · rw [ReadsLong, (reads_readLong host hlen).iff_eq, ReadsDouble,
      (reads_readDouble host hlen).iff_eq, toInt64_inj, Double.mk.injEq,
      long_inj (hlen ▸ leValue_lt bytes) (hlen ▸ wireValue_lt host bytes), eq_comm,
      wireValue_eq_iff]
    exact ⟨Iff.rfl, Iff.rfl⟩
  · simp only [(writes_writeInt _ n).iff_eq, exists_eq_left, wireBytes_eq_wireBytes_iff]
  · simp only [(writes_writeLong _ n).iff_eq, exists_eq_left, wireBytes_eq_wireBytes_iff]
  · simp only [(reads_readInt _ hlen).iff_eq, exists_eq_left]
    rw [int_inj (hlen ▸ wireValue_lt host bytes) (hlen ▸ wireValue_lt host' bytes),
      wireValue_eq_wireValue_iff]
  · simp only [(reads_readLong _ hlen).iff_eq, exists_eq_left]
    rw [toInt64_inj, long_inj (hlen ▸ wireValue_lt host bytes)
      (hlen ▸ wireValue_lt host' bytes), wireValue_eq_wireValue_iff]

/-- The number one on a big-endian machine: it writes `2^24`, and reads the bytes of one as
    `2^8`. -/
theorem hostDependent_one :
    Writes (writeInt .big 1 : Client Event Unit) [0, 0, 0, 1] ∧
      Writes (writeInt .little 1 : Client Event Unit) [1, 0, 0, 0] ∧
      Reads (readInt .big : Client Event Int32) 256 [1, 0, 0, 0] ∧
      ¬ ∀ host n, WritesInt Event host n := by
  have hbig : Writes (writeInt .big 1 : Client Event Unit) [0, 0, 0, 1] := writes_writeInt .big 1
  refine ⟨hbig, writes_writeInt .little 1, reads_readInt .big rfl, fun h => ?_⟩
  exact absurd (hbig.unique (h .big 1)) (by decide)

end CodeTroopers
