import Mathlib.Algebra.Group.Nat.Defs

set_option autoImplicit false

/-! # Byte orders

The bytes of a number in memory, for both byte orders of a machine: `store` is what copying the
number into a byte buffer leaves there and `load` the number that copying a buffer back gives.
`leBytes` and `leValue` are the little-endian digits, and each of the two pairs is inverse. -/

namespace ByteOrder

/-- The `k` low bytes of a number, the lowest first. -/
def leBytes : ℕ → ℕ → List UInt8
  | 0, _ => []
  | k + 1, n => UInt8.ofNat n :: leBytes k (n / 256)

/-- The number with the given bytes, the lowest first. -/
def leValue : List UInt8 → ℕ
  | [] => 0
  | b :: bytes => b.toNat + 256 * leValue bytes

@[simp] theorem length_leBytes (k n : ℕ) : (leBytes k n).length = k := by
  induction k generalizing n with
  | zero => rfl
  | succ k ih => rw [leBytes, List.length_cons, ih]

theorem leValue_lt (bytes : List UInt8) : leValue bytes < 256 ^ bytes.length := by
  induction bytes with
  | nil => simp [leValue]
  | cons b bytes ih =>
      have hb := b.toNat_lt
      rw [leValue, List.length_cons, Nat.pow_succ]
      omega

theorem leValue_leBytes (k n : ℕ) (h : n < 256 ^ k) : leValue (leBytes k n) = n := by
  induction k generalizing n with
  | zero =>
      rw [Nat.pow_zero] at h
      simp only [leBytes, leValue]
      omega
  | succ k ih =>
      have hdiv : n / 256 < 256 ^ k := by
        rw [Nat.pow_succ] at h
        omega
      rw [leBytes, leValue, ih _ hdiv, UInt8.toNat_ofNat']
      omega

theorem leBytes_leValue (bytes : List UInt8) : leBytes bytes.length (leValue bytes) = bytes := by
  induction bytes with
  | nil => rfl
  | cons b bytes ih =>
      have hb := b.toNat_lt
      have hhead : UInt8.ofNat (b.toNat + 256 * leValue bytes) = b := by
        apply UInt8.toNat_inj.mp
        rw [UInt8.toNat_ofNat']
        omega
      have htail : (b.toNat + 256 * leValue bytes) / 256 = leValue bytes := by omega
      rw [List.length_cons, leValue, leBytes, hhead, htail, ih]

theorem leValue_inj {u v : List UInt8} (hlen : u.length = v.length) :
    leValue u = leValue v ↔ u = v := by
  constructor
  · intro h
    rw [← leBytes_leValue u, h, hlen, leBytes_leValue]
  · intro h
    rw [h]

/-- All bytes of the word are the same. -/
def Uniform (bytes : List UInt8) : Prop := ∃ b, bytes = List.replicate bytes.length b

/-- The byte order of a machine. -/
inductive Order where
  | little
  | big
deriving DecidableEq

/-- The `k` bytes of a number in the machine's memory. -/
def store : Order → ℕ → ℕ → List UInt8
  | .little, k, n => leBytes k n
  | .big, k, n => (leBytes k n).reverse

/-- The number the bytes of the machine's memory stand for. -/
def load : Order → List UInt8 → ℕ
  | .little, bytes => leValue bytes
  | .big, bytes => leValue bytes.reverse

@[simp] theorem length_store (host : Order) (k n : ℕ) : (store host k n).length = k := by
  cases host with
  | little => exact length_leBytes k n
  | big => rw [store, List.length_reverse, length_leBytes]

theorem load_store (host : Order) (k n : ℕ) (h : n < 256 ^ k) : load host (store host k n) = n := by
  cases host with
  | little => exact leValue_leBytes k n h
  | big => rw [load, store, List.reverse_reverse, leValue_leBytes k n h]

theorem store_load (host : Order) {k : ℕ} {bytes : List UInt8} (h : bytes.length = k) :
    store host k (load host bytes) = bytes := by
  cases host with
  | little => exact h ▸ leBytes_leValue bytes
  | big =>
      have hbytes := leBytes_leValue bytes.reverse
      rw [List.length_reverse, h] at hbytes
      rw [load, store, hbytes, List.reverse_reverse]

theorem load_lt (host : Order) (bytes : List UInt8) : load host bytes < 256 ^ bytes.length := by
  cases host with
  | little => exact leValue_lt bytes
  | big => simpa [load] using leValue_lt bytes.reverse

end ByteOrder
