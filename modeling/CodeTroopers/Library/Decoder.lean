import CodeTroopers.Library.ByteOrder
import Mathlib.Data.List.Flatten

set_option autoImplicit false

/-! # Decoders

A decoder takes a value off the front of a row of bytes, or fails. `Decodes d a u` says that it
takes exactly the bytes `u` for the value, whatever comes behind; the rules derive this for a
decoder from its parts. A row of values is decoded one by one until the bytes are used up
(`decodesAll_many`), so that a stream determines its values (`DecodesAll.unique`). -/

namespace ByteDecoder

open ByteOrder

variable {α β : Type}

/-- The value, and the bytes behind it. -/
abbrev Decoder (α : Type) := StateT (List UInt8) Option α

/-! ## The parts of a message -/

/-- The next `n` bytes. -/
def bytes (n : ℕ) : Decoder (List UInt8) := fun input =>
  if n ≤ input.length then some (input.take n, input.drop n) else none

/-- The next byte. -/
def byte : Decoder UInt8 := do
  let one ← bytes 1
  pure (one.headD 0)

/-- A number of `k` bytes, the lowest first. -/
def word (k : ℕ) : Decoder ℕ := do
  let digits ← bytes k
  pure (leValue digits)

/-- The value, if there is one. -/
def lift (a : Option α) : Decoder α := fun input => a.map fun a => (a, input)

/-- Fails unless the condition holds. -/
def check (c : Prop) [Decidable c] : Decoder Unit := lift (if c then some () else none)

/-- One value after the other until the bytes are used up, with a bound on their number. -/
def many (d : Decoder α) : ℕ → Decoder (List α)
  | 0 => pure []
  | n + 1 => fun input =>
    if input = [] then some ([], [])
    else (do
      let a ← d
      let rest ← many d n
      pure (a :: rest)) input

/-! ## What they decode -/

/-- The decoder takes these bytes for the value, whatever comes behind. -/
def Decodes (d : Decoder α) (a : α) (u : List UInt8) : Prop :=
  ∀ rest, d (u ++ rest) = some (a, rest)

/-- The decoder takes these bytes for the value if nothing comes behind. -/
def DecodesAll (d : Decoder α) (a : α) (u : List UInt8) : Prop := d u = some (a, [])

theorem decodes_pure (a : α) : Decodes (pure a) a [] := fun _ => rfl

theorem Decodes.bind {d : Decoder α} {f : α → Decoder β} {a : α} {b : β} {u v : List UInt8}
    (hd : Decodes d a u) (hf : Decodes (f a) b v) : Decodes (d >>= f) b (u ++ v) := by
  intro rest
  show (d (u ++ v ++ rest)).bind (fun r => f r.1 r.2) = some (b, rest)
  rw [List.append_assoc, hd, Option.bind_some, hf]

theorem Decodes.bind_pure {d : Decoder α} {a : α} {u : List UInt8} (hd : Decodes d a u)
    (f : α → β) : Decodes (d >>= fun a => pure (f a)) (f a) u := by
  have h := hd.bind (f := fun a => pure (f a)) (decodes_pure (f a))
  rwa [List.append_nil] at h

theorem Decodes.bindAll {d : Decoder α} {f : α → Decoder β} {a : α} {b : β} {u v : List UInt8}
    (hd : Decodes d a u) (hf : DecodesAll (f a) b v) : DecodesAll (d >>= f) b (u ++ v) := by
  show (d (u ++ v)).bind (fun r => f r.1 r.2) = some (b, [])
  rw [hd, Option.bind_some]
  exact hf

theorem DecodesAll.bind_pure {d : Decoder α} {a : α} {u : List UInt8} (hd : DecodesAll d a u)
    (f : α → β) : DecodesAll (d >>= fun a => pure (f a)) (f a) u := by
  show (d u).bind (fun r => some (f r.1, r.2)) = some (f a, [])
  rw [hd, Option.bind_some]

theorem DecodesAll.unique {d : Decoder α} {a b : α} {u : List UInt8} (ha : DecodesAll d a u)
    (hb : DecodesAll d b u) : a = b :=
  (Prod.mk.inj (Option.some.inj (ha.symm.trans hb))).1

theorem decodes_bytes (u : List UInt8) : Decodes (bytes u.length) u u := by
  intro rest
  have hlen : u.length ≤ (u ++ rest).length := by simp
  rw [bytes, if_pos hlen, List.take_left, List.drop_left]

theorem decodes_byte (b : UInt8) : Decodes byte b [b] :=
  (decodes_bytes [b]).bind_pure fun one => one.headD 0

theorem decodes_word (k n : ℕ) (h : n < 256 ^ k) : Decodes (word k) n (leBytes k n) := by
  have hbytes := decodes_bytes (leBytes k n)
  rw [length_leBytes] at hbytes
  have hword := hbytes.bind_pure leValue
  rwa [leValue_leBytes k n h] at hword

theorem decodes_lift {o : Option α} {a : α} (h : o = some a) : Decodes (lift o) a [] := by
  intro rest
  rw [h]
  rfl

/-- Going on behind a check that is passed. -/
theorem Decodes.check_bind {c : Prop} [Decidable c] (h : c) {d : Decoder α} {a : α}
    {u : List UInt8} (hd : Decodes d a u) : Decodes (check c >>= fun _ => d) a u :=
  (decodes_lift (if_pos h)).bind hd

/-- **A row of values** whose bytes the decoder takes one by one. -/
theorem decodesAll_many {d : Decoder α} {encode : α → List UInt8}
    (hd : ∀ a, Decodes d a (encode a)) (hne : ∀ a, encode a ≠ []) {as : List α} {n : ℕ}
    (hn : as.length ≤ n) : DecodesAll (many d n) as (as.flatMap encode) := by
  induction n generalizing as with
  | zero =>
      obtain rfl : as = [] := List.eq_nil_of_length_eq_zero (by omega)
      rfl
  | succ n ih =>
      cases as with
      | nil => rfl
      | cons a as =>
          have hinput : (a :: as).flatMap encode ≠ [] := by simp [hne a]
          have hlen : as.length ≤ n := by simpa using hn
          have hrest := (ih hlen).bind_pure (a :: ·)
          rw [DecodesAll, many]
          refine (if_neg hinput).trans ?_
          rw [List.flatMap_cons]
          exact (hd a).bindAll hrest

theorem length_le_length_flatMap {encode : α → List UInt8} (hne : ∀ a, encode a ≠ [])
    (as : List α) : as.length ≤ (as.flatMap encode).length := by
  induction as with
  | nil => simp
  | cons a as ih =>
      have hpos := List.length_pos_iff.mpr (hne a)
      rw [List.flatMap_cons, List.length_append, List.length_cons]
      omega

end ByteDecoder
