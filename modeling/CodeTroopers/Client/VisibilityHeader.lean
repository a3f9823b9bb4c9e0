import CodeTroopers.Client.HostOrder

set_option autoImplicit false

/-! # The dimensions of the visibility table

`readCellVisibilities` checks the three dimensions for their sign, and asks for as many bytes as
their product in 32-bit arithmetic. From a product of `2^31` on the number it asks for is another
one (`count_ne_product`): a negative number ends the run in an exception, and any other one may be
served, so that the client goes on with a table of a wrong length and with the stream out of step.
`tableLaw_iff` says for which dimensions and which bytes behind them the client does neither. -/

namespace CodeTroopers

open StreamProgram ByteOrder RemoteProcessClient

/-! ## Reading the dimensions -/

theorem reads_intFrame {ν : Type} (host : Order) (n : Int32) :
    Reads (readInt host : Client ν Int32) n (intFrame host n) := by
  have hlen : (intFrame host n).length = 4 := by
    show (wireBytes host 4 n.toUInt32.toNat).length = 4
    cases host with
    | little => rw [wireBytes_little, length_leBytes]
    | big => rw [wireBytes_big, List.length_rotate, length_leBytes]
  have hvalue : wireValue host (intFrame host n) = n.toUInt32.toNat := by
    show wireValue host (wireBytes host 4 n.toUInt32.toNat) = n.toUInt32.toNat
    have hword := leValue_leBytes 4 _ n.toUInt32.toNat_lt
    cases host with
    | little => rw [wireBytes_little, wireValue_little, hword]
    | big => rw [wireBytes_big, wireValue_big, hword]
  have h := reads_readInt (ν := ν) host hlen
  rwa [hvalue, UInt32.ofNat_toNat, Int32.toInt32_toUInt32] at h

/-- The bytes the client reads as the three dimensions. -/
def headerFrame (host : Order) (h : VisibilityHeader) : List UInt8 :=
  intFrame host h.worldWidth ++ (intFrame host h.worldHeight ++ intFrame host h.stanceCount)

theorem run_readCellVisibilities {ν : Type} (host : Order) {h : VisibilityHeader}
    (hnonneg : h.Nonneg) {c : Stream ν} {following : List UInt8}
    (hin : c.inbound = headerFrame host h ++ following) :
    runStream (readCellVisibilities host none : Client ν (List Bool)) c
      = runStream ((readBytes h.count.toUInt32).bind fun raw =>
          .pure (raw.map fun b => decide (b ≠ 0))) { c with inbound := following } := by
  obtain ⟨hwidth, hheight, hstances⟩ := hnonneg
  rw [headerFrame, List.append_assoc, List.append_assoc] at hin
  rw [readCellVisibilities]
  simp only [Prog.bind_eq]
  rw [(reads_intFrame host h.worldWidth).run_bind hin, if_neg (Int32.not_lt.mpr hwidth),
    (reads_intFrame host h.worldHeight).run_bind rfl, if_neg (Int32.not_lt.mpr hheight),
    (reads_intFrame host h.stanceCount).run_bind rfl, if_neg (Int32.not_lt.mpr hstances)]
  rfl

/-! ## Reading the table -/

variable {h : VisibilityHeader}

theorem count_ne_product (hproduct : 2 ^ 31 ≤ h.product) : h.count.toInt ≠ h.product := by
  have := Int32.toInt_lt h.count
  omega

/-- The client asks for the number it has computed, or for more than it can be given. -/
theorem toNat_count (h : VisibilityHeader) :
    (0 ≤ h.count.toInt ∧ (h.count.toUInt32.toNat : Int) = h.count.toInt ∧
        h.count.toUInt32.toNat < 2 ^ 31) ∨
      (h.count.toInt < 0 ∧ 2 ^ 31 ≤ h.count.toUInt32.toNat) := by
  have hlt := Int32.toInt_lt h.count
  have hle := Int32.le_toInt h.count
  have hneg : h.count < 0 ↔ h.count.toInt < 0 := by rw [Int32.lt_iff_toInt_lt, Int32.toInt_zero]
  rw [toNat_toUInt32]
  split_ifs with hcount
  · rw [hneg] at hcount
    omega
  · rw [hneg] at hcount
    omega

/-- How the client ends that has been asked to read the table. -/
inductive TableRun (h : VisibilityHeader) (following : List UInt8) :
    Except Ending (List Bool) × List UInt8 → Prop
  | read {raw rest : List UInt8} (hcount : (raw.length : Int) = h.count.toInt)
      (hfollowing : following = raw ++ rest) :
      TableRun h following (.ok (raw.map fun b => decide (b ≠ 0)), rest)
  | short (hcount : (following.length : Int) < h.count.toInt) :
      TableRun h following (.error (.exit 10012), [])
  | overlong (hcount : h.count.toInt < 0) : TableRun h following (.error .abort, following)

theorem tableRun {ν : Type} (host : Order) (hnonneg : h.Nonneg) {c : Stream ν}
    {following : List UInt8} (hin : c.inbound = headerFrame host h ++ following) :
    ∃ r rest, TableRun h following (r, rest) ∧
      runStream (readCellVisibilities host none : Client ν (List Bool)) c
        = (r, { c with inbound := rest }) := by
  rw [run_readCellVisibilities host hnonneg hin, readBytes, Prog.bind, runStream, run]
  simp only [streamHandler, ConnectionEnds.limit]
  rcases toNat_count h with ⟨hcount, hnat, hlt⟩ | ⟨hcount, hle⟩
  · rw [if_neg (Nat.not_le.mpr hlt)]
    split_ifs with hlen
    · refine ⟨_, _, .read ?_ (List.take_append_drop h.count.toUInt32.toNat following).symm, rfl⟩
      rw [List.length_take, Nat.min_eq_left hlen, hnat]
    · exact ⟨_, _, .short (by omega), rfl⟩
  · rw [if_pos hle]
    exact ⟨_, _, .overlong hcount, rfl⟩

/-- **What the header promises**: the client takes as many bytes off the stream as the product of
    the dimensions and keeps a table of as many entries, or it gives up in one of the given ways. -/
def TableLaw (gives : Ending → Prop) (host : Order) (h : VisibilityHeader)
    (following : List UInt8) : Prop :=
  ∀ c : Stream Event, c.inbound = headerFrame host h ++ following →
    (∃ table raw rest, following = raw ++ rest ∧ (raw.length : Int) = h.product ∧
      (table.length : Int) = h.product ∧
      runStream (readCellVisibilities host none : Client Event (List Bool)) c
        = (.ok table, { c with inbound := rest })) ∨
    ∃ e c', runStream (readCellVisibilities host none : Client Event (List Bool)) c
        = (.error e, c') ∧ gives e

/-- The promise is kept if the product is computed exactly; if not, only by giving up. -/
theorem tableLaw_iff_of_exit (gives : Ending → Prop) (hexit : gives (.exit 10012)) (host : Order)
    (hnonneg : h.Nonneg) (following : List UInt8) :
    TableLaw gives host h following ↔ h.product < 2 ^ 31 ∨
      (following.length : Int) < h.count.toInt ∨ (h.count.toInt < 0 ∧ gives .abort) := by
  have hexact : h.product < 2 ^ 31 → h.count.toInt = h.product ∧ 0 ≤ h.product :=
    fun hlt => ⟨h.toInt_count hnonneg hlt, hnonneg.product_nonneg⟩
  constructor
  · intro hlaw
    obtain ⟨r, rest, htable, hrun⟩ :=
      tableRun (ν := Event) host hnonneg (c := ⟨headerFrame host h ++ following, [], []⟩) rfl
    rcases hlaw ⟨headerFrame host h ++ following, [], []⟩ rfl with
      ⟨table, _, _, _, _, hlen, hok⟩ | ⟨e, c', herror, hgives⟩
    · rw [hrun, Prod.mk.injEq] at hok
      obtain ⟨rfl, _⟩ := hok
      -- the table has as many entries as the client computes, so the product fits
      cases htable with
      | read hcount _ =>
          rw [List.length_map, hcount] at hlen
          exact Or.inl (not_le.mp fun hle => count_ne_product hle hlen)
    · rw [hrun, Prod.mk.injEq] at herror
      obtain ⟨rfl, _⟩ := herror
      cases htable with
      | short hcount => exact Or.inr (Or.inl hcount)
      | overlong hcount => exact Or.inr (Or.inr ⟨hcount, hgives⟩)
  · intro hcond c hin
    obtain ⟨r, rest, htable, hrun⟩ := tableRun (ν := Event) host hnonneg hin
    cases htable with
    | @read raw _ hcount hfollowing =>
        have hle : raw.length ≤ following.length := by simp [hfollowing]
        have hlt : h.product < 2 ^ 31 := by
          rcases hcond with hlt | hshort | ⟨hneg, _⟩
          · exact hlt
          · omega
          · omega
        have hlen : (raw.length : Int) = h.product := hcount.trans (hexact hlt).1
        exact Or.inl ⟨_, raw, rest, hfollowing, hlen, by rw [List.length_map, hlen], hrun⟩
    | short => exact Or.inr ⟨_, _, hrun, hexit⟩
    | overlong hneg =>
        refine Or.inr ⟨_, _, hrun, ?_⟩
        rcases hcond with hlt | hshort | ⟨_, hgives⟩
        · have := hexact hlt
          omega
        · omega
        · exact hgives

/-- **When the client keeps the promise.** If the product of the dimensions fits into an `int`, it
    reads the table or ends by `exit`. Otherwise the number of bytes it asks for is a wrong one:
    it ends by `exit` if these bytes are not there, in an uncaught exception if the number is
    negative, and goes on with a table of a wrong length if not. -/
theorem tableLaw_iff (host : Order) (hnonneg : h.Nonneg) (following : List UInt8) :
    (TableLaw Ending.IsExit host h following
        ↔ h.product < 2 ^ 31 ∨ (following.length : Int) < h.count.toInt) ∧
      (TableLaw (fun _ => True) host h following
        ↔ h.product < 2 ^ 31 ∨ (following.length : Int) < h.count.toInt ∨ h.count.toInt < 0) := by
  refine ⟨?_, ?_⟩
  · rw [tableLaw_iff_of_exit Ending.IsExit trivial host hnonneg]
    simp [Ending.IsExit]
  · rw [tableLaw_iff_of_exit (fun _ => True) trivial host hnonneg]
    simp

/-- A board of thirty columns and twenty rows, with three stances. -/
theorem tableLaw_iff_thirty_twenty :
    (TableLaw Ending.IsExit .little ⟨30, 20, 3⟩ []
        ↔ VisibilityHeader.product ⟨30, 20, 3⟩ < 2 ^ 31 ∨
          (0 : Int) < (VisibilityHeader.count ⟨30, 20, 3⟩).toInt) ∧
      (TableLaw (fun _ => True) .little ⟨30, 20, 3⟩ []
        ↔ VisibilityHeader.product ⟨30, 20, 3⟩ < 2 ^ 31 ∨
          (0 : Int) < (VisibilityHeader.count ⟨30, 20, 3⟩).toInt ∨
          (VisibilityHeader.count ⟨30, 20, 3⟩).toInt < 0) :=
  tableLaw_iff .little ⟨by decide, by decide, by decide⟩ []

/-- A header of `2^16` columns and rows: the product is `2^64`, the client computes zero, and goes
    on with an empty table. -/
theorem tableLaw_fails_wrapped :
    VisibilityHeader.Nonneg ⟨65536, 65536, 1⟩ ∧
      VisibilityHeader.product ⟨65536, 65536, 1⟩ = 2 ^ 64 ∧
      runStream (readCellVisibilities .little none : Client Event (List Bool))
          ⟨headerFrame .little ⟨65536, 65536, 1⟩, [], []⟩ = (.ok [], ⟨[], [], []⟩) ∧
      ¬ TableLaw (fun _ => True) .little ⟨65536, 65536, 1⟩ [] := by
  have hrun : runStream (readCellVisibilities .little none : Client Event (List Bool))
      ⟨headerFrame .little ⟨65536, 65536, 1⟩, [], []⟩ = (.ok [], ⟨[], [], []⟩) := rfl
  have hproduct : VisibilityHeader.product ⟨65536, 65536, 1⟩ = 2 ^ 64 := by decide
  refine ⟨⟨by decide, by decide, by decide⟩, hproduct, hrun, fun hlaw => ?_⟩
  rcases hlaw ⟨headerFrame .little ⟨65536, 65536, 1⟩, [], []⟩ (List.append_nil _).symm with
    ⟨table, _, _, _, _, hlen, hok⟩ | ⟨e, c', herror, _⟩
  · rw [hrun, Prod.mk.injEq, Except.ok.injEq] at hok
    rw [← hok.1, hproduct] at hlen
    exact absurd hlen (by decide)
  · rw [hrun] at herror
    simp at herror

end CodeTroopers
