import CodeTroopers.Client.Grammar

set_option autoImplicit false

/-! # The readers parse the grammar

For each reading function of the client, on a little-endian machine, the theorem that it parses its
part of the grammar: what it returns is what the bytes it consumes spell, and what it gives up on is
a `Fault`. The derivations follow the functions, one rule of `WireFormat` for each read. -/

namespace CodeTroopers

open StreamProgram ByteOrder WireFormat

/-! ## Words

Reading a word never gives up but for the end of the stream, so these hold for any faults. -/

variable {ν : Type} {Bad : Ending → List UInt8 → Prop}

theorem length_intBytes (n : Int32) : (intBytes n).length = 4 := length_leBytes 4 _

theorem isLittleEndianMachine_little :
    RemoteProcessClient.isLittleEndianMachine .little = true := by decide

theorem fixOrder_little (size : ℕ) (bytes : List UInt8) :
    RemoteProcessClient.fixOrder .little size bytes = bytes := by
  rw [RemoteProcessClient.fixOrder, isLittleEndianMachine_little,
    RemoteProcessClient.littleEndianByteOrder, if_neg (fun h => h rfl)]

theorem parses_word {α : Type} (n : UInt32) (hn : n.toNat < 2 ^ 31) (decode : List UInt8 → α)
    (encode : α → List UInt8) (hlen : ∀ a, (encode a).length = n.toNat)
    (hdecode : ∀ a, decode (encode a) = a)
    (hencode : ∀ bytes, bytes.length = n.toNat → encode (decode bytes) = bytes) :
    Parses Bad
      ((RemoteProcessClient.readBytes n : Client ν _).bind fun bytes => .pure (decode bytes))
      (Format.of (fun _ => True) fun a => (encode a).map .exact) := by
  refine ((parses_read n.toNat hn).bind fun bytes _ _ => parses_pure (decode bytes)).congr ?_
  intro a message
  constructor
  · intro h
    obtain ⟨bytes, _, _, ⟨hbytes, rfl⟩, ⟨rfl, rfl⟩, rfl⟩ := h
    exact ⟨trivial, by simp only [hencode bytes hbytes, List.append_nil]⟩
  · rintro ⟨_, rfl⟩
    exact ⟨encode a, _, [], ⟨hlen a, rfl⟩, ⟨(hdecode a).symm, rfl⟩, (List.append_nil _).symm⟩

theorem parses_readInt : Parses Bad (RemoteProcessClient.readInt .little : Client ν Int32)
    (Format.of (fun _ => True) encodeInt) := by
  refine parses_word 4 (by decide) _ intBytes length_intBytes (fun n => ?_) fun bytes hlen => ?_
  · rw [fixOrder_little, load, intBytes, leValue_leBytes _ _ n.toUInt32.toNat_lt,
      UInt32.ofNat_toNat, Int32.toInt32_toUInt32]
  · have hlt : leValue bytes < 2 ^ 32 := by
      have := leValue_lt bytes
      rwa [hlen] at this
    rw [fixOrder_little, load, intBytes, UInt32.toUInt32_toInt32, UInt32.toNat_ofNat_of_lt' hlt]
    have := leBytes_leValue bytes
    rwa [hlen] at this

theorem parses_readLong : Parses Bad (RemoteProcessClient.readLong .little : Client ν Int64)
    (Format.of (fun _ => True) encodeLong) := by
  refine parses_word 8 (by decide) _ (fun n : Int64 => leBytes 8 n.toUInt64.toNat)
    (fun _ => length_leBytes 8 _) (fun n => ?_) fun bytes hlen => ?_
  · rw [fixOrder_little, load, leValue_leBytes _ _ n.toUInt64.toNat_lt,
      UInt64.ofNat_toNat, Int64.toInt64_toUInt64]
  · have hlt : leValue bytes < 2 ^ 64 := by
      have := leValue_lt bytes
      rwa [hlen] at this
    rw [fixOrder_little, load, UInt64.toUInt64_toInt64, UInt64.toNat_ofNat_of_lt' hlt]
    have := leBytes_leValue bytes
    rwa [hlen] at this

theorem parses_readDouble :
    Parses Bad (RemoteProcessClient.readDouble .little : Client ν Double)
      (Format.of (fun _ => True) encodeDouble) := by
  refine (parses_readLong.bind_of fun n _ =>
    parses_pure (⟨n.toUInt64⟩ : Double)).congr_of ?_ fun d _ => ?_
  · intro d message h
    obtain ⟨n, _, _, ⟨rfl, rfl⟩, rfl⟩ := h
    exact ⟨trivial, List.append_nil _⟩
  · refine ⟨d.bits.toInt64, trivial, [], ⟨by rw [UInt64.toUInt64_toInt64], rfl⟩, ?_⟩
    rw [encodeLong, UInt64.toUInt64_toInt64, List.append_nil]
    rfl

theorem parses_readBoolean :
    Parses Bad (RemoteProcessClient.readBoolean : Client ν Bool)
      (Format.of (fun _ => True) encodeBoolean) := by
  refine ((parses_read 1 (by decide)).bind fun bytes _ _ =>
    parses_pure (decide (bytes.headD 0 ≠ 0))).congr_spells fun v bytes => ?_
  -- the byte read decides the boolean, so every byte spells exactly one value
  constructor
  · intro h
    obtain ⟨_, ⟨one, _, _, ⟨hlen, rfl⟩, ⟨rfl, rfl⟩, rfl⟩, hsp⟩ := h
    rw [List.append_nil, spells_map_exact_iff] at hsp
    subst hsp
    obtain ⟨b, rfl⟩ := List.length_eq_one_iff.mp hlen
    exact ⟨_, ⟨trivial, rfl⟩, List.Forall₂.cons rfl List.Forall₂.nil⟩
  · intro h
    obtain ⟨_, ⟨_, rfl⟩, hsp⟩ := h
    obtain ⟨b, rest, hb, hnil, rfl⟩ := List.forall₂_cons_left_iff.mp hsp
    rw [List.forall₂_nil_left_iff] at hnil
    subst hnil
    refine ⟨[.exact b], ⟨[b], [.exact b], [], ⟨rfl, rfl⟩, ⟨hb.symm, rfl⟩, rfl⟩, ?_⟩
    exact List.Forall₂.cons rfl List.Forall₂.nil

theorem parses_readEnum : Parses Bad (RemoteProcessClient.readEnum : Client ν Int8)
    (Format.of (fun _ => True) encodeCode) := by
  refine parses_word 1 (by decide) (fun bytes => (bytes.headD 0).toInt8) (fun c => [c.toUInt8])
    (fun _ => rfl) (fun c => Int8.toInt8_toUInt8 c) fun bytes hlen => ?_
  obtain ⟨b, rfl⟩ := List.length_eq_one_iff.mp hlen
  simp

theorem parses_readAs (α : Type) [WireEnum α] :
    Parses Bad (RemoteProcessClient.readAs α : Client ν α)
      (Format.of (fun _ => True) encodeEnum) := by
  refine (parses_readEnum.bind_of fun code _ => parses_pure (WireEnum.ofCode code)).congr_of ?_ ?_
  · intro a message h
    obtain ⟨code, _, _, ⟨rfl, rfl⟩, rfl⟩ := h
    exact ⟨trivial, by rw [encodeEnum, WireEnum.toCode_ofCode, List.append_nil]⟩
  · intro a _
    exact ⟨WireEnum.toCode a, trivial, [], ⟨(WireEnum.ofCode_toCode a).symm, rfl⟩,
      (List.append_nil _).symm⟩

/-! ## Presence flags and counts -/

theorem spells_encodeInt_iff (n : Int32) (bytes : List UInt8) :
    Spells (encodeInt n) bytes ↔ bytes = intBytes n :=
  spells_map_exact_iff _ _

theorem eq_zero_of_spells_false {bytes : List UInt8} (h : Spells (encodeBoolean false) bytes) :
    bytes = [0] := by
  obtain ⟨b, rest, hb, hnil, rfl⟩ := List.forall₂_cons_left_iff.mp h
  rw [List.forall₂_nil_left_iff] at hnil
  have hzero : b = 0 := by simpa [WireByte.Accepts] using hb
  rw [hnil, hzero]

theorem parses_present {ι α : Type} {f : Bool → Client ν α} {valid : ι → α → Prop}
    {message : ι → α → List (List WireByte)} (code : ℕ) (hbad : Bad (.exit code) [0])
    (hfalse : f false = .exit (.exit code))
    (htrue : Parses Bad (f true) (Format.fields valid message)) :
    Parses Bad (RemoteProcessClient.readBoolean.bind f)
      (Format.fields valid fun i a => encodeBoolean true :: message i a) := by
  refine (parses_readBoolean.check_of (fun present => present = true)
    (F := fun _ => Format.fields valid message) (fun present _ hok => by rw [hok]; exact htrue)
    ?_).congr fun a bytes => ?_
  · intro present bytes _ hsp hnot
    cases present with
    | true => exact absurd rfl hnot
    | false =>
        rw [hfalse]
        exact ⟨.exit code, givesUp_exit _, eq_zero_of_spells_false hsp ▸ hbad⟩
  · constructor
    · intro h
      obtain ⟨present, ⟨_, hok⟩, _, ⟨i, ha, rfl⟩, rfl⟩ := h
      exact ⟨i, ha, by rw [hok, List.flatten_cons]⟩
    · intro h
      obtain ⟨i, ha, rfl⟩ := h
      exact ⟨true, ⟨trivial, rfl⟩, _, ⟨i, ha, rfl⟩, rfl⟩

theorem ofNat_toNat_of_nonneg {n : Int32} (h : ¬ n < 0) :
    Int32.ofNat n.toInt.toNat = n ∧ n.toInt.toNat < 2 ^ 31 := by
  have hnonneg : 0 ≤ n.toInt := by
    rw [Int32.lt_iff_toInt_lt, Int32.toInt_zero] at h
    omega
  have hlt := Int32.toInt_lt n
  refine ⟨?_, by omega⟩
  rw [← Int32.toInt_inj, Int32.toInt_ofNat_of_lt (by omega), Int.toNat_of_nonneg hnonneg]

theorem toInt_ofNat_of_lt {n : ℕ} (h : n < 2 ^ 31) :
    (Int32.ofNat n).toInt = n ∧ ¬ Int32.ofNat n < 0 := by
  have hval : (Int32.ofNat n).toInt = n := Int32.toInt_ofNat_of_lt h
  refine ⟨hval, ?_⟩
  rw [Int32.lt_iff_toInt_lt, hval, Int32.toInt_zero]
  omega

theorem parses_counted {α : Type} {p : Client ν α} {valid : α → Prop}
    {encode : α → List WireByte} (hp : Parses Fault p (Format.of valid encode)) (code : ℕ)
    (hcode : code ∈ [10003, 10005, 10007, 10008, 10009, 10018, 10019, 10020]) :
    Parses Fault
      ((RemoteProcessClient.readInt .little).bind fun n =>
        if n < 0 then .exit (.exit code) else p.collect n.toInt.toNat)
      (Format.of (fun as => as.length < 2 ^ 31 ∧ ∀ a ∈ as, valid a) (encodeList encode)) := by
  have hcheck : Parses Fault
      ((RemoteProcessClient.readInt .little).bind fun n =>
        if n < 0 then .exit (.exit code) else p.collect n.toInt.toNat) _ :=
    parses_readInt.check_of (fun n => ¬ n < 0)
      (fun n _ hok => by rw [if_neg hok]; exact hp.collect n.toInt.toNat) ?_
  · refine hcheck.congr_of ?_ ?_
    · intro as _ h
      obtain ⟨n, ⟨_, hok⟩, _, ⟨⟨hlen, hvalid⟩, rfl⟩, rfl⟩ := h
      obtain ⟨hn, hlt⟩ := ofNat_toNat_of_nonneg hok
      refine ⟨⟨by omega, hvalid⟩, ?_⟩
      rw [encodeList, encodeCount, hlen, hn]
    · intro as h
      obtain ⟨hlen, hvalid⟩ := h
      obtain ⟨hval, hok⟩ := toInt_ofNat_of_lt hlen
      exact ⟨Int32.ofNat as.length, ⟨trivial, hok⟩, _, ⟨⟨by omega, hvalid⟩, rfl⟩, rfl⟩
  · intro n bytes _ hsp hnot
    rw [not_not] at hnot
    rw [(spells_encodeInt_iff n bytes).mp hsp, if_pos hnot]
    exact ⟨.exit code, givesUp_exit _, Or.inl (.negative hcode n hnot)⟩

/-! ## Strings -/

theorem toNat_toUInt32 (n : Int32) :
    n.toUInt32.toNat = if n < 0 then (n.toInt + 4294967296).toNat else n.toInt.toNat := by
  have hval : n.toInt = if 2 * n.toUInt32.toNat < 4294967296 then (n.toUInt32.toNat : Int)
      else (n.toUInt32.toNat : Int) - 4294967296 := BitVec.toInt_eq_toNat_cond n.toBitVec
  have hlt : n.toUInt32.toNat < 4294967296 := n.toUInt32.toNat_lt
  have hneg : n < 0 ↔ n.toInt < 0 := by rw [Int32.lt_iff_toInt_lt, Int32.toInt_zero]
  -- two's complement: a negative number is itself plus 2^32
  by_cases h : n < 0
  · rw [if_pos h]
    have := hneg.mp h
    split_ifs at hval <;> omega
  · rw [if_neg h]
    have := mt hneg.mpr h
    split_ifs at hval <;> omega

theorem parses_readString :
    Parses Fault (RemoteProcessClient.readString .little : Client ν (List UInt8))
      (Format.of (fun s => s.length < 2 ^ 31) encodeString) := by
  -- a length that passes both tests is asked for as it is
  have hcheck : Parses Fault (RemoteProcessClient.readString .little : Client ν (List UInt8))
      _ := parses_readInt.check_of (fun n => ¬ n < 0) (fun n _ hok => by
        have hne : n ≠ -1 := fun h => hok (by rw [h]; decide)
        have hlt := Int32.toInt_lt n
        rw [if_neg hne]
        exact parses_read n.toUInt32.toNat (by
          rw [toNat_toUInt32, if_neg hok]
          have := (ofNat_toNat_of_nonneg hok).2
          exact this)) ?_
  · refine hcheck.congr_of ?_ ?_
    · intro s _ h
      obtain ⟨n, ⟨_, hok⟩, _, ⟨hlen, rfl⟩, rfl⟩ := h
      obtain ⟨hn, hlt⟩ := ofNat_toNat_of_nonneg hok
      rw [toNat_toUInt32, if_neg hok] at hlen
      refine ⟨by omega, ?_⟩
      rw [encodeString, encodeList, encodeCount, hlen, hn, ← List.map_eq_flatMap]
    · intro s hlen
      obtain ⟨hval, hok⟩ := toInt_ofNat_of_lt hlen
      refine ⟨Int32.ofNat s.length, ⟨trivial, hok⟩, _, ⟨?_, rfl⟩, ?_⟩
      · rw [toNat_toUInt32, if_neg hok, hval]
        rfl
      · rw [encodeString, encodeList, encodeCount, ← List.map_eq_flatMap]
  · intro n bytes _ hsp hnot
    rw [not_not] at hnot
    rw [(spells_encodeInt_iff n bytes).mp hsp]
    by_cases hnull : n = -1
    · rw [if_pos hnull, hnull]
      exact ⟨_, givesUp_exit _, Or.inl .nullString⟩
    · -- the source tests for -1 only: any other negative length reaches `readBytes`
      rw [if_neg hnull]
      refine ⟨.abort, givesUp_read ?_ _, Or.inl (.negativeString n hnot)⟩
      have hle := Int32.le_toInt n
      rw [toNat_toUInt32, if_pos hnot]
      show 2 ^ 31 ≤ (n.toInt + 2 ^ 32).toNat
      omega

/-! ## Records -/

theorem parses_readPlayer :
    Parses Fault (RemoteProcessClient.readPlayer .little : Client ν Player)
      (Format.of (fun p => p.name.length < 2 ^ 31) encodePlayer) := by
  refine Parses.of_fields (parses_present 10004 (Or.inl (.absent (by decide))) rfl ?_)
  refine parses_readLong.anyField Player.id fun id => ?_
  refine parses_readString.field Player.name (fun _ _ h => h.1) fun name hname => ?_
  refine parses_readInt.anyField Player.score fun score => ?_
  refine parses_readBoolean.anyField Player.strategyCrashed fun crashed => ?_
  refine parses_readInt.anyField Player.approximateX fun x => ?_
  refine parses_readInt.anyField Player.approximateY fun y => ?_
  refine parses_record ?_
  rintro ⟨⟩
  grind

theorem parses_readPlayers :
    Parses Fault (RemoteProcessClient.readPlayers .little : Client ν (List Player))
      (Format.of (fun ps => ps.length < 2 ^ 31 ∧ ∀ p ∈ ps, p.name.length < 2 ^ 31)
        (encodeList encodePlayer)) :=
  parses_counted parses_readPlayer 10003 (by decide)

theorem parses_readTrooper :
    Parses Fault (RemoteProcessClient.readTrooper .little : Client ν Trooper)
      (Format.of (fun _ => True) encodeTrooper) := by
  refine Parses.of_fields (parses_present 10006 (Or.inl (.absent (by decide))) rfl ?_)
  refine parses_readLong.anyField Trooper.id fun id => ?_
  refine parses_readInt.anyField Trooper.x fun x => ?_
  refine parses_readInt.anyField Trooper.y fun y => ?_
  refine parses_readLong.anyField Trooper.playerId fun playerId => ?_
  refine parses_readInt.anyField Trooper.teammateIndex fun index => ?_
  refine parses_readBoolean.anyField Trooper.teammate fun teammate => ?_
  refine (parses_readAs _).anyField Trooper.type fun type => ?_
  refine (parses_readAs _).anyField Trooper.stance fun stance => ?_
  refine parses_readInt.anyField Trooper.hitpoints fun hitpoints => ?_
  refine parses_readInt.anyField Trooper.maximalHitpoints fun maximal => ?_
  refine parses_readInt.anyField Trooper.actionPoints fun points => ?_
  refine parses_readInt.anyField Trooper.initialActionPoints fun ip => ?_
  refine parses_readDouble.anyField Trooper.visionRange fun vision => ?_
  refine parses_readDouble.anyField Trooper.shootingRange fun range => ?_
  refine parses_readInt.anyField Trooper.shootCost fun shootCost => ?_
  refine parses_readInt.anyField Trooper.standingDamage fun standing => ?_
  refine parses_readInt.anyField Trooper.kneelingDamage fun kneeling => ?_
  refine parses_readInt.anyField Trooper.proneDamage fun prone => ?_
  refine parses_readInt.anyField Trooper.damage fun damage => ?_
  refine parses_readBoolean.anyField Trooper.holdingGrenade fun grenade => ?_
  refine parses_readBoolean.anyField Trooper.holdingMedikit fun medikit => ?_
  refine parses_readBoolean.anyField Trooper.holdingFieldRation fun ration => ?_
  refine parses_record ?_
  rintro ⟨⟩
  simp only [Trooper.mk.injEq, and_assoc, true_and]

theorem parses_readTroopers :
    Parses Fault (RemoteProcessClient.readTroopers .little : Client ν (List Trooper))
      (Format.of (fun ts => ts.length < 2 ^ 31 ∧ ∀ t ∈ ts, True) (encodeList encodeTrooper)) :=
  parses_counted parses_readTrooper 10005 (by decide)

theorem parses_readBonus :
    Parses Fault (RemoteProcessClient.readBonus .little : Client ν Bonus)
      (Format.of (fun _ => True) encodeBonus) := by
  refine Parses.of_fields (parses_present 10010 (Or.inl (.absent (by decide))) rfl ?_)
  refine parses_readLong.anyField Bonus.id fun id => ?_
  refine parses_readInt.anyField Bonus.x fun x => ?_
  refine parses_readInt.anyField Bonus.y fun y => ?_
  refine (parses_readAs _).anyField Bonus.type fun type => ?_
  refine parses_record ?_
  rintro ⟨⟩
  simp only [Bonus.mk.injEq, and_assoc, true_and]

theorem parses_readBonuses :
    Parses Fault (RemoteProcessClient.readBonuses .little : Client ν (List Bonus))
      (Format.of (fun bs => bs.length < 2 ^ 31 ∧ ∀ b ∈ bs, True) (encodeList encodeBonus)) :=
  parses_counted parses_readBonus 10009 (by decide)

/-! ## The world -/

theorem parses_readColumn :
    Parses Fault (RemoteProcessClient.readColumn .little : Client ν (List CellType))
      (Format.of (fun column => column.length < 2 ^ 31) encodeColumn) := by
  refine (parses_counted (parses_readAs CellType) 10008 (by decide)).congr_of ?_ ?_
  · intro column message h
    obtain ⟨⟨hlen, _⟩, rfl⟩ := h
    exact ⟨hlen, rfl⟩
  · intro column hlen
    exact ⟨⟨hlen, fun _ _ => trivial⟩, rfl⟩

theorem parses_readCells (cached : Option Cells) :
    Parses Fault (RemoteProcessClient.readCells .little cached : Client ν Cells)
      (Format.of (ValidCells cached) (encodeCells cached)) := by
  cases cached with
  | some cells => exact parses_pure cells
  | none => exact parses_counted parses_readColumn 10007 (by decide)

/-- A dimension that must not be negative. -/
def readDimension (code : ℕ) : Client ν Int32 :=
  (RemoteProcessClient.readInt .little).bind fun n =>
    if n < 0 then .exit (.exit code) else .pure n

theorem readDimension_bind {α : Type} (code : ℕ) (f : Int32 → Client ν α) :
    (readDimension code).bind f = (RemoteProcessClient.readInt .little).bind fun n =>
      if n < 0 then .exit (.exit code) else f n := by
  rw [readDimension, Prog.bind_assoc]
  congr 1
  funext n
  split_ifs <;> rfl

theorem parses_readDimension (code : ℕ)
    (hcode : code ∈ [10003, 10005, 10007, 10008, 10009, 10018, 10019, 10020]) :
    Parses Fault (readDimension code : Client ν Int32)
      (Format.of (fun n => 0 ≤ n) encodeInt) := by
  refine (parses_readInt.check_of (fun n => ¬ n < 0)
    (F := fun n m message => m = n ∧ message = [])
    (fun n _ hok => by rw [if_neg hok]; exact parses_pure n) ?_).congr_of ?_ ?_
  · intro n bytes _ hsp hnot
    rw [not_not] at hnot
    rw [(spells_encodeInt_iff n bytes).mp hsp, if_pos hnot]
    exact ⟨.exit code, givesUp_exit _, Or.inl (.negative hcode n hnot)⟩
  · intro n _ h
    obtain ⟨_, ⟨_, hok⟩, _, ⟨rfl, rfl⟩, rfl⟩ := h
    exact ⟨Int32.not_lt.mp hok, List.append_nil _⟩
  · intro n hn
    exact ⟨n, ⟨trivial, Int32.not_lt.mpr hn⟩, [], ⟨rfl, rfl⟩, (List.append_nil _).symm⟩

/-- The three dimensions in front of the visibility table. -/
def readHeader : Client ν VisibilityHeader :=
  (readDimension 10018).bind fun worldWidth =>
    (readDimension 10019).bind fun worldHeight =>
      (readDimension 10020).bind fun stanceCount =>
        .pure ⟨worldWidth, worldHeight, stanceCount⟩

theorem parses_readHeader :
    Parses Fault (readHeader : Client ν VisibilityHeader)
      (Format.of VisibilityHeader.Nonneg encodeHeader) := by
  refine Parses.of_fields ?_
  refine (parses_readDimension 10018 (by decide)).field VisibilityHeader.worldWidth
    (fun _ _ h => h.1) fun worldWidth hwidth => ?_
  refine (parses_readDimension 10019 (by decide)).field VisibilityHeader.worldHeight
    (fun _ _ h => h.1.2.1) fun worldHeight hheight => ?_
  refine (parses_readDimension 10020 (by decide)).field VisibilityHeader.stanceCount
    (fun _ _ h => h.1.1.2.2) fun stanceCount hcount => ?_
  refine parses_record ?_
  rintro ⟨w, h, n⟩
  simp only [VisibilityHeader.mk.injEq, and_assoc]
  constructor
  · rintro ⟨_, heq⟩
    exact heq
  · intro h
    obtain ⟨rfl, rfl, rfl⟩ := h
    exact ⟨⟨hwidth, hheight, hcount⟩, rfl, rfl, rfl⟩

theorem spells_encodeHeader_iff (h : VisibilityHeader) (bytes : List UInt8) :
    Spells (encodeHeader h) bytes
      ↔ bytes = intBytes h.worldWidth ++ intBytes h.worldHeight ++ intBytes h.stanceCount := by
  simp only [encodeHeader, encodeInt, List.flatten_cons, List.flatten_nil, List.append_nil,
    ← List.map_append, spells_map_exact_iff, List.append_assoc]

theorem parses_readTable (n : UInt32) (hn : n.toNat < 2 ^ 31) :
    Parses Fault
      ((RemoteProcessClient.readBytes n).bind fun raw =>
        .pure (raw.map fun b => decide (b ≠ 0)) : Client ν (List Bool))
      (Format.of (fun table => table.length = n.toNat) fun table => table.map .flag) := by
  refine ((parses_read n.toNat hn).bind fun raw _ _ =>
    parses_pure (raw.map fun b => decide (b ≠ 0))).congr_spells fun table bytes => ?_
  constructor
  · intro h
    obtain ⟨_, ⟨raw, _, _, ⟨hlen, rfl⟩, ⟨rfl, rfl⟩, rfl⟩, hsp⟩ := h
    rw [List.append_nil, spells_map_exact_iff] at hsp
    subst hsp
    exact ⟨_, ⟨(List.length_map _).trans hlen, rfl⟩, (spells_map_flag_iff _ _).mpr rfl⟩
  · intro h
    obtain ⟨_, ⟨hlen, rfl⟩, hsp⟩ := h
    rw [spells_map_flag_iff] at hsp
    subst hsp
    have hraw : bytes.length = n.toNat := by
      rw [← hlen, List.length_map]
    exact ⟨_, ⟨bytes, _, [], ⟨hraw, rfl⟩, ⟨rfl, rfl⟩, (List.append_nil _).symm⟩,
      (spells_map_exact_iff _ _).mpr rfl⟩

theorem readCellVisibilities_none :
    (RemoteProcessClient.readCellVisibilities .little none : Client ν (List Bool)) =
      readHeader.bind fun h => (RemoteProcessClient.readBytes h.count.toUInt32).bind fun raw =>
        .pure (raw.map fun b => decide (b ≠ 0)) := by
  simp only [readHeader, Prog.bind_assoc, Prog.pure_bind]
  simp only [readDimension_bind]
  rfl

theorem parses_readCellVisibilities (cached : Option (List Bool)) :
    Parses Fault
      (RemoteProcessClient.readCellVisibilities .little cached : Client ν (List Bool))
      fun table message => ∃ h, ValidVisibilities cached h table ∧
        message = encodeVisibilities cached h table := by
  cases cached with
  | some table =>
      refine (parses_pure table).congr ?_
      intro table' message
      exact ⟨fun h => ⟨⟨0, 0, 0⟩, h⟩, fun ⟨_, h⟩ => h⟩
  | none =>
      rw [readCellVisibilities_none]
      refine (parses_readHeader.check_of (fun h => ¬ h.count < 0) (fun h _ hok =>
        parses_readTable h.count.toUInt32 (by
          rw [toNat_toUInt32, if_neg hok]
          exact (ofNat_toNat_of_nonneg hok).2)) ?_).congr fun table message => ?_
      · intro h bytes hnonneg hsp hnot
        rw [not_not] at hnot
        rw [spells_encodeHeader_iff] at hsp
        -- a negative count is never the product itself: the multiplication has wrapped around
        have hproduct : 2 ^ 31 ≤ h.product := by
          by_contra hlt
          have hcount := h.toInt_count hnonneg (by omega)
          have hneg := Int32.lt_iff_toInt_lt.mp hnot
          rw [hcount, Int32.toInt_zero] at hneg
          exact absurd hnonneg.product_nonneg (by omega)
        refine ⟨.abort, givesUp_read ?_ _, Or.inr ⟨rfl, h, hnonneg, hproduct, hsp⟩⟩
        rw [toNat_toUInt32, if_pos hnot]
        have := Int32.le_toInt h.count
        show 2147483648 ≤ (h.count.toInt + 4294967296).toNat
        omega
      · constructor
        · intro h
          obtain ⟨h, ⟨hnonneg, hok⟩, _, ⟨hlen, rfl⟩, rfl⟩ := h
          rw [toNat_toUInt32, if_neg hok] at hlen
          exact ⟨h, ⟨hnonneg, hok, hlen⟩, rfl⟩
        · intro h
          obtain ⟨h, ⟨hnonneg, hok, hlen⟩, rfl⟩ := h
          refine ⟨h, ⟨hnonneg, hok⟩, _, ⟨?_, rfl⟩, rfl⟩
          show table.length = _
          rw [toNat_toUInt32, if_neg hok, hlen]

theorem parses_readWorld (client : RemoteProcessClient) :
    Parses Fault
      (RemoteProcessClient.readWorld .little client : Client ν (World × RemoteProcessClient))
      fun b message => ∃ h, (ValidWorld client h b.1 ∧
        b.2 = ⟨some b.1.cells, some b.1.cellVisibilities⟩) ∧
          message = encodeWorld client h b.1 := by
  refine parses_present 10002 (Or.inl (.absent (by decide))) rfl ?_
  refine parses_readInt.anyField (World.moveIndex ∘ Prod.fst) fun moveIndex => ?_
  refine parses_readInt.anyField (World.width ∘ Prod.fst) fun width => ?_
  refine parses_readInt.anyField (World.height ∘ Prod.fst) fun height => ?_
  refine parses_readPlayers.field (World.players ∘ Prod.fst) ?_ fun players hplayers => ?_
  · exact fun _ _ h => ⟨h.1.1.1.1.players_length, h.1.1.1.1.name_length⟩
  refine parses_readTroopers.field (World.troopers ∘ Prod.fst) ?_ fun troopers htroopers => ?_
  · exact fun _ _ h => ⟨h.1.1.1.1.1.troopers_length, fun _ _ => trivial⟩
  refine parses_readBonuses.field (World.bonuses ∘ Prod.fst) ?_ fun bonuses hbonuses => ?_
  · exact fun _ _ h => ⟨h.1.1.1.1.1.1.bonuses_length, fun _ _ => trivial⟩
  refine (parses_readCells client.cells).field (World.cells ∘ Prod.fst) ?_ fun cells hcells => ?_
  · exact fun _ _ h => h.1.1.1.1.1.1.1.cells
  refine (parses_readCellVisibilities client.cellVisibilities).lastField
    (World.cellVisibilities ∘ Prod.fst) (fun _ => rfl) ?_
  -- every field read is the field of the record, and the client keeps the two tables
  rintro h ⟨⟨⟩, ⟨⟩⟩
  simp only [Function.comp_apply]
  constructor
  · intro h
    obtain ⟨⟨⟨⟨⟨⟨⟨⟨hvalid, hclient⟩, rfl⟩, rfl⟩, rfl⟩, rfl⟩, rfl⟩, rfl⟩, rfl⟩ := h
    exact ⟨hvalid.cellVisibilities, Prod.ext rfl hclient⟩
  · intro h
    obtain ⟨hvisibilities, heq⟩ := h
    simp only [Prod.mk.injEq, World.mk.injEq, RemoteProcessClient.mk.injEq] at heq
    obtain ⟨⟨rfl, rfl, rfl, rfl, rfl, rfl, rfl, -⟩, rfl, rfl⟩ := heq
    exact ⟨⟨⟨⟨⟨⟨⟨⟨⟨⟨hplayers.1, hplayers.2, htroopers.1, hbonuses.1⟩, hcells, hvisibilities⟩, rfl⟩,
      rfl⟩, rfl⟩, rfl⟩, rfl⟩, rfl⟩, rfl⟩, rfl⟩

/-! ## Messages -/

theorem spells_encodeCode_iff (t : Int8) (bytes : List UInt8) :
    Spells (encodeCode t) bytes ↔ bytes = [t.toUInt8] :=
  spells_map_exact_iff [t.toUInt8] bytes

theorem parses_message {α : Type} {p : Client ν α} {E : Format α} (expected : MessageType)
    (hbad : ∀ t, t ≠ expected.toCode → Bad (.exit 10011) [t.toUInt8]) (hp : Parses Bad p E) :
    Parses Bad
      (RemoteProcessClient.readEnum.bind fun messageType =>
        (RemoteProcessClient.ensureMessageType messageType expected).bind fun _ => p)
      fun a message => ∃ rest, E a rest ∧ message = encodeCode expected.toCode ++ rest := by
  refine (parses_readEnum.check_of (fun t => t = expected.toCode) (F := fun _ => E)
    (fun t _ hok => ?_) ?_).congr fun a message => ?_
  · rw [RemoteProcessClient.ensureMessageType, if_neg (not_not.mpr hok)]
    exact hp
  · intro t bytes _ hsp hnot
    rw [RemoteProcessClient.ensureMessageType, if_pos hnot, (spells_encodeCode_iff t bytes).mp hsp]
    exact ⟨_, givesUp_exit _, hbad t hnot⟩
  · constructor
    · intro h
      obtain ⟨_, ⟨_, rfl⟩, rest, hE, rfl⟩ := h
      exact ⟨rest, hE, rfl⟩
    · intro h
      obtain ⟨rest, hE, rfl⟩ := h
      exact ⟨_, ⟨trivial, rfl⟩, rest, hE, rfl⟩

theorem messageFault_type {expected t : Int8} (h : t ≠ expected) :
    MessageFault [expected] (.exit 10011) [t.toUInt8] :=
  Or.inr ⟨rfl, t, by simpa using h, rfl⟩

theorem encodeTeamSize_eq (teamSize : Int32) :
    encodeTeamSize teamSize = encodeCode MessageType.teamSize.toCode ++ encodeInt teamSize := by
  simp only [encodeTeamSize, List.flatten_cons, List.flatten_nil, List.append_nil]

theorem parses_readTeamSize :
    Parses (MessageFault [MessageType.teamSize.toCode])
      (RemoteProcessClient.readTeamSize .little : Client ν Int32)
      (Format.of (fun _ => True) encodeTeamSize) := by
  refine (parses_message .teamSize (fun _ => messageFault_type) parses_readInt).congr_of ?_ ?_
  · intro n _ h
    obtain ⟨_, ⟨_, rfl⟩, rfl⟩ := h
    exact ⟨trivial, (encodeTeamSize_eq n).symm⟩
  · intro n _
    exact ⟨_, ⟨trivial, rfl⟩, encodeTeamSize_eq n⟩

theorem parses_readGameContext
    (htype : ∀ t, t ≠ MessageType.gameContext.toCode → Bad (.exit 10011) [t.toUInt8])
    (habsent : Bad (.exit 10017) [0]) :
    Parses Bad (RemoteProcessClient.readGameContext .little : Client ν Game)
      (Format.of (fun _ => True) encodeGame) := by
  refine (parses_message .gameContext htype (E := Format.fields (fun (_ : Unit) _ => True)
    fun _ g => encodeBoolean true :: gameFields g)
    (parses_present 10017 habsent rfl ?_)).congr_of ?_ ?_
  · refine parses_readInt.anyField Game.moveCount fun _ => ?_
    refine parses_readInt.anyField Game.lastPlayerEliminationScore fun _ => ?_
    refine parses_readInt.anyField Game.playerEliminationScore fun _ => ?_
    refine parses_readInt.anyField Game.trooperEliminationScore fun _ => ?_
    refine parses_readDouble.anyField Game.trooperDamageScoreFactor fun _ => ?_
    refine parses_readInt.anyField Game.stanceChangeCost fun _ => ?_
    refine parses_readInt.anyField Game.standingMoveCost fun _ => ?_
    refine parses_readInt.anyField Game.kneelingMoveCost fun _ => ?_
    refine parses_readInt.anyField Game.proneMoveCost fun _ => ?_
    refine parses_readInt.anyField Game.commanderAuraBonusActionPoints fun _ => ?_
    refine parses_readDouble.anyField Game.commanderAuraRange fun _ => ?_
    refine parses_readInt.anyField Game.commanderRequestEnemyDispositionCost fun _ => ?_
    refine parses_readInt.anyField Game.commanderRequestEnemyDispositionMaxOffset fun _ => ?_
    refine parses_readInt.anyField Game.fieldMedicHealCost fun _ => ?_
    refine parses_readInt.anyField Game.fieldMedicHealBonusHitpoints fun _ => ?_
    refine parses_readInt.anyField Game.fieldMedicHealSelfBonusHitpoints fun _ => ?_
    refine parses_readDouble.anyField Game.sniperStandingStealthBonus fun _ => ?_
    refine parses_readDouble.anyField Game.sniperKneelingStealthBonus fun _ => ?_
    refine parses_readDouble.anyField Game.sniperProneStealthBonus fun _ => ?_
    refine parses_readDouble.anyField Game.sniperStandingShootingRangeBonus fun _ => ?_
    refine parses_readDouble.anyField Game.sniperKneelingShootingRangeBonus fun _ => ?_
    refine parses_readDouble.anyField Game.sniperProneShootingRangeBonus fun _ => ?_
    refine parses_readDouble.anyField Game.scoutStealthBonusNegation fun _ => ?_
    refine parses_readInt.anyField Game.grenadeThrowCost fun _ => ?_
    refine parses_readDouble.anyField Game.grenadeThrowRange fun _ => ?_
    refine parses_readInt.anyField Game.grenadeDirectDamage fun _ => ?_
    refine parses_readInt.anyField Game.grenadeCollateralDamage fun _ => ?_
    refine parses_readInt.anyField Game.medikitUseCost fun _ => ?_
    refine parses_readInt.anyField Game.medikitBonusHitpoints fun _ => ?_
    refine parses_readInt.anyField Game.medikitHealSelfBonusHitpoints fun _ => ?_
    refine parses_readInt.anyField Game.fieldRationEatCost fun _ => ?_
    refine parses_readInt.anyField Game.fieldRationBonusActionPoints fun _ => ?_
    refine parses_record ?_
    rintro ⟨⟩
    simp only [Game.mk.injEq, and_assoc, true_and]
  · intro g _ h
    obtain ⟨_, ⟨_, _, rfl⟩, rfl⟩ := h
    exact ⟨trivial, rfl⟩
  · intro g _
    exact ⟨_, ⟨(), trivial, rfl⟩, rfl⟩

/-- What `readPlayerContext` does behind the message type. -/
def readPresentContext (client : RemoteProcessClient) :
    Client ν (Option PlayerContext × RemoteProcessClient) :=
  RemoteProcessClient.readBoolean.bind fun present =>
    if !present then .pure (none, client) else
    (RemoteProcessClient.readTrooper .little).bind fun trooper =>
    (RemoteProcessClient.readWorld .little client).bind fun b =>
    .pure (some ⟨trooper, b.1⟩, b.2)

theorem readPlayerContext_eq (client : RemoteProcessClient) :
    (RemoteProcessClient.readPlayerContext .little client : Client ν _) =
      RemoteProcessClient.readEnum.bind fun messageType =>
        if messageType = MessageType.gameOver.toCode then .pure (none, client) else
        (RemoteProcessClient.ensureMessageType messageType .playerContext).bind fun _ =>
        readPresentContext client := rfl

theorem parses_contextBody (client : RemoteProcessClient) :
    Parses Fault
      ((RemoteProcessClient.readTrooper .little).bind fun trooper =>
        (RemoteProcessClient.readWorld .little client).bind fun b =>
        .pure (some ⟨trooper, b.1⟩, b.2) :
        Client ν (Option PlayerContext × RemoteProcessClient))
      fun b rest => ∃ ctx h, ValidWorld client h ctx.world ∧
        b = (some ctx, ⟨some ctx.world.cells, some ctx.world.cellVisibilities⟩) ∧
        rest = encodeTrooper ctx.trooper ++ encodeWorld client h ctx.world := by
  refine (parses_readTrooper.bind_of fun trooper _ => (parses_readWorld client).bind
    fun b _ _ => parses_pure (some (PlayerContext.mk trooper b.1), b.2)).congr fun b rest => ?_
  constructor
  · intro h
    obtain ⟨trooper, _, _, ⟨⟨w, client'⟩, _, _, ⟨h, ⟨hvalid, hclient⟩, rfl⟩, ⟨rfl, rfl⟩, rfl⟩,
      rfl⟩ := h
    dsimp only at hclient
    exact ⟨⟨trooper, w⟩, h, hvalid, by rw [hclient], by rw [List.append_nil]⟩
  · intro h
    obtain ⟨⟨trooper, w⟩, h, hvalid, rfl, rfl⟩ := h
    exact ⟨trooper, trivial, _, ⟨(w, _), _, [], ⟨h, ⟨hvalid, rfl⟩, rfl⟩, ⟨rfl, rfl⟩,
      (List.append_nil _).symm⟩, rfl⟩

theorem parses_readPresentContext (client : RemoteProcessClient) :
    Parses Fault
      (readPresentContext client : Client ν (Option PlayerContext × RemoteProcessClient))
      fun b rest =>
        ContextMessage client b (encodeCode MessageType.playerContext.toCode ++ rest) := by
  have hf : ∀ present : Bool, True → Parses Fault
      (if !present then .pure (none, client) else
        (RemoteProcessClient.readTrooper .little).bind fun trooper =>
        (RemoteProcessClient.readWorld .little client).bind fun b =>
        .pure (some ⟨trooper, b.1⟩, b.2) : Client ν (Option PlayerContext × RemoteProcessClient))
      fun b rest => if present then ∃ ctx h, ValidWorld client h ctx.world ∧
          b = (some ctx, ⟨some ctx.world.cells, some ctx.world.cellVisibilities⟩) ∧
          rest = encodeTrooper ctx.trooper ++ encodeWorld client h ctx.world
        else b = (none, client) ∧ rest = [] := by
    intro present _
    cases present with
    | false => exact parses_pure (none, client)
    | true => exact parses_contextBody client
  refine (parses_readBoolean.bind_of hf).congr ?_
  intro b message
  rw [contextMessage_playerContext_iff]
  constructor
  · intro h
    obtain ⟨present, _, rest, hcase, rfl⟩ := h
    cases present with
    | false =>
        obtain ⟨rfl, rfl⟩ := hcase
        exact Or.inl ⟨rfl, rfl⟩
    | true =>
        obtain ⟨ctx, h, hvalid, rfl, rfl⟩ := hcase
        exact Or.inr ⟨ctx, h, hvalid, rfl, rfl⟩
  · intro h
    rcases h with ⟨rfl, rfl⟩ | ⟨ctx, h, hvalid, rfl, rfl⟩
    · exact ⟨false, trivial, [], ⟨rfl, rfl⟩, rfl⟩
    · exact ⟨true, trivial, _, ⟨ctx, h, hvalid, rfl, rfl⟩, rfl⟩

theorem parses_readPlayerContext (client : RemoteProcessClient) :
    Parses (MessageFault [MessageType.gameOver.toCode, MessageType.playerContext.toCode])
      (RemoteProcessClient.readPlayerContext .little client : Client ν _)
      (ContextMessage client) := by
  have hbody : Parses (MessageFault [MessageType.gameOver.toCode, MessageType.playerContext.toCode])
      (readPresentContext client : Client ν _) _ :=
    (parses_readPresentContext client).mono fun _ _ => Or.inl
  rw [readPlayerContext_eq]
  -- two types pass: behind the first nothing is read, behind the second the context
  refine (parses_readEnum.check_of
    (fun t => t = MessageType.gameOver.toCode ∨ t = MessageType.playerContext.toCode)
    (F := fun t b rest => ContextMessage client b (encodeCode t ++ rest))
    (fun t _ hok => ?_) ?_).congr fun b message => ?_
  · rcases hok with rfl | rfl
    · rw [if_pos rfl]
      exact (parses_pure (none, client)).congr fun b rest =>
        (contextMessage_gameOver_iff client b rest).symm
    · rw [if_neg (by decide), RemoteProcessClient.ensureMessageType, if_neg (not_not.mpr rfl)]
      exact hbody
  · intro t bytes _ hsp hnot
    rw [not_or] at hnot
    rw [if_neg hnot.1, RemoteProcessClient.ensureMessageType, if_pos hnot.2,
      (spells_encodeCode_iff t bytes).mp hsp]
    exact ⟨_, givesUp_exit _, Or.inr ⟨rfl, t, by simp [hnot.1, hnot.2], rfl⟩⟩
  · constructor
    · intro h
      obtain ⟨t, _, rest, hmessage, rfl⟩ := h
      exact hmessage
    · intro hmessage
      cases hmessage with
      | gameOver => exact ⟨_, ⟨trivial, Or.inl rfl⟩, [], .gameOver, rfl⟩
      | absent => exact ⟨_, ⟨trivial, Or.inr rfl⟩, _, .absent, rfl⟩
      | present ctx h hvalid =>
          have hmessage := ContextMessage.present ctx h hvalid
          rw [encodePlayerContext_eq] at hmessage ⊢
          exact ⟨_, ⟨trivial, Or.inr rfl⟩, _, hmessage, rfl⟩

end CodeTroopers
