import SeeU.BinaryWriter

set_option autoImplicit false

/-!
# The client's reader

`deserializeBinary` of `wsMsg_pb.js` over the decoder and the reader of `google-protobuf`.
The cursor is checked against the end after most reads only, so a byte may be
`undefined`; the size of a skipped field may be negative and take the cursor back, so the
loops need not end.
-/
namespace SeeU.Jspb
open WireFormat

inductive Failure where
  | assertion
  | running
  deriving DecidableEq

/-! ### `jspb.BinaryDecoder` -/

structure BinaryDecoder where
  bytes : Bytes
  cursor : ℤ
  deriving DecidableEq

/-- `bytes_[i]`, where `none` is `undefined`. -/
def byteAt (bytes : Bytes) (i : ℤ) : Option UInt8 := if 0 ≤ i then bytes[i.toNat]? else none

/-- The operand of a bit operator. -/
def toNumber (b : Option UInt8) : ℕ := b.elim 0 UInt8.toNat

/-- No comparison holds of `undefined`. -/
def IsBelow (b : Option UInt8) (n : ℕ) : Prop := ∃ v ∈ b, v.toNat < n

instance (b : Option UInt8) (n : ℕ) : Decidable (IsBelow b n) :=
  inferInstanceAs (Decidable (∃ v ∈ b, v.toNat < n))

def IsHigh (b : Option UInt8) : Prop := ∃ v ∈ b, 128 ≤ v.toNat

instance (b : Option UInt8) : Decidable (IsHigh b) :=
  inferInstanceAs (Decidable (∃ v ∈ b, 128 ≤ v.toNat))

namespace BinaryDecoder

/-- `advance`. -/
def advance (d : BinaryDecoder) (n : ℤ) : Except Failure BinaryDecoder :=
  if d.cursor + n ≤ d.bytes.length then .ok { d with cursor := d.cursor + n }
  else .error .assertion

def advanced (d : BinaryDecoder) (n value : ℤ) : Except Failure (ℤ × BinaryDecoder) :=
  (d.advance n).map (fun d => (value,d))

/-- The place behind the first byte from `i` on that is not high, of `n` bytes. -/
def afterHigh (d : BinaryDecoder) : ℕ → ℤ → Option ℤ
  | 0, _ => none
  | n + 1, i =>
    if IsHigh (byteAt d.bytes (d.cursor + i)) then d.afterHigh n (i + 1) else some (i + 1)

def septet (d : BinaryDecoder) (i : ℤ) (mask : BitVec 32) : BitVec 32 :=
  BitVec.ofNat 32 (toNumber (byteAt d.bytes (d.cursor + i))) &&& mask

/-- Also `readSignedVarint32`. Of five bytes the number is taken to be unsigned. -/
def readUnsignedVarint32 (d : BinaryDecoder) : Except Failure (ℤ × BinaryDecoder) :=
  let c := d.septet 0 127
  if IsBelow (byteAt d.bytes (d.cursor + 0)) 128 then d.advanced 1 c.toInt
  else
    let c := c ||| d.septet 1 127 <<< 7
    if IsBelow (byteAt d.bytes (d.cursor + 1)) 128 then d.advanced 2 c.toInt
    else
      let c := c ||| d.septet 2 127 <<< 14
      if IsBelow (byteAt d.bytes (d.cursor + 2)) 128 then d.advanced 3 c.toInt
      else
        let c := c ||| d.septet 3 127 <<< 21
        if IsBelow (byteAt d.bytes (d.cursor + 3)) 128 then d.advanced 4 c.toInt
        else
          let c := c ||| d.septet 4 15 <<< 28
          if IsBelow (byteAt d.bytes (d.cursor + 4)) 128 then d.advanced 5 c.toNat
          else
            match d.afterHigh 5 5 with
            | none => .error .assertion
            | some n => d.advanced n c.toInt

def highRun (bytes : Bytes) : ℕ → ℤ → ℤ
  | 0, c => c
  | n + 1, c => if toNumber (byteAt bytes c) &&& 128 ≠ 0 then highRun bytes n (c + 1) else c

/-- Behind the end no byte is high, so that the loop ends. -/
def skipVarint (d : BinaryDecoder) : BinaryDecoder :=
  { d with cursor := highRun d.bytes d.bytes.length d.cursor + 1 }

/-- The two units of a code point, which may be too small for them. -/
def surrogates (f : BitVec 32) : List UInt16 :=
  [UInt16.ofNat (((f - 65536#32).sshiftRight 10 &&& 1023#32).toNat + 55296),
    UInt16.ofNat (((f - 65536#32) &&& 1023#32).toNat + 56320)]

/-- The units that `readString` makes of the byte at `c` and those that go with it, and
    where it goes on. -/
def readUnit (bytes : Bytes) (c : ℤ) : List UInt16 × ℤ :=
  let f := toNumber (byteAt bytes c)
  let g := toNumber (byteAt bytes (c + 1))
  let h := toNumber (byteAt bytes (c + 2))
  let k := toNumber (byteAt bytes (c + 3))
  if IsBelow (byteAt bytes c) 128 then ([UInt16.ofNat f],c + 1)
  else if IsBelow (byteAt bytes c) 192 then ([],c + 1)
  else if IsBelow (byteAt bytes c) 224 then
    ([UInt16.ofNat ((f &&& 31) <<< 6 ||| g &&& 63)],c + 2)
  else if IsBelow (byteAt bytes c) 240 then
    ([UInt16.ofNat ((f &&& 15) <<< 12 ||| (g &&& 63) <<< 6 ||| h &&& 63)],c + 3)
  else if IsBelow (byteAt bytes c) 248 then
    (surrogates (BitVec.ofNat 32
      ((f &&& 7) <<< 18 ||| (g &&& 63) <<< 12 ||| (h &&& 63) <<< 6 ||| k &&& 63)),c + 4)
  else ([],c + 1)

/-- The loop of `readString` from `c` to `a`; a round takes a byte at least. -/
def readUnits (bytes : Bytes) (a : ℤ) : ℕ → ℤ → List UInt16 × ℤ
  | 0, c => ([],c)
  | n + 1, c =>
    if c < a then
      let unit := readUnit bytes c
      let rest := readUnits bytes a n unit.2
      (unit.1 ++ rest.1,rest.2)
    else ([],c)

def readString (d : BinaryDecoder) (length : ℤ) : List UInt16 × BinaryDecoder :=
  let read := readUnits d.bytes (d.cursor + length) length.toNat d.cursor
  (read.1,{ d with cursor := read.2 })

def readBytes (d : BinaryDecoder) (length : ℤ) : Except Failure (Bytes × BinaryDecoder) :=
  if length < 0 ∨ d.bytes.length < d.cursor + length then .error .assertion
  else .ok ((d.bytes.drop d.cursor.toNat).take length.toNat,
    { d with cursor := d.cursor + length })

end BinaryDecoder

/-! ### `jspb.BinaryReader` -/

structure BinaryReader where
  decoder : BinaryDecoder
  fieldNumber : ℕ
  wireType : ℕ

namespace BinaryReader

/-- `nextField`, where `none` is `false`. -/
def nextField (r : BinaryReader) : Except Failure (Option BinaryReader) :=
  if r.decoder.cursor = r.decoder.bytes.length then .ok none
  else if r.decoder.cursor < 0 ∨ r.decoder.bytes.length < r.decoder.cursor then .error .assertion
  else do
    let (a,decoder) ← r.decoder.readUnsignedVarint32
    let a := (BitVec.ofInt 32 a).toNat
    if a &&& 7 < 6 then .ok (some ⟨decoder,a >>> 3,a &&& 7⟩) else .error .assertion

def expect (r : BinaryReader) (wireType : ℕ) : Except Failure Unit :=
  if r.wireType = wireType then .ok () else .error .assertion

def readInt32 (r : BinaryReader) : Except Failure (ℤ × BinaryReader) := do
  r.expect 0
  let (value,decoder) ← r.decoder.readUnsignedVarint32
  .ok (value,{ r with decoder := decoder })

def readString (r : BinaryReader) : Except Failure (List UInt16 × BinaryReader) := do
  r.expect 2
  let (length,decoder) ← r.decoder.readUnsignedVarint32
  let (value,decoder) := decoder.readString length
  .ok (value,{ r with decoder := decoder })

def readBytes (r : BinaryReader) : Except Failure (Bytes × BinaryReader) := do
  r.expect 2
  let (length,decoder) ← r.decoder.readUnsignedVarint32
  let (value,decoder) ← decoder.readBytes length
  .ok (value,{ r with decoder := decoder })

def skipDelimitedField (r : BinaryReader) : Except Failure BinaryReader := do
  let (a,decoder) ← r.decoder.readUnsignedVarint32
  let decoder ← decoder.advance a
  .ok { r with decoder := decoder }

def skipFixedField (r : BinaryReader) (size : ℤ) : Except Failure BinaryReader :=
  (r.decoder.advance size).map (fun decoder => { r with decoder := decoder })

/-- `skipField`, given how a group of a number is skipped. -/
def skipFieldWith (skipGroup : ℕ → BinaryReader → Except Failure BinaryReader) (r : BinaryReader) :
    Except Failure BinaryReader :=
  match r.wireType with
  | 0 => .ok { r with decoder := r.decoder.skipVarint }
  | 1 => r.skipFixedField 8
  | 2 => r.skipDelimitedField
  | 3 => skipGroup r.fieldNumber r
  | 5 => r.skipFixedField 4
  | _ => .error .assertion

/-- The loop of `skipGroup`, where `a` is the number of the group. -/
def skipGroup : ℕ → ℕ → BinaryReader → Except Failure BinaryReader
  | 0, _, _ => .error .running
  | n + 1, a, r => do
    match ← r.nextField with
    | none => .error .assertion
    | some r =>
      if r.wireType = 4 then if r.fieldNumber = a then .ok r else .error .assertion
      else
        let r ← r.skipFieldWith (skipGroup n)
        skipGroup n a r

def skipField (n : ℕ) (r : BinaryReader) : Except Failure BinaryReader :=
  r.skipFieldWith (skipGroup n)

end BinaryReader

/-! ### `wsMsg_pb.js` -/

/-- The groups are skipped with the rounds that the loop has left. -/
def deserializeBinaryFromReader : ℕ → WsMsg → BinaryReader → Except Failure WsMsg
  | 0, _, _ => .error .running
  | n + 1, msg, reader => do
    match ← reader.nextField with
    | none => .ok msg
    | some reader =>
      if reader.wireType = 4 then .ok msg
      else
        match reader.fieldNumber with
        | 1 =>
          let (value,reader) ← reader.readInt32
          deserializeBinaryFromReader n { msg with msgseq := value } reader
        | 2 =>
          let (value,reader) ← reader.readString
          deserializeBinaryFromReader n { msg with msgid := value } reader
        | 3 =>
          let (value,reader) ← reader.readBytes
          deserializeBinaryFromReader n { msg with content := value } reader
        | _ =>
          let reader ← reader.skipField n
          deserializeBinaryFromReader n msg reader

/-- `fuel` bounds the rounds of the loop. -/
def deserializeBinary (fuel : ℕ) (bytes : Bytes) : Except Failure WsMsg :=
  deserializeBinaryFromReader fuel ⟨0,[],[]⟩ ⟨⟨bytes,0⟩,0,0⟩

/-! ### Bytes ahead of the cursor -/

def Ahead (rest : Bytes) (d : BinaryDecoder) : Prop :=
  ∃ done : Bytes, d.bytes = done ++ rest ∧ d.cursor = done.length

section Ahead
variable {d : BinaryDecoder} {bs rest : Bytes}

theorem Ahead.start (bs : Bytes) : Ahead bs ⟨bs,0⟩ := ⟨[],rfl,rfl⟩

theorem Ahead.byteAt (h : Ahead bs d) (i : ℕ) : byteAt d.bytes (d.cursor + i) = bs[i]? := by
  obtain ⟨done,bytes,cursor⟩ := h
  rw [Jspb.byteAt,if_pos (by omega),bytes,cursor,List.getElem?_append_right (by omega)]
  congr 1
  omega

theorem Ahead.cursor_le (h : Ahead bs d) :
    0 ≤ d.cursor ∧ d.cursor + bs.length = d.bytes.length := by
  obtain ⟨done,bytes,cursor⟩ := h
  rw [bytes,cursor,List.length_append]
  omega

theorem Ahead.moved {used : Bytes} (h : Ahead (used ++ rest) d) :
    Ahead rest { d with cursor := d.cursor + used.length } := by
  obtain ⟨done,bytes,cursor⟩ := h
  refine ⟨done ++ used,by rw [bytes,List.append_assoc],?_⟩
  rw [cursor,List.length_append]
  rfl

theorem Ahead.advance {used : Bytes} (h : Ahead (used ++ rest) d) {n : ℤ} (len : n = used.length) :
    d.advance n = .ok { d with cursor := d.cursor + used.length } := by
  have ends := h.cursor_le
  rw [List.length_append] at ends
  rw [BinaryDecoder.advance,len,if_pos (by omega)]

theorem Ahead.advanced {used : Bytes} (h : Ahead (used ++ rest) d) {n value value' : ℤ}
    (len : n = used.length) (eq : value = value') :
    d.advanced n value = .ok (value',{ d with cursor := d.cursor + used.length }) := by
  rw [BinaryDecoder.advanced,h.advance len,eq]
  rfl

end Ahead

/-! ### Varints -/

/-- The number of a varint with the high bytes `hs` before its last byte `b`. -/
def groups : Bytes → UInt8 → ℕ
  | [], b => b.toNat
  | h :: hs, b => h.toNat % 128 + 128 * groups hs b

theorem readVarint_groups {k n : ℕ} {bs rest : Bytes} (h : readVarint k bs = some (n,rest)) :
    ∃ hs b, bs = hs ++ b :: rest ∧ (∀ x ∈ hs, 128 ≤ x.toNat) ∧ b.toNat < 128 ∧ hs.length < k ∧
      n = groups hs b := by
  induction k generalizing bs n with
  | zero => simp [readVarint] at h
  | succ k ih =>
    cases bs with
    | nil => simp [readVarint] at h
    | cons b bs =>
      by_cases last : b.toNat < 128
      · simp only [readVarint,last,↓reduceIte,Option.some.injEq,Prod.mk.injEq] at h
        obtain ⟨rfl,rfl⟩ := h
        exact ⟨[],b,rfl,fun x mem => absurd mem List.not_mem_nil,last,Nat.succ_pos k,rfl⟩
      · simp only [readVarint,last,↓reduceIte,Option.map_eq_some_iff,Prod.mk.injEq] at h
        obtain ⟨⟨w,r⟩,read,rfl,rfl⟩ := h
        obtain ⟨hs,c,rfl,high,low,len,rfl⟩ := ih read
        refine ⟨b :: hs,c,rfl,?_,low,Nat.succ_lt_succ len,rfl⟩
        exact List.forall_mem_cons.mpr ⟨Nat.not_lt.mp last,high⟩

/-- A number of at most five bytes is read as an unsigned one, a longer one as signed. -/
def varintValue (size n : ℕ) : ℤ :=
  if size ≤ 5 then (n % 2 ^ 32 : ℕ) else (BitVec.ofNat 32 n).toInt

theorem or_shift {x y : BitVec 32} {k v w : ℕ} (hx : x.toNat = v) (small : v < 2 ^ k)
    (hy : (y <<< k).toNat = 2 ^ k * w) : (x ||| y <<< k).toNat = v + 2 ^ k * w := by
  rw [BitVec.toNat_or,hx,hy,Nat.or_comm,←Nat.two_pow_add_eq_or_of_lt small,Nat.add_comm]

theorem low_septet (x : UInt8) : (BitVec.ofNat 32 x.toNat &&& 127#32).toNat = x.toNat % 128 := by
  have bound := x.toNat_lt
  rw [BitVec.toNat_and,BitVec.toNat_ofNat,Nat.mod_eq_of_lt (by omega)]
  exact and_127 x.toNat

theorem shifted_septet (x : UInt8) {k : ℕ} (fits : 2 ^ k * 128 ≤ 2 ^ 32) :
    ((BitVec.ofNat 32 x.toNat &&& 127#32) <<< k).toNat = 2 ^ k * (x.toNat % 128) := by
  have bound : 2 ^ k * (x.toNat % 128) < 2 ^ k * 128 :=
    Nat.mul_lt_mul_of_pos_left (Nat.mod_lt _ (by decide)) (Nat.two_pow_pos k)
  rw [BitVec.toNat_shiftLeft,low_septet,Nat.shiftLeft_eq,Nat.mul_comm,
    Nat.mod_eq_of_lt (by omega)]

theorem shifted_nibble (x : UInt8) :
    ((BitVec.ofNat 32 x.toNat &&& 15#32) <<< 28).toNat = 2 ^ 28 * (x.toNat % 16) := by
  have bound := x.toNat_lt
  have low : (BitVec.ofNat 32 x.toNat &&& 15#32).toNat = x.toNat % 16 := by
    rw [BitVec.toNat_and,BitVec.toNat_ofNat,Nat.mod_eq_of_lt (by omega)]
    exact Nat.and_two_pow_sub_one_eq_mod x.toNat 4
  rw [BitVec.toNat_shiftLeft,low,Nat.shiftLeft_eq,Nat.mul_comm]
  omega

section Words
variable (x y z u v : UInt8)

def word1 : BitVec 32 := BitVec.ofNat 32 x.toNat &&& 127#32
def word2 : BitVec 32 := word1 x ||| (BitVec.ofNat 32 y.toNat &&& 127#32) <<< 7
def word3 : BitVec 32 := word2 x y ||| (BitVec.ofNat 32 z.toNat &&& 127#32) <<< 14
def word4 : BitVec 32 := word3 x y z ||| (BitVec.ofNat 32 u.toNat &&& 127#32) <<< 21
def word5 : BitVec 32 := word4 x y z u ||| (BitVec.ofNat 32 v.toNat &&& 15#32) <<< 28

theorem word1_eq : (word1 x).toNat = x.toNat % 128 := low_septet x

theorem word2_eq : (word2 x y).toNat = x.toNat % 128 + 2 ^ 7 * (y.toNat % 128) :=
  or_shift (word1_eq x) (Nat.mod_lt _ (by decide)) (shifted_septet y (by decide))

theorem word3_eq : (word3 x y z).toNat =
    x.toNat % 128 + 2 ^ 7 * (y.toNat % 128) + 2 ^ 14 * (z.toNat % 128) :=
  or_shift (word2_eq x y) (by omega) (shifted_septet z (by decide))

theorem word4_eq : (word4 x y z u).toNat = x.toNat % 128 + 2 ^ 7 * (y.toNat % 128) +
    2 ^ 14 * (z.toNat % 128) + 2 ^ 21 * (u.toNat % 128) :=
  or_shift (word3_eq x y z) (by omega) (shifted_septet u (by decide))

theorem word5_eq : (word5 x y z u v).toNat = x.toNat % 128 + 2 ^ 7 * (y.toNat % 128) +
    2 ^ 14 * (z.toNat % 128) + 2 ^ 21 * (u.toNat % 128) + 2 ^ 28 * (v.toNat % 16) :=
  or_shift (word4_eq x y z u) (by omega) (shifted_nibble v)

end Words

@[simp] theorem isBelow_some (v : UInt8) (n : ℕ) : IsBelow (some v) n ↔ v.toNat < n := by
  simp [IsBelow]

@[simp] theorem isHigh_some (v : UInt8) : IsHigh (some v) ↔ 128 ≤ v.toNat := by
  simp [IsHigh]

theorem afterHigh_eq {d : BinaryDecoder} {bs hs tail : Bytes} {b : UInt8} {n i : ℕ}
    (ahead : Ahead bs d) (here : bs.drop i = hs ++ b :: tail) (high : ∀ x ∈ hs, 128 ≤ x.toNat)
    (low : b.toNat < 128) (len : hs.length < n) :
    d.afterHigh n i = some ((i + hs.length + 1 : ℕ) : ℤ) := by
  induction hs generalizing n i with
  | nil =>
    cases n with
    | zero => exact absurd len (Nat.not_lt_zero _)
    | succ n =>
      have first : bs[i]? = some b := by rw [←List.head?_drop,here]; rfl
      simp only [BinaryDecoder.afterHigh,ahead.byteAt,first,isHigh_some,Nat.not_le.mpr low,if_false]
      rfl
  | cons x hs ih =>
    cases n with
    | zero => exact absurd len (Nat.not_lt_zero _)
    | succ n =>
      obtain ⟨highX,high⟩ := List.forall_mem_cons.mp high
      have first : bs[i]? = some x := by rw [←List.head?_drop,here]; rfl
      have later : bs.drop (i + 1) = hs ++ b :: tail := by
        rw [←List.drop_drop,here]
        rfl
      have rest := ih later high (Nat.lt_of_succ_lt_succ len)
      simp only [BinaryDecoder.afterHigh,ahead.byteAt,first,isHigh_some,highX,if_true]
      refine rest.trans (congrArg some ?_)
      rw [List.length_cons]
      omega

theorem short_value {w : BitVec 32} {size n : ℕ} (hw : w.toNat = n) (small : n < 2 ^ 28)
    (five : size ≤ 5) : w.toInt = varintValue size n := by
  rw [varintValue,if_pos five,Nat.mod_eq_of_lt (by omega),←hw,
    BitVec.toInt_eq_toNat_of_lt (by omega)]

theorem long_value {w : BitVec 32} {size n : ℕ} (hw : w.toNat = n % 2 ^ 32) (long : 5 < size) :
    w.toInt = varintValue size n := by
  have word : w = BitVec.ofNat 32 n := BitVec.eq_of_toNat_eq hw
  rw [varintValue,if_neg (Nat.not_le.mpr long),word]

theorem readUnsignedVarint32_eq {n : ℕ} {bs rest : Bytes} {d : BinaryDecoder} (ahead : Ahead bs d)
    (h : readVarint 10 bs = some (n,rest)) : ∃ d', d.readUnsignedVarint32 =
      .ok (varintValue (bs.length - rest.length) n,d') ∧ Ahead rest d' := by
  obtain ⟨hs,b,rfl,high,low,len,rfl⟩ := readVarint_groups h
  have size : (hs ++ b :: rest).length - rest.length = hs.length + 1 := by
    simp only [List.length_append,List.length_cons]
    omega
  have next : Ahead ((hs ++ [b]) ++ rest) d := by
    rw [List.append_assoc]
    exact ahead
  refine ⟨{ d with cursor := d.cursor + (hs ++ [b]).length },?_,next.moved⟩
  rw [size]
  have e0 : byteAt d.bytes (d.cursor + 0) = _ := ahead.byteAt 0
  have e1 : byteAt d.bytes (d.cursor + 1) = _ := ahead.byteAt 1
  have e2 : byteAt d.bytes (d.cursor + 2) = _ := ahead.byteAt 2
  have e3 : byteAt d.bytes (d.cursor + 3) = _ := ahead.byteAt 3
  have e4 : byteAt d.bytes (d.cursor + 4) = _ := ahead.byteAt 4
  have not_low {x : UInt8} (hx : 128 ≤ x.toNat) : ¬x.toNat < 128 := Nat.not_lt.mpr hx
  unfold BinaryDecoder.readUnsignedVarint32 BinaryDecoder.septet
  -- The source reads the bytes one after the other, so there is a case for each length.
  match hs with
  | [] =>
    have value : (word1 b).toNat = groups [] b := by
      rw [word1_eq,groups]
      omega
    simp only [e0,List.nil_append,List.getElem?_cons_zero,toNumber,Option.elim_some,isBelow_some,
      low,if_true]
    exact next.advanced rfl
      (short_value value (by simp only [groups]; omega) (show 1 ≤ 5 by decide))
  | [x] =>
    simp only [List.forall_mem_cons] at high
    have value : (word2 x b).toNat = groups [x] b := by
      rw [word2_eq,groups,groups]
      omega
    simp only [e0,e1,List.cons_append,List.nil_append,List.getElem?_cons_zero,
      List.getElem?_cons_succ,toNumber,Option.elim_some,isBelow_some,low,if_true,not_low high.1,
      if_false]
    exact next.advanced rfl
      (short_value value (by simp only [groups]; omega) (show 2 ≤ 5 by decide))
  | [x,y] =>
    simp only [List.forall_mem_cons] at high
    have value : (word3 x y b).toNat = groups [x,y] b := by
      rw [word3_eq,groups,groups,groups]
      omega
    simp only [e0,e1,e2,List.cons_append,List.nil_append,List.getElem?_cons_zero,
      List.getElem?_cons_succ,toNumber,Option.elim_some,isBelow_some,low,if_true,not_low high.1,
      not_low high.2.1,if_false]
    exact next.advanced rfl
      (short_value value (by simp only [groups]; omega) (show 3 ≤ 5 by decide))
  | [x,y,z] =>
    simp only [List.forall_mem_cons] at high
    have value : (word4 x y z b).toNat = groups [x,y,z] b := by
      rw [word4_eq,groups,groups,groups,groups]
      omega
    simp only [e0,e1,e2,e3,List.cons_append,List.nil_append,List.getElem?_cons_zero,
      List.getElem?_cons_succ,toNumber,Option.elim_some,isBelow_some,low,if_true,not_low high.1,
      not_low high.2.1,not_low high.2.2.1,if_false]
    exact next.advanced rfl
      (short_value value (by simp only [groups]; omega) (show 4 ≤ 5 by decide))
  | [x,y,z,u] =>
    simp only [List.forall_mem_cons] at high
    have value : (word5 x y z u b).toNat = groups [x,y,z,u] b % 2 ^ 32 := by
      rw [word5_eq]
      simp only [groups]
      omega
    simp only [e0,e1,e2,e3,e4,List.cons_append,List.nil_append,List.getElem?_cons_zero,
      List.getElem?_cons_succ,toNumber,Option.elim_some,isBelow_some,low,if_true,not_low high.1,
      not_low high.2.1,not_low high.2.2.1,not_low high.2.2.2.1,if_false]
    exact next.advanced rfl (congrArg Int.ofNat value)
  | x :: y :: z :: u :: v :: hs =>
    simp only [List.forall_mem_cons] at high
    simp only [List.length_cons] at len
    have value : (word5 x y z u v).toNat = groups (x :: y :: z :: u :: v :: hs) b % 2 ^ 32 := by
      rw [word5_eq]
      simp only [groups]
      omega
    have here : (x :: y :: z :: u :: v :: hs ++ b :: rest).drop 5 = hs ++ b :: rest := rfl
    have skipped := afterHigh_eq ahead (n := 5) here high.2.2.2.2.2 low (by omega)
    have five : ((5 : ℕ) : ℤ) = 5 := rfl
    rw [five] at skipped
    simp only [e0,e1,e2,e3,e4,List.cons_append,List.getElem?_cons_zero,
      List.getElem?_cons_succ,toNumber,Option.elim_some,isBelow_some,not_low high.1,
      not_low high.2.1,not_low high.2.2.1,not_low high.2.2.2.1,not_low high.2.2.2.2.1,if_false,
      skipped]
    refine next.advanced ?_ (long_value value (by simp only [List.length_cons]; omega))
    simp only [List.length_append,List.length_cons,List.length_nil]
    omega

theorem ofInt_varintValue (size n : ℕ) :
    BitVec.ofInt 32 (varintValue size n) = BitVec.ofNat 32 n := by
  rw [varintValue]
  split_ifs
  · rw [BitVec.ofInt_natCast]
    apply BitVec.eq_of_toNat_eq
    rw [BitVec.toNat_ofNat,BitVec.toNat_ofNat,Nat.mod_mod]
  · exact BitVec.ofInt_toInt

theorem varintValue_cases (size n : ℕ) : varintValue size n = (BitVec.ofNat 32 n).toInt ∨
    varintValue size n = (BitVec.ofNat 32 n).toNat := by
  rw [varintValue]
  split_ifs
  · exact .inr (congrArg Int.ofNat (BitVec.toNat_ofNat n 32).symm)
  · exact .inl rfl

theorem varintValue_small {n : ℕ} (size : ℕ) (h : n % 2 ^ 32 < 2 ^ 31) :
    varintValue size n = (n % 2 ^ 32 : ℕ) := by
  rw [varintValue]
  split_ifs
  · rfl
  · rw [BitVec.toInt_eq_toNat_of_lt (by rw [BitVec.toNat_ofNat]; omega),BitVec.toNat_ofNat]

/-! ### Strings -/

theorem or_low (x : ℕ) {y k : ℕ} (h : y < 2 ^ k) : 2 ^ k * x ||| y = 2 ^ k * x + y :=
  (Nat.two_pow_add_eq_or_of_lt h x).symm

theorem two_bytes (x y : ℕ) : (x &&& 31) <<< 6 ||| y &&& 63 = 64 * (x % 32) + y % 64 := by
  have first : x &&& 31 = x % 32 := Nat.and_two_pow_sub_one_eq_mod x 5
  have all := or_low (x % 32) (y := y % 64) (k := 6) (by omega)
  rw [first,and_63,Nat.shiftLeft_eq,Nat.mul_comm,all]
  rfl

theorem three_bytes (x y z : ℕ) : (x &&& 15) <<< 12 ||| (y &&& 63) <<< 6 ||| z &&& 63 =
    4096 * (x % 16) + 64 * (y % 64) + z % 64 := by
  have first : x &&& 15 = x % 16 := Nat.and_two_pow_sub_one_eq_mod x 4
  have upper := or_low (x % 16) (y := 2 ^ 6 * (y % 64)) (k := 12) (by omega)
  have all := or_low (64 * (x % 16) + y % 64) (y := z % 64) (k := 6) (by omega)
  rw [first,and_63,and_63,Nat.shiftLeft_eq,Nat.shiftLeft_eq,Nat.mul_comm _ (2 ^ 12),
    Nat.mul_comm _ (2 ^ 6),upper]
  have regroup : 2 ^ 12 * (x % 16) + 2 ^ 6 * (y % 64) = 2 ^ 6 * (64 * (x % 16) + y % 64) := by omega
  rw [regroup,all]
  omega

theorem four_bytes (x y z w : ℕ) :
    (x &&& 7) <<< 18 ||| (y &&& 63) <<< 12 ||| (z &&& 63) <<< 6 ||| w &&& 63 =
      262144 * (x % 8) + 4096 * (y % 64) + 64 * (z % 64) + w % 64 := by
  have first : x &&& 7 = x % 8 := Nat.and_two_pow_sub_one_eq_mod x 3
  have one := or_low (x % 8) (y := 2 ^ 12 * (y % 64)) (k := 18) (by omega)
  have two := or_low (64 * (x % 8) + y % 64) (y := 2 ^ 6 * (z % 64)) (k := 12) (by omega)
  have three := or_low (4096 * (x % 8) + 64 * (y % 64) + z % 64) (y := w % 64) (k := 6) (by omega)
  rw [first,and_63,and_63,and_63,Nat.shiftLeft_eq,Nat.shiftLeft_eq,Nat.shiftLeft_eq,
    Nat.mul_comm _ (2 ^ 18),Nat.mul_comm _ (2 ^ 12),Nat.mul_comm _ (2 ^ 6),one]
  have regroup : 2 ^ 18 * (x % 8) + 2 ^ 12 * (y % 64) = 2 ^ 12 * (64 * (x % 8) + y % 64) := by omega
  rw [regroup,two]
  have again : 2 ^ 12 * (64 * (x % 8) + y % 64) + 2 ^ 6 * (z % 64) =
      2 ^ 6 * (4096 * (x % 8) + 64 * (y % 64) + z % 64) := by omega
  rw [again,three]
  omega

theorem surrogates_eq {p : ℕ} (lower : 0x10000 ≤ p) (upper : p < 0x110000) :
    BinaryDecoder.surrogates (BitVec.ofNat 32 p) = CodePoints.utf16 p := by
  have value : (BitVec.ofNat 32 p - 65536#32).toNat = p - 0x10000 := by
    rw [BitVec.toNat_sub,BitVec.toNat_ofNat,BitVec.toNat_ofNat]
    omega
  have first : ((BitVec.ofNat 32 p - 65536#32).sshiftRight 10 &&& 1023#32).toNat =
      (p - 0x10000) / 1024 := by
    have positive : (BitVec.ofNat 32 p - 65536#32).msb = false := by
      rw [BitVec.msb_eq_false_iff_two_mul_lt,value]
      omega
    rw [BitVec.sshiftRight_eq_of_msb_false positive,BitVec.toNat_and,BitVec.toNat_ushiftRight,
      value,Nat.shiftRight_eq_div_pow]
    have mask := Nat.and_two_pow_sub_one_eq_mod ((p - 0x10000) / 2 ^ 10) 10
    exact mask.trans (Nat.mod_eq_of_lt (by omega))
  have second : ((BitVec.ofNat 32 p - 65536#32) &&& 1023#32).toNat = (p - 0x10000) % 1024 := by
    rw [BitVec.toNat_and,value]
    exact Nat.and_two_pow_sub_one_eq_mod (p - 0x10000) 10
  rw [BinaryDecoder.surrogates,first,second,CodePoints.utf16,if_neg (Nat.not_lt.mpr lower)]

theorem readUnit_eq {bytes rest : Bytes} {c : ℤ} {p : ℕ} (bound : p < 0x110000)
    (ahead : Ahead ((CodePoints.utf8 p).map UInt8.ofNat ++ rest) ⟨bytes,c⟩) :
    BinaryDecoder.readUnit bytes c = (CodePoints.utf16 p,c + (CodePoints.utf8 p).length) := by
  have byte {n : ℕ} (h : n < 256) : (UInt8.ofNat n).toNat = n := UInt8.toNat_ofNat_of_lt h
  have e0 : byteAt bytes (c + 0) = _ := ahead.byteAt 0
  have e1 : byteAt bytes (c + 1) = _ := ahead.byteAt 1
  have e2 : byteAt bytes (c + 2) = _ := ahead.byteAt 2
  have e3 : byteAt bytes (c + 3) = _ := ahead.byteAt 3
  rw [Int.add_zero] at e0
  unfold BinaryDecoder.readUnit
  by_cases one : p < 0x80
  · rw [CodePoints.utf8_one one] at e0 ⊢
    have f := byte (show p < 256 by omega)
    simp only [e0,List.map_cons,List.cons_append,List.getElem?_cons_zero,isBelow_some,toNumber,
      Option.elim_some,f,one,if_true]
    rw [CodePoints.utf16,if_pos (by omega)]
    rfl
  by_cases two : p < 0x800
  · rw [CodePoints.utf8_two one two] at e0 e1 ⊢
    have f := byte (show p / 64 + 0xc0 < 256 by omega)
    have g := byte (show p % 64 + 0x80 < 256 by omega)
    have point : 64 * ((p / 64 + 0xc0) % 32) + (p % 64 + 0x80) % 64 = p := by omega
    simp only [e0,e1,List.map_cons,List.cons_append,List.getElem?_cons_zero,
      List.getElem?_cons_succ,isBelow_some,toNumber,Option.elim_some,f,g,two_bytes,point]
    rw [if_neg (by omega),if_neg (by omega),if_pos (by omega),CodePoints.utf16,if_pos (by omega)]
    rfl
  by_cases three : p < 0x10000
  · rw [CodePoints.utf8_three two three] at e0 e1 e2 ⊢
    have f := byte (show p / 4096 + 0xe0 < 256 by omega)
    have g := byte (show p / 64 % 64 + 0x80 < 256 by omega)
    have h := byte (show p % 64 + 0x80 < 256 by omega)
    have point : 4096 * ((p / 4096 + 0xe0) % 16) + 64 * ((p / 64 % 64 + 0x80) % 64) +
        (p % 64 + 0x80) % 64 = p := by omega
    simp only [e0,e1,e2,List.map_cons,List.cons_append,List.getElem?_cons_zero,
      List.getElem?_cons_succ,isBelow_some,toNumber,Option.elim_some,f,g,h,three_bytes,point]
    rw [if_neg (by omega),if_neg (by omega),if_neg (by omega),if_pos (by omega),CodePoints.utf16,
      if_pos three]
    rfl
  · rw [CodePoints.utf8_four three] at e0 e1 e2 e3 ⊢
    have f := byte (show p / 262144 + 0xf0 < 256 by omega)
    have g := byte (show p / 4096 % 64 + 0x80 < 256 by omega)
    have h := byte (show p / 64 % 64 + 0x80 < 256 by omega)
    have k := byte (show p % 64 + 0x80 < 256 by omega)
    have point : 262144 * ((p / 262144 + 0xf0) % 8) + 4096 * ((p / 4096 % 64 + 0x80) % 64) +
        64 * ((p / 64 % 64 + 0x80) % 64) + (p % 64 + 0x80) % 64 = p := by omega
    simp only [e0,e1,e2,e3,List.map_cons,List.cons_append,List.getElem?_cons_zero,
      List.getElem?_cons_succ,isBelow_some,toNumber,Option.elim_some,f,g,h,k,four_bytes,point]
    rw [if_neg (by omega),if_neg (by omega),if_neg (by omega),if_neg (by omega),if_pos (by omega),
      surrogates_eq (Nat.not_lt.mp three) bound]
    rfl

/-- The code points of three bytes that are surrogates are read like the others. -/
theorem readUnits_eq {bytes rest : Bytes} {ps : List ℕ} (bound : ∀ p ∈ ps, p < 0x110000) {c a : ℤ}
    {n : ℕ} (ahead : Ahead ((ps.flatMap CodePoints.utf8).map UInt8.ofNat ++ rest) ⟨bytes,c⟩)
    (ends : a = c + (ps.flatMap CodePoints.utf8).length) (fuel : ps.length ≤ n) :
    BinaryDecoder.readUnits bytes a n c = (ps.flatMap CodePoints.utf16,a) := by
  induction ps generalizing c n with
  | nil =>
    have spent : a = c := by simpa using ends
    cases n with
    | zero => rw [BinaryDecoder.readUnits,spent]; rfl
    | succ n => rw [BinaryDecoder.readUnits,if_neg (by omega),spent]; rfl
  | cons p ps ih =>
    cases n with
    | zero => exact absurd fuel (Nat.not_succ_le_zero _)
    | succ n =>
      rw [List.flatMap_cons] at ahead ends
      rw [List.map_append,List.append_assoc] at ahead
      rw [List.length_append] at ends
      have some_byte := List.length_pos_iff.mpr (CodePoints.utf8_ne_nil p)
      have unit := readUnit_eq (bound p List.mem_cons_self) ahead
      have moved := ahead.moved
      rw [List.length_map] at moved
      change Ahead _ ⟨bytes,c + (CodePoints.utf8 p).length⟩ at moved
      have rest := ih (fun q mem => bound q (List.mem_cons_of_mem p mem)) moved (by omega)
        (Nat.le_of_succ_le_succ fuel)
      rw [BinaryDecoder.readUnits,if_pos (by omega),unit]
      simp only [rest,List.flatMap_cons]

/-! ### Fields -/

section Fields
variable {bs rest : Bytes} {r : BinaryReader}

theorem nextField_end (ahead : Ahead [] r.decoder) : r.nextField = .ok none := by
  have ends := ahead.cursor_le
  rw [BinaryReader.nextField,if_pos (by simpa using ends.2)]

theorem nextField_eq {tag : ℕ} (ahead : Ahead bs r.decoder) (h : readTag bs = some (tag,rest)) :
    (tag % 8 < 6 → ∃ d, r.nextField = .ok (some ⟨d,tag / 8,tag % 8⟩) ∧ Ahead rest d) ∧
      (6 ≤ tag % 8 → r.nextField = .error .assertion) := by
  obtain ⟨n,read,low⟩ := readTag_eq_some h
  obtain ⟨d,eq,next⟩ := readUnsignedVarint32_eq ahead read
  have shorter := readTag_length h
  have ends := ahead.cursor_le
  have inside : r.decoder.cursor ≠ r.decoder.bytes.length := by omega
  have whole : ¬(r.decoder.cursor < 0 ∨ (r.decoder.bytes.length : ℤ) < r.decoder.cursor) := by omega
  have value : (BitVec.ofInt 32 (varintValue (bs.length - rest.length) n)).toNat = tag := by
    rw [ofInt_varintValue,BitVec.toNat_ofNat,low]
  have mask : tag &&& 7 = tag % 8 := Nat.and_two_pow_sub_one_eq_mod tag 3
  have shift : tag >>> 3 = tag / 8 := Nat.shiftRight_eq_div_pow tag 3
  rw [BinaryReader.nextField,if_neg inside,if_neg whole,eq]
  simp only [bind,Except.bind,value,mask,shift]
  constructor
  · intro valid
    exact ⟨d,if_pos valid,next⟩
  · intro invalid
    exact if_neg (Nat.not_lt.mpr invalid)

theorem readInt32_eq {n : ℕ} (ahead : Ahead bs r.decoder) (varint : r.wireType = 0)
    (h : readVarint 10 bs = some (n,rest)) : ∃ d, Ahead rest d ∧
      r.readInt32 = .ok (varintValue (bs.length - rest.length) n,{ r with decoder := d }) := by
  obtain ⟨d,eq,next⟩ := readUnsignedVarint32_eq ahead h
  refine ⟨d,next,?_⟩
  rw [BinaryReader.readInt32,BinaryReader.expect,if_pos varint,eq]
  rfl

/-- The size of a field that the other parser reads is not negative here either. -/
theorem readSize_eq {v : ByteString} (ahead : Ahead bs r.decoder)
    (h : WireFormat.readBytes bs = some (v,rest)) : ∃ d, Ahead (v.bytes ++ rest) d ∧
      r.decoder.readUnsignedVarint32 = .ok ((v.bytes.length : ℤ),d) := by
  obtain ⟨n,read,size⟩ := readBytes_eq_some h
  obtain ⟨d,eq,next⟩ := readUnsignedVarint32_eq ahead read
  have small := v.size_lt
  rw [varintValue_small _ (by omega),size] at eq
  exact ⟨d,next,eq⟩

theorem readString_eq {v : ByteString} {ps : List ℕ} (bound : ∀ p ∈ ps, p < 0x110000)
    (ahead : Ahead bs r.decoder) (delimited : r.wireType = 2)
    (h : WireFormat.readBytes bs = some (v,rest))
    (points : v.bytes = (ps.flatMap CodePoints.utf8).map UInt8.ofNat) : ∃ d, Ahead rest d ∧
      r.readString = .ok (ps.flatMap CodePoints.utf16,{ r with decoder := d }) := by
  obtain ⟨d,next,eq⟩ := readSize_eq ahead h
  have moved := next.moved
  rw [points] at next
  have length : v.bytes.length = (ps.flatMap CodePoints.utf8).length := by
    rw [points,List.length_map]
  have fuel : ps.length ≤ v.bytes.length := by
    rw [length]
    exact CodePoints.length_le_utf8 ps
  have units := readUnits_eq (a := d.cursor + v.bytes.length) bound next (by rw [length]) fuel
  refine ⟨{ d with cursor := d.cursor + v.bytes.length },moved,?_⟩
  rw [BinaryReader.readString,BinaryReader.expect,if_pos delimited,eq]
  simp only [bind,Except.bind,BinaryDecoder.readString,Int.toNat_natCast,units]

theorem readBytes_eq {v : ByteString} (ahead : Ahead bs r.decoder) (delimited : r.wireType = 2)
    (h : WireFormat.readBytes bs = some (v,rest)) : ∃ d, Ahead rest d ∧
      r.readBytes = .ok (v.bytes,{ r with decoder := d }) := by
  obtain ⟨d,next,eq⟩ := readSize_eq ahead h
  have moved := next.moved
  have ends := next.cursor_le
  obtain ⟨done,bytes,cursor⟩ := next
  rw [List.length_append] at ends
  have inside : ¬((v.bytes.length : ℤ) < 0 ∨ (d.bytes.length : ℤ) < d.cursor + v.bytes.length) := by
    omega
  refine ⟨{ d with cursor := d.cursor + v.bytes.length },moved,?_⟩
  rw [BinaryReader.readBytes,BinaryReader.expect,if_pos delimited,eq]
  simp only [bind,Except.bind,BinaryDecoder.readBytes]
  rw [if_neg inside,Int.toNat_natCast,bytes,cursor,Int.toNat_natCast,List.drop_left,List.take_left]

/-! ### Skipped fields -/

theorem high_bit (x : UInt8) : x.toNat &&& 128 ≠ 0 ↔ 128 ≤ x.toNat := by
  have all : ∀ n < 256, (n &&& 128 ≠ 0 ↔ 128 ≤ n) := by decide +kernel
  exact all x.toNat x.toNat_lt

theorem highRun_eq {d : BinaryDecoder} {hs tail : Bytes} {b : UInt8} {n i : ℕ} (ahead : Ahead bs d)
    (here : bs.drop i = hs ++ b :: tail) (high : ∀ x ∈ hs, 128 ≤ x.toNat) (low : b.toNat < 128)
    (len : hs.length < n) :
    BinaryDecoder.highRun d.bytes n (d.cursor + i) = d.cursor + (i + hs.length : ℕ) := by
  induction hs generalizing n i with
  | nil =>
    cases n with
    | zero => exact absurd len (Nat.not_lt_zero _)
    | succ n =>
      have first : bs[i]? = some b := by rw [←List.head?_drop,here]; rfl
      simp only [BinaryDecoder.highRun,ahead.byteAt,first,toNumber,Option.elim_some,high_bit,
        Nat.not_le.mpr low,if_false]
      rfl
  | cons x hs ih =>
    cases n with
    | zero => exact absurd len (Nat.not_lt_zero _)
    | succ n =>
      obtain ⟨highX,high⟩ := List.forall_mem_cons.mp high
      have first : bs[i]? = some x := by rw [←List.head?_drop,here]; rfl
      have later : bs.drop (i + 1) = hs ++ b :: tail := by
        rw [←List.drop_drop,here]
        rfl
      have rest := ih later high (Nat.lt_of_succ_lt_succ len)
      simp only [BinaryDecoder.highRun,ahead.byteAt,first,toNumber,Option.elim_some,high_bit,highX,
        if_true]
      have place : d.cursor + i + 1 = d.cursor + (i + 1 : ℕ) := by omega
      rw [place,rest,List.length_cons]
      omega

theorem skipVarint_eq {n : ℕ} {d : BinaryDecoder} (ahead : Ahead bs d)
    (h : readVarint 10 bs = some (n,rest)) : Ahead rest d.skipVarint := by
  obtain ⟨hs,b,rfl,high,low,len,_⟩ := readVarint_groups h
  have ends := ahead.cursor_le
  rw [List.length_append,List.length_cons] at ends
  have run := highRun_eq (n := d.bytes.length) (i := 0) ahead rfl high low (by omega)
  have next : Ahead ((hs ++ [b]) ++ rest) d := by
    rw [List.append_assoc]
    exact ahead
  have place : BinaryDecoder.highRun d.bytes d.bytes.length d.cursor + 1 =
      d.cursor + (hs ++ [b]).length := by
    rw [show d.cursor = d.cursor + ((0 : ℕ) : ℤ) from (Int.add_zero _).symm,run,List.length_append]
    simp
    omega
  rw [BinaryDecoder.skipVarint,place]
  exact next.moved

theorem skipFixedField_eq {n : ℕ} (ahead : Ahead bs r.decoder) (h : skipFixed n bs = some rest) :
    ∃ d, Ahead rest d ∧ r.skipFixedField n = .ok { r with decoder := d } := by
  rw [skipFixed] at h
  split_ifs at h with enough
  cases h
  have next : Ahead (bs.take n ++ bs.drop n) r.decoder := by rwa [List.take_append_drop]
  have length : (n : ℤ) = (bs.take n).length := by
    rw [List.length_take]
    omega
  refine ⟨_,next.moved,?_⟩
  rw [BinaryReader.skipFixedField,next.advance length]
  rfl

theorem skipDelimitedField_eq {v : ByteString} (ahead : Ahead bs r.decoder)
    (h : WireFormat.readBytes bs = some (v,rest)) :
    ∃ d, Ahead rest d ∧ r.skipDelimitedField = .ok { r with decoder := d } := by
  obtain ⟨d,next,eq⟩ := readSize_eq ahead h
  refine ⟨_,next.moved,?_⟩
  rw [BinaryReader.skipDelimitedField,eq]
  simp only [bind,Except.bind,next.advance rfl]

/-- What the other parser skips as a scalar is skipped here, however groups are. -/
theorem skipScalar_eq (group : ℕ → BinaryReader → Except Failure BinaryReader)
    (ahead : Ahead bs r.decoder) (h : skipScalar r.wireType bs = some rest) :
    ∃ d, Ahead rest d ∧ r.skipFieldWith group = .ok { r with decoder := d } := by
  obtain ⟨decoder,number,wire⟩ := r
  match wire, h with
  | 0, h =>
    obtain ⟨⟨n,r'⟩,read,rfl⟩ := Option.map_eq_some_iff.mp h
    exact ⟨_,skipVarint_eq ahead read,rfl⟩
  | 1, h => exact skipFixedField_eq (r := ⟨decoder,number,1⟩) ahead h
  | 2, h =>
    obtain ⟨⟨v,r'⟩,read,rfl⟩ := Option.map_eq_some_iff.mp h
    exact skipDelimitedField_eq (r := ⟨decoder,number,2⟩) ahead read
  | 5, h => exact skipFixedField_eq (r := ⟨decoder,number,5⟩) ahead h

end Fields

end SeeU.Jspb
