import SeeU.WireMessage

set_option autoImplicit false

/-!
# The size of a message before it is written

A message is written into an array whose size is added up beforehand, field by field, in
32-bit arithmetic. The size of a varint is found by masks, not by writing it.
-/
namespace WireFormat

def computeUInt32SizeNoTag (value : BitVec 32) : BitVec 32 :=
  if value &&& (~~~0#32 <<< 7) = 0 then 1
  else if value &&& (~~~0#32 <<< 14) = 0 then 2
  else if value &&& (~~~0#32 <<< 21) = 0 then 3
  else if value &&& (~~~0#32 <<< 28) = 0 then 4
  else 5

/-- A negative value takes the ten bytes of its sign extension. -/
def computeInt32SizeNoTag (value : BitVec 32) : BitVec 32 :=
  if 0 ≤ value.toInt then computeUInt32SizeNoTag value else 10

def computeTagSize (fieldNumber : ℕ) : BitVec 32 :=
  computeUInt32SizeNoTag (BitVec.ofNat 32 fieldNumber <<< 3)

def computeLengthDelimitedFieldSize (fieldLength : ℕ) : BitVec 32 :=
  computeUInt32SizeNoTag (BitVec.ofNat 32 fieldLength) + BitVec.ofNat 32 fieldLength

def Kind.computeSizeNoTag : (k : Kind) → k.Val → BitVec 32
  | int32, v | enum, v => computeInt32SizeNoTag v
  | bool, _ => 1
  | string, v => computeLengthDelimitedFieldSize (utf8 v.val).length
  | bytes, v => computeLengthDelimitedFieldSize v.bytes.length

variable {σ : Type}

def FieldSpec.computeSize (f : FieldSpec σ) (m : σ) : BitVec 32 :=
  if f.get m = f.kind.default then 0
  else computeTagSize f.number + f.kind.computeSizeNoTag (f.get m)

def Schema.getSerializedSize (S : Schema σ) (m : σ) : BitVec 32 :=
  S.fields.foldl (fun size f => size + f.computeSize m) 0

/-! ### Unknown fields -/

/-- The unknown fields of a message, as the protobuf library keeps and writes them. -/
structure UnknownFieldSet where
  Fields : Type
  writeTo : Fields → Bytes
  getSerializedSize : Fields → BitVec 32

/-- The library counts the bytes that it writes. -/
def UnknownFieldSet.Counts (U : UnknownFieldSet) : Prop :=
  ∀ u, U.getSerializedSize u = BitVec.ofNat 32 (U.writeTo u).length

structure Message (σ : Type) (U : UnknownFieldSet) where
  fields : σ
  unknownFields : U.Fields

/-- Unknown fields are written behind the declared ones. -/
def Schema.writeMessage (S : Schema σ) {U : UnknownFieldSet} (m : Message σ U) : Bytes :=
  S.writeTo m.fields ++ U.writeTo m.unknownFields

def Schema.messageSize (S : Schema σ) {U : UnknownFieldSet} (m : Message σ U) : BitVec 32 :=
  S.getSerializedSize m.fields + U.getSerializedSize m.unknownFields

/-! ### Varints -/

theorem mask_bit (k i : ℕ) (hi : i < 32) : (~~~0#32 <<< k).getLsbD i = decide (k ≤ i) := by
  rw [show ~~~0#32 = BitVec.allOnes 32 from rfl,BitVec.getLsbD_shiftLeft,BitVec.getLsbD_allOnes]
  by_cases h : k ≤ i
  · have near : i - k < 32 := by omega
    simp [hi,h,near]
  · simp [h,Nat.lt_of_not_le h]

/-- The masks test whether the value has bits from position `k` on. -/
theorem mask_eq_zero_iff (value : BitVec 32) (k : ℕ) :
    value &&& (~~~0#32 <<< k) = 0 ↔ value.toNat < 2 ^ k := by
  constructor
  · intro h
    apply Nat.lt_pow_two_of_testBit
    intro i hi
    rw [BitVec.testBit_toNat]
    by_cases hw : i < 32
    · have bit : (value &&& (~~~0#32 <<< k)).getLsbD i = false := by
        rw [h]
        exact BitVec.getLsbD_zero
      rwa [BitVec.getLsbD_and,mask_bit k i hw,decide_eq_true hi,Bool.and_true] at bit
    · exact BitVec.getLsbD_of_ge value i (by omega)
  · intro h
    apply BitVec.eq_of_getLsbD_eq
    intro i hi
    rw [BitVec.getLsbD_and,mask_bit k i hi]
    by_cases hk : k ≤ i
    · have bit : value.getLsbD i = false := by
        rw [←BitVec.testBit_toNat]
        exact Nat.testBit_lt_two_pow (h.trans_le (Nat.pow_le_pow_right (by decide) hk))
      simp [bit]
    · simp [hk]

theorem writeVarint_length_succ {k v : ℕ} (h : 128 ≤ v) :
    (writeVarint (k + 1) v).length = (writeVarint k (v / 128)).length + 1 := by
  rw [writeVarint,if_neg (by omega),List.length_cons]

theorem writeVarint_length_one {k v : ℕ} (h : v < 128) : (writeVarint (k + 1) v).length = 1 := by
  rw [writeVarint,if_pos h,List.length_singleton]

theorem computeUInt32SizeNoTag_eq (v : BitVec 32) :
    computeUInt32SizeNoTag v = BitVec.ofNat 32 (writeVarint 10 v.toNat).length := by
  have lt := v.isLt
  unfold computeUInt32SizeNoTag
  simp only [mask_eq_zero_iff]
  split_ifs with h1 h2 h3 h4
  · rw [writeVarint_length_one (by omega)]
    rfl
  · rw [writeVarint_length_succ (by omega),writeVarint_length_one (by omega)]
    rfl
  · rw [writeVarint_length_succ (by omega),writeVarint_length_succ (by omega),
      writeVarint_length_one (by omega)]
    rfl
  · rw [writeVarint_length_succ (by omega),writeVarint_length_succ (by omega),
      writeVarint_length_succ (by omega),writeVarint_length_one (by omega)]
    rfl
  · rw [writeVarint_length_succ (by omega),writeVarint_length_succ (by omega),
      writeVarint_length_succ (by omega),writeVarint_length_succ (by omega),
      writeVarint_length_one (by omega)]
    rfl

/-- A value that needs more than nine groups of seven bits takes ten bytes. -/
theorem writeVarint_length_of_le (k v : ℕ) (h : 128 ^ k ≤ v) :
    (writeVarint (k + 1) v).length = k + 1 := by
  induction k generalizing v with
  | zero =>
    rw [writeVarint]
    split_ifs <;> rfl
  | succ k ih =>
    rw [Nat.pow_succ] at h
    have pos : 1 ≤ 128 ^ k := Nat.one_le_two_pow.trans (Nat.pow_le_pow_left (by decide) k)
    rw [writeVarint_length_succ (by omega),ih (v / 128) (by omega)]

theorem computeInt32SizeNoTag_eq (v : BitVec 32) :
    computeInt32SizeNoTag v = BitVec.ofNat 32 (writeInt32 v).length := by
  have lt := v.isLt
  have width := BitVec.toNat_signExtend v (v := 64)
  rw [BitVec.toNat_setWidth,Nat.mod_eq_of_lt (by omega)] at width
  have sign := BitVec.toInt_eq_msb_cond v
  unfold computeInt32SizeNoTag writeInt32
  cases msb : v.msb with
  | true =>
    rw [msb,if_pos rfl] at width sign
    rw [if_neg (by omega),writeVarint_length_of_le 9 _ (by omega)]
    rfl
  | false =>
    rw [msb,if_neg Bool.false_ne_true] at width sign
    rw [if_pos (by omega),width]
    exact computeUInt32SizeNoTag_eq v

theorem computeLengthDelimitedFieldSize_eq (bs : ByteString) :
    computeLengthDelimitedFieldSize bs.bytes.length = BitVec.ofNat 32 (writeBytes bs).length := by
  have lt := bs.size_lt
  rw [computeLengthDelimitedFieldSize,computeUInt32SizeNoTag_eq,BitVec.toNat_ofNat,
    Nat.mod_eq_of_lt (by omega),writeBytes,List.length_append,BitVec.ofNat_add]

theorem Kind.computeSizeNoTag_eq (k : Kind) (v : k.Val) :
    k.computeSizeNoTag v = BitVec.ofNat 32 (k.write v).length := by
  cases k with
  | int32 | enum => exact computeInt32SizeNoTag_eq v
  | bool => rfl
  | string => exact computeLengthDelimitedFieldSize_eq ⟨utf8 v.val,v.size_lt⟩
  | bytes => exact computeLengthDelimitedFieldSize_eq v

/-! ### Messages -/

section Fields
variable {σ : Type} {f : FieldSpec σ}

/-- The wire type is in the low three bits, which do not change the size of the tag. -/
theorem computeTagSize_eq (pos : 0 < f.number) (lt : f.number < 16) :
    computeTagSize f.number = BitVec.ofNat 32 (writeTag f.tag).length := by
  have bounds := f.tag_bounds pos lt
  have number : (BitVec.ofNat 32 f.number <<< 3).toNat = 8 * f.number := by
    rw [BitVec.toNat_shiftLeft,BitVec.toNat_ofNat,Nat.shiftLeft_eq]
    omega
  rw [computeTagSize,computeUInt32SizeNoTag_eq,number,writeVarint_length_one (by omega),
    writeTag_eq bounds.2,List.length_singleton]

theorem FieldSpec.computeSize_eq (pos : 0 < f.number) (lt : f.number < 16) (m : σ) :
    f.computeSize m = BitVec.ofNat 32 (f.write m).length := by
  unfold FieldSpec.computeSize FieldSpec.write
  split_ifs
  · rfl
  · rw [computeTagSize_eq pos lt,Kind.computeSizeNoTag_eq,List.length_append,BitVec.ofNat_add]

/-- The size found beforehand is the number of bytes written, in 32 bits. -/
theorem Schema.getSerializedSize_eq (S : Schema σ) (m : σ) :
    S.getSerializedSize m = BitVec.ofNat 32 (S.writeTo m).length := by
  have fields : ∀ (fs : List (FieldSpec σ)) (size : BitVec 32),
      (∀ f ∈ fs, 0 < f.number ∧ f.number < 16) →
      fs.foldl (fun size f => size + f.computeSize m) size =
        size + BitVec.ofNat 32 (fs.flatMap (fun f => f.write m)).length := by
    intro fs
    induction fs with
    | nil => simp
    | cons f fs ih =>
      intro size bounds
      have own := bounds f (by simp)
      rw [List.foldl_cons,ih _ (fun g hg => bounds g (by simp [hg])),
        FieldSpec.computeSize_eq own.1 own.2,List.flatMap_cons,List.length_append,
        BitVec.ofNat_add,BitVec.add_assoc]
  rw [Schema.getSerializedSize,fields S.fields 0 (fun f h => ⟨S.number_pos f h,S.number_lt f h⟩)]
  exact BitVec.zero_add _

theorem Schema.messageSize_eq (S : Schema σ) {U : UnknownFieldSet} (counts : U.Counts)
    (m : Message σ U) : S.messageSize m = BitVec.ofNat 32 (S.writeMessage m).length := by
  rw [Schema.messageSize,Schema.writeMessage,S.getSerializedSize_eq,counts,List.length_append,
    BitVec.ofNat_add]

end Fields

/-- A size that an `int` can hold is counted as it is. -/
theorem toInt_ofNat_of_lt {n : ℕ} (h : n < 2 ^ 31) : (BitVec.ofNat 32 n).toInt = n := by
  rw [BitVec.toInt_eq_toNat_of_lt,BitVec.toNat_ofNat,Nat.mod_eq_of_lt (by omega)]
  rw [BitVec.toNat_ofNat,Nat.mod_eq_of_lt (by omega)]
  omega

end WireFormat
