import SeeU.WireVarint
import Mathlib.Data.Nat.Bitwise

set_option autoImplicit false

/-!
# Tags, singular field values and unknown fields

The five kinds of singular field that a message may declare, each with its
default, its writer and its reader, and the reader of the fields a message does
not declare.
-/
namespace WireFormat

/-- A byte string whose size is a non-negative 32-bit integer. -/
structure ByteString where
  bytes : Bytes
  size_lt : bytes.length < 2 ^ 31
  deriving DecidableEq

def ByteString.empty : ByteString := ⟨[],by decide⟩

def utf8 (s : String) : Bytes := s.toByteArray.data.toList

def decodeUtf8 (bs : Bytes) : Option String := String.fromUTF8? ⟨bs.toArray⟩

theorem decodeUtf8_utf8 (s : String) : decodeUtf8 (utf8 s) = some s := by
  have h : (⟨(utf8 s).toArray⟩ : ByteArray) = s.toByteArray := rfl
  rw [decodeUtf8,h,String.fromUTF8?,dif_pos s.isValidUTF8]
  rfl

theorem utf8_of_decodeUtf8 {bs : Bytes} {s : String} (h : decodeUtf8 bs = some s) :
    utf8 s = bs := by
  rw [decodeUtf8,String.fromUTF8?] at h
  split at h
  · cases h
    rfl
  · cases h

/-- A string whose encoding has a non-negative 32-bit size. -/
structure Utf8String where
  val : String
  size_lt : (utf8 val).length < 2 ^ 31
  deriving DecidableEq

def Utf8String.empty : Utf8String := ⟨"",by decide⟩

inductive Kind where
  | int32 | enum | bool | string | bytes
  deriving DecidableEq

namespace Kind

abbrev Val : Kind → Type
  | int32 | enum => BitVec 32
  | bool => Bool
  | string => Utf8String
  | bytes => ByteString

instance decEqVal : (k : Kind) → DecidableEq k.Val
  | int32 | enum => inferInstanceAs (DecidableEq (BitVec 32))
  | bool => inferInstanceAs (DecidableEq Bool)
  | string => inferInstanceAs (DecidableEq Utf8String)
  | bytes => inferInstanceAs (DecidableEq ByteString)

def default : (k : Kind) → k.Val
  | int32 | enum => (0 : BitVec 32)
  | bool => false
  | string => Utf8String.empty
  | bytes => ByteString.empty

def wireType : Kind → ℕ
  | int32 | enum | bool => 0
  | string | bytes => 2

end Kind

def writeInt32 (v : BitVec 32) : Bytes := writeVarint 10 (v.signExtend 64).toNat

def readInt32 (bs : Bytes) : Option (BitVec 32 × Bytes) :=
  (readVarint 10 bs).map (fun p => (BitVec.ofNat 32 p.1,p.2))

def writeBool (v : Bool) : Bytes := [if v then 1 else 0]

def readBool (bs : Bytes) : Option (Bool × Bytes) :=
  (readVarint 10 bs).map (fun p => (decide (p.1 % 2 ^ 64 ≠ 0),p.2))

def writeBytes (v : ByteString) : Bytes := writeVarint 10 v.bytes.length ++ v.bytes

/-- The size is read as a 32-bit integer: a negative or a too large one is an error. -/
def readBytes (bs : Bytes) : Option (ByteString × Bytes) :=
  (readVarint 10 bs).bind (fun p =>
    if h : p.1 % 2 ^ 32 < 2 ^ 31 ∧ p.1 % 2 ^ 32 ≤ p.2.length then
      some (⟨p.2.take (p.1 % 2 ^ 32),by rw [List.length_take]; omega⟩,p.2.drop (p.1 % 2 ^ 32))
    else none)

def writeString (v : Utf8String) : Bytes := writeBytes ⟨utf8 v.val,v.size_lt⟩

def readStringRequireUtf8 (bs : Bytes) : Option (Utf8String × Bytes) :=
  (readBytes bs).bind (fun p =>
    match h : decodeUtf8 p.1.bytes with
    | some s => some (⟨s,by rw [utf8_of_decodeUtf8 h]; exact p.1.size_lt⟩,p.2)
    | none => none)

def Kind.write : (k : Kind) → k.Val → Bytes
  | int32, v | enum, v => writeInt32 v
  | bool, v => writeBool v
  | string, v => writeString v
  | bytes, v => writeBytes v

def Kind.read : (k : Kind) → Bytes → Option (k.Val × Bytes)
  | int32, bs | enum, bs => readInt32 bs
  | bool, bs => readBool bs
  | string, bs => readStringRequireUtf8 bs
  | bytes, bs => readBytes bs

/-! ### Reading back what was written -/

theorem signExtend_extended (v : ℕ) :
    ((BitVec.ofNat 32 v).signExtend 64).toNat = extended 4 (v % 2 ^ 32) := by
  rw [BitVec.toNat_signExtend,BitVec.toNat_setWidth,BitVec.toNat_ofNat,BitVec.msb_eq_decide,
    BitVec.toNat_ofNat,extended]
  simp only [decide_eq_true_eq]
  split_ifs <;> omega

theorem readInt32_write (v : BitVec 32) (rest : Bytes) :
    readInt32 (writeInt32 v ++ rest) = some (v,rest) := by
  have hv : (v.signExtend 64).toNat < 128 ^ (9 + 1) := (v.signExtend 64).isLt.trans (by decide)
  rw [readInt32,writeInt32,readVarint_writeVarint 9 _ rest hv]
  simp only [Option.map_some,Option.some.injEq,Prod.mk.injEq,and_true]
  apply BitVec.eq_of_toNat_eq
  have lt := v.isLt
  rw [BitVec.toNat_ofNat,BitVec.toNat_signExtend,BitVec.toNat_setWidth]
  split_ifs <;> omega

theorem readBool_write (v : Bool) (rest : Bytes) : readBool (writeBool v ++ rest) = some (v,rest) := by
  cases v <;> rfl

theorem readBytes_of_varint {n : ℕ} {v : ByteString} {bs rest : Bytes}
    (hr : readVarint 10 bs = some (n,v.bytes ++ rest)) (hn : n % 2 ^ 32 = v.bytes.length) :
    readBytes bs = some (v,rest) := by
  have lt := v.size_lt
  have fits : n % 2 ^ 32 < 2 ^ 31 ∧ n % 2 ^ 32 ≤ (v.bytes ++ rest).length := by
    rw [hn,List.length_append]
    omega
  rw [readBytes,hr,Option.bind_some,dif_pos fits]
  simp only [hn,List.take_left,List.drop_left]

theorem readBytes_write (v : ByteString) (rest : Bytes) :
    readBytes (writeBytes v ++ rest) = some (v,rest) := by
  have lt := v.size_lt
  have hv : v.bytes.length < 128 ^ (9 + 1) := lt.trans (by decide)
  have hr := readVarint_writeVarint 9 _ (v.bytes ++ rest) hv
  rw [writeBytes,List.append_assoc]
  exact readBytes_of_varint hr (Nat.mod_eq_of_lt (by omega))

theorem readString_write (v : Utf8String) (rest : Bytes) :
    readStringRequireUtf8 (writeString v ++ rest) = some (v,rest) := by
  rw [readStringRequireUtf8,writeString,readBytes_write,Option.bind_some]
  split
  · rename_i s hs
    rw [decodeUtf8_utf8] at hs
    cases hs
    rfl
  · rename_i hs
    rw [decodeUtf8_utf8] at hs
    cases hs

theorem Kind.read_write (k : Kind) (v : k.Val) (rest : Bytes) :
    k.read (k.write v ++ rest) = some (v,rest) := by
  cases k with
  | int32 => exact readInt32_write v rest
  | enum => exact readInt32_write v rest
  | bool => exact readBool_write v rest
  | string => exact readString_write v rest
  | bytes => exact readBytes_write v rest

/-! ### A value that was read is read the same way when more bytes follow -/

theorem readInt32_extend {v : BitVec 32} {bs rest : Bytes} (ys : Bytes)
    (h : readInt32 bs = some (v,rest)) : readInt32 (bs ++ ys) = some (v,rest ++ ys) := by
  simp only [readInt32,Option.map_eq_some_iff,Prod.mk.injEq] at h
  obtain ⟨⟨w,r⟩,hr,rfl,rfl⟩ := h
  simp [readInt32,readVarint_extend ys hr]

theorem readBool_extend {v : Bool} {bs rest : Bytes} (ys : Bytes)
    (h : readBool bs = some (v,rest)) : readBool (bs ++ ys) = some (v,rest ++ ys) := by
  simp only [readBool,Option.map_eq_some_iff,Prod.mk.injEq] at h
  obtain ⟨⟨w,r⟩,hr,rfl,rfl⟩ := h
  simp [readBool,readVarint_extend ys hr]

theorem readBytes_eq_some {v : ByteString} {bs rest : Bytes} (h : readBytes bs = some (v,rest)) :
    ∃ n, readVarint 10 bs = some (n,v.bytes ++ rest) ∧ n % 2 ^ 32 = v.bytes.length := by
  simp only [readBytes,Option.bind_eq_some_iff] at h
  obtain ⟨⟨n,r⟩,hr,h⟩ := h
  split at h
  · rename_i hn
    simp only [Option.some.injEq,Prod.mk.injEq] at h
    obtain ⟨rfl,rfl⟩ := h
    refine ⟨n,?_,?_⟩
    · rw [List.take_append_drop]
      exact hr
    · rw [List.length_take]
      exact (Nat.min_eq_left hn.2).symm
  · cases h

theorem readBytes_extend {v : ByteString} {bs rest : Bytes} (ys : Bytes)
    (h : readBytes bs = some (v,rest)) : readBytes (bs ++ ys) = some (v,rest ++ ys) := by
  obtain ⟨n,hr,hn⟩ := readBytes_eq_some h
  have hy := readVarint_extend ys hr
  rw [List.append_assoc] at hy
  exact readBytes_of_varint hy hn

theorem readString_eq_some {v : Utf8String} {bs rest : Bytes}
    (h : readStringRequireUtf8 bs = some (v,rest)) :
    readBytes bs = some (⟨utf8 v.val,v.size_lt⟩,rest) := by
  simp only [readStringRequireUtf8,Option.bind_eq_some_iff] at h
  obtain ⟨⟨b,r⟩,hb,h⟩ := h
  split at h
  · rename_i s hs
    simp only [Option.some.injEq,Prod.mk.injEq] at h
    obtain ⟨rfl,rfl⟩ := h
    rw [hb]
    simp only [utf8_of_decodeUtf8 hs]
  · cases h

theorem readString_extend {v : Utf8String} {bs rest : Bytes} (ys : Bytes)
    (h : readStringRequireUtf8 bs = some (v,rest)) :
    readStringRequireUtf8 (bs ++ ys) = some (v,rest ++ ys) := by
  have hb := readBytes_extend ys (readString_eq_some h)
  have hv := readString_write v (rest ++ ys)
  rw [readStringRequireUtf8,writeString,readBytes_write] at hv
  rw [readStringRequireUtf8,hb]
  exact hv

theorem Kind.read_extend {k : Kind} {v : k.Val} {bs rest : Bytes} (ys : Bytes)
    (h : k.read bs = some (v,rest)) : k.read (bs ++ ys) = some (v,rest ++ ys) := by
  cases k with
  | int32 => exact readInt32_extend ys h
  | enum => exact readInt32_extend ys h
  | bool => exact readBool_extend ys h
  | string => exact readString_extend ys h
  | bytes => exact readBytes_extend ys h

/-! ### A value is never written heavier than it was read -/

theorem readInt32_weight {v : BitVec 32} {bs rest : Bytes} (h : readInt32 bs = some (v,rest)) :
    weight (writeInt32 v) + weight rest ≤ weight bs := by
  simp only [readInt32,Option.map_eq_some_iff,Prod.mk.injEq] at h
  obtain ⟨⟨w,r⟩,hr,rfl,rfl⟩ := h
  rw [writeInt32,signExtend_extended]
  exact writeVarint_weight_le (n := 4) hr

theorem readBool_weight {v : Bool} {bs rest : Bytes} (h : readBool bs = some (v,rest)) :
    weight (writeBool v) + weight rest ≤ weight bs := by
  simp only [readBool,Option.map_eq_some_iff,Prod.mk.injEq] at h
  obtain ⟨⟨w,r⟩,hr,_,rfl⟩ := h
  have one : weight (writeBool v) = 1 := by cases v <;> rfl
  have := readVarint_weight hr
  dsimp only
  omega

theorem readBytes_weight {v : ByteString} {bs rest : Bytes} (h : readBytes bs = some (v,rest)) :
    weight (writeBytes v) + weight rest ≤ weight bs := by
  obtain ⟨n,hr,hn⟩ := readBytes_eq_some h
  have lt := v.size_lt
  have hw := writeVarint_weight_le (n := 4) hr
  change weight (writeVarint 10 (extended 4 (n % 2 ^ 32))) + _ ≤ _ at hw
  rw [hn,extended,if_pos lt,weight_append] at hw
  rw [writeBytes,weight_append]
  omega

theorem Kind.read_weight {k : Kind} {v : k.Val} {bs rest : Bytes}
    (h : k.read bs = some (v,rest)) : weight (k.write v) + weight rest ≤ weight bs := by
  cases k with
  | int32 => exact readInt32_weight h
  | enum => exact readInt32_weight h
  | bool => exact readBool_weight h
  | string => exact readBytes_weight (readString_eq_some h)
  | bytes => exact readBytes_weight h

end WireFormat
