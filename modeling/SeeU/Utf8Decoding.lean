import Mathlib.Data.List.Basic

set_option autoImplicit false

/-!
# UTF-8 with malformed input replaced

The decoder never fails: where no character begins, it puts U+FFFD for the lead byte
and for those bytes after it that could have continued a character.
-/
namespace Utf8

def encode (cs : List Char) : List UInt8 := cs.flatMap String.utf8EncodeChar

/-- The character that the bytes begin with. -/
def decodeChar (bs : List UInt8) : Option Char := bs.toByteArray.utf8DecodeChar? 0

def replacement : Char := Char.ofNat 0xfffd

def Continuation (b : UInt8) : Prop := b &&& 0xc0 = 0x80

instance (b : UInt8) : Decidable (Continuation b) := inferInstanceAs (Decidable (_ = _))

/-- Whether no character has the bytes `b1` and `b2` at its beginning, where `b1` leads
    three or four bytes. -/
def Malformed (b1 b2 : UInt8) : Prop :=
  ¬Continuation b2 ∨ b1 = 0xe0 ∧ b2 < 0xa0 ∨ b1 = 0xf0 ∧ b2 < 0x90 ∨
    b1 = 0xf4 ∧ 0x90 ≤ b2 ∨ 0xf4 < b1

instance (b1 b2 : UInt8) : Decidable (Malformed b1 b2) := inferInstanceAs (Decidable (_ ∨ _))

/-- The number of bytes that are replaced together with the lead byte `b1`. A surrogate
    is found only when all three bytes are read. -/
def malformedRest (b1 : UInt8) : List UInt8 → ℕ
  | [] => 0
  | b2 :: bs =>
    if b1 < 0xe0 ∨ 0xf8 ≤ b1 ∨ Malformed b1 b2 then 0
    else
      match bs with
      | [] => 1
      | b3 :: _ => if Continuation b3 then 2 else 1

def decode : List UInt8 → List Char
  | [] => []
  | b :: bs =>
    match decodeChar (b :: bs) with
    | some c => c :: decode (bs.drop (c.utf8Size - 1))
    | none => replacement :: decode (bs.drop (malformedRest b bs))
termination_by bs => bs.length
decreasing_by
  all_goals
    simp only [List.length_cons,List.length_drop]
    omega

/-! ### Characters -/

theorem decodeChar_encodeChar (c : Char) (rest : List UInt8) :
    decodeChar (String.utf8EncodeChar c ++ rest) = some c := by
  rw [decodeChar,List.toByteArray_append]
  exact ByteArray.utf8DecodeChar?_utf8EncodeChar_append

theorem exists_rest {bs : List UInt8} {c : Char} (h : decodeChar bs = some c) :
    ∃ rest, bs = String.utf8EncodeChar c ++ rest := by
  have parts := ByteArray.eq_of_utf8DecodeChar?_eq_some h
  generalize bs.toByteArray.extract c.utf8Size bs.toByteArray.size = tail at parts
  refine ⟨tail.data.toList,?_⟩
  apply List.toByteArray_inj.mp
  rw [List.toByteArray_append,parts]
  apply congrArg
  apply ByteArray.ext
  rw [List.data_toByteArray]

theorem decode_encodeChar (c : Char) (rest : List UInt8) :
    decode (String.utf8EncodeChar c ++ rest) = c :: decode rest := by
  have size := String.length_utf8EncodeChar c
  have first := decodeChar_encodeChar c rest
  generalize String.utf8EncodeChar c = bytes at size first
  cases bytes with
  | nil => exact absurd size (Nat.ne_of_lt c.utf8Size_pos)
  | cons b bs =>
    rw [List.cons_append] at first ⊢
    rw [decode,first]
    dsimp only
    rw [←size,List.length_cons,Nat.add_sub_cancel,List.drop_left]

/-- What was encoded is decoded as it was. -/
theorem decode_encode (cs : List Char) : decode (encode cs) = cs := by
  induction cs with
  | nil =>
    unfold decode
    rfl
  | cons c cs ih =>
    rw [encode,List.flatMap_cons,decode_encodeChar]
    exact congrArg (c :: ·) ih

/-- Where nothing was replaced, the bytes are those of the characters. -/
theorem encode_decode {bs : List UInt8} (h : replacement ∉ decode bs) :
    encode (decode bs) = bs := by
  fun_induction decode bs with
  | case1 => rfl
  | case2 b bs c first ih =>
    rw [List.mem_cons,not_or] at h
    obtain ⟨rest,split⟩ := exists_rest first
    have drop : bs.drop (c.utf8Size - 1) = rest := by
      have size := String.length_utf8EncodeChar c
      have tail := congrArg (List.drop c.utf8Size) split
      rw [←size,List.drop_left,size,←Nat.sub_add_cancel c.utf8Size_pos,List.drop_succ_cons] at tail
      exact tail
    rw [encode,List.flatMap_cons]
    change String.utf8EncodeChar c ++ encode _ = _
    rw [ih h.2,drop,split]
  | case3 b bs first ih => exact absurd (List.mem_cons_self ..) h

theorem decode_length_le (bs : List UInt8) : (decode bs).length ≤ bs.length := by
  fun_induction decode bs with
  | case1 => exact Nat.le_refl 0
  | case2 b bs c h ih =>
    rw [List.length_drop] at ih
    simp only [List.length_cons]
    omega
  | case3 b bs h ih =>
    rw [List.length_drop] at ih
    simp only [List.length_cons]
    omega

/-! ### One byte for each character -/

theorem toNat_ofByte (b : UInt8) : (Char.ofNat b.toNat).toNat = b.toNat := by
  have valid : b.toNat.isValidChar := by
    have bound := b.toNat_lt
    left
    omega
  rw [Char.ofNat,dif_pos valid]
  rfl

theorem encodeChar_ascii {b : UInt8} (h : b < 0x80) :
    String.utf8EncodeChar (Char.ofNat b.toNat) = [b] := by
  have value : (Char.ofNat b.toNat).val.toNat = b.toNat := toNat_ofByte b
  have small : b.toNat < 128 := UInt8.lt_iff_toNat_lt.mp h
  have one : (Char.ofNat b.toNat).utf8Size = 1 := by
    rw [Char.utf8Size_eq_one_iff,UInt32.le_iff_toNat_le,value]
    exact Nat.le_of_lt_succ small
  rw [String.utf8EncodeChar_eq_singleton one]
  apply congrArg (fun b => [b])
  apply UInt8.toNat_inj.mp
  rw [UInt32.toNat_toUInt8,value]
  exact Nat.mod_eq_of_lt b.toNat_lt

theorem decode_ascii {b : UInt8} (h : b < 0x80) (bs : List UInt8) :
    decode (b :: bs) = Char.ofNat b.toNat :: decode bs := by
  have step := decode_encodeChar (Char.ofNat b.toNat) bs
  rw [encodeChar_ascii h] at step
  exact step

theorem lt_of_utf8Size_eq_one {b : UInt8} {bs : List UInt8} {c : Char}
    (h : decodeChar (b :: bs) = some c) (size : c.utf8Size = 1) : b < 0x80 := by
  obtain ⟨rest,eq⟩ := exists_rest h
  rw [String.utf8EncodeChar_eq_singleton size,List.singleton_append] at eq
  obtain ⟨rfl,_⟩ := List.cons.inj eq
  have small : c.val.toNat ≤ 127 := UInt32.le_iff_toNat_le.mp (Char.utf8Size_eq_one_iff.mp size)
  rw [UInt8.lt_iff_toNat_lt,UInt32.toNat_toUInt8]
  exact Nat.lt_of_le_of_lt (Nat.mod_le _ _) (Nat.lt_succ_of_le small)

/-- A string has as many characters as bytes only if all of them are ASCII. -/
theorem map_ofNat_eq_decode_iff (bs : List UInt8) :
    bs.map (fun b => Char.ofNat b.toNat) = decode bs ↔ ∀ b ∈ bs, b < 0x80 := by
  induction bs with
  | nil =>
    unfold decode
    exact iff_of_true rfl nofun
  | cons b bs ih =>
    rw [List.forall_mem_cons]
    by_cases ascii : b < 0x80
    · rw [decode_ascii ascii,List.map_cons,List.cons.injEq,ih]
      simp only [ascii,true_and]
    · refine iff_of_false ?_ (fun all => ascii all.1)
      intro same
      rw [decode,List.map_cons] at same
      cases hc : decodeChar (b :: bs) with
      | none =>
        rw [hc] at same
        have head := congrArg Char.toNat (List.cons.inj same).1
        have bound := b.toNat_lt
        rw [toNat_ofByte] at head
        rw [head] at bound
        revert bound
        decide
      | some c =>
        rw [hc] at same
        have wide : c.utf8Size ≠ 1 := fun size => ascii (lt_of_utf8Size_eq_one hc size)
        have pos := c.utf8Size_pos
        have inside := ByteArray.le_size_of_utf8DecodeChar?_eq_some hc
        rw [List.size_toByteArray,List.length_cons] at inside
        have fewer := decode_length_le (bs.drop (c.utf8Size - 1))
        have long := congrArg List.length same
        simp only [List.length_cons,List.length_map,List.length_drop] at long fewer
        omega

end Utf8
