import SeeU.FuncUtil
import Mathlib.Data.Set.Function

set_option autoImplicit false

/-!
# The fields of a sequence number

The clock has 24 bits of a sequence number, the server id the 4 above them and the type
the highest 4. The id is shifted into its place unmasked, so its own bits 4 to 7 fall on
the type.
-/
namespace SeeU.FuncUtil

/-! ### What the packing leaves of its arguments -/

section Fields
variable (inter : BitVec 64) (number serverId : BitVec 32)

theorem mask_high {i : ℕ} (h : 24 ≤ i) : (0x00ffffff#64).getLsbD i = false := by
  by_cases small : i < 64
  · have all : ∀ k < 64, 24 ≤ k → (0x00ffffff#64).getLsbD k = false := by decide
    exact all i small h
  · exact BitVec.getLsbD_of_ge _ _ (by omega)

theorem shifted_high (x : BitVec 32) {k i : ℕ} (h : k ≤ i) (hi : i < 32) :
    ((x <<< k).signExtend 64).getLsbD i = x.getLsbD (i - k) := by
  rw [BitVec.getLsbD_signExtend,BitVec.getLsbD_shiftLeft]
  have wide : i < 64 := by omega
  simp [hi,wide,Nat.not_lt.mpr h]

theorem packMsgSeq_id : (packMsgSeq inter number serverId).extractLsb' 24 4 =
    serverId.setWidth 4 := by
  apply BitVec.eq_of_getLsbD_eq
  intro i hi
  have mask := mask_high (Nat.le_add_right 24 i)
  have type := shifted_low number (by omega : 24 + i < 28) (by omega)
  have id := shifted_high serverId (Nat.le_add_right 24 i) (by omega)
  rw [Nat.add_sub_cancel_left] at id
  have small : 24 + i < 32 := by omega
  simp only [packMsgSeq,BitVec.getLsbD_extractLsb',BitVec.getLsbD_setWidth,BitVec.getLsbD_or,
    BitVec.getLsbD_and,mask,type,id,hi,small,decide_true,Bool.true_and,Bool.and_false,
    Bool.false_or]

/-- The type is joined with the bits 4 to 7 of the id. -/
theorem packMsgSeq_type : (packMsgSeq inter number serverId).extractLsb' 28 4 =
    number.setWidth 4 ||| serverId.extractLsb' 4 4 := by
  apply BitVec.eq_of_getLsbD_eq
  intro i hi
  have mask := mask_high (by omega : 24 ≤ 28 + i)
  have type := shifted_high number (Nat.le_add_right 28 i) (by omega)
  have id := shifted_high serverId (by omega : 24 ≤ 28 + i) (by omega)
  rw [Nat.add_sub_cancel_left] at type
  have place : 28 + i - 24 = 4 + i := by omega
  have small : 28 + i < 32 := by omega
  simp only [packMsgSeq,BitVec.getLsbD_extractLsb',BitVec.getLsbD_setWidth,BitVec.getLsbD_or,
    BitVec.getLsbD_and,mask,type,id,place,hi,small,decide_true,Bool.true_and,Bool.and_false,
    Bool.false_or]

end Fields

/-- A sequence number is its three fields. -/
theorem eq_of_fields {x y : BitVec 32} (clock : x.setWidth 24 = y.setWidth 24)
    (id : x.extractLsb' 24 4 = y.extractLsb' 24 4)
    (type : x.extractLsb' 28 4 = y.extractLsb' 28 4) : x = y := by
  apply BitVec.eq_of_getLsbD_eq
  intro i hi
  by_cases low : i < 24
  · have bit := congrArg (fun z => z.getLsbD i) clock
    simpa [low] using bit
  by_cases middle : i < 28
  · have bit := congrArg (fun z => z.getLsbD (i - 24)) id
    have place : 24 + (i - 24) = i := by omega
    have small : i - 24 < 4 := by omega
    simpa [place,small] using bit
  · have bit := congrArg (fun z => z.getLsbD (i - 28)) type
    have place : 28 + (i - 28) = i := by omega
    have small : i - 28 < 4 := by omega
    simpa [place,small] using bit

/-! ### Collisions -/

/-- A type number that has room in the highest four bits. -/
def TypeNumber (number : BitVec 32) : Prop := number.toNat ≤ 15

instance (number : BitVec 32) : Decidable (TypeNumber number) :=
  inferInstanceAs (Decidable (_ ≤ _))

/-- No two calls with another type or id give one sequence number. -/
def NeverCollide (ids : Set (BitVec 32)) : Prop :=
  ∀ inter inter' number number', TypeNumber number → TypeNumber number' →
    ∀ id ∈ ids, ∀ id' ∈ ids, (number,id) ≠ (number',id') →
      packMsgSeq inter number id ≠ packMsgSeq inter' number' id'

/-- The type, the id and the clock can be read off a sequence number. -/
def Recoverable (ids : Set (BitVec 32)) : Prop :=
  ∃ (type id : BitVec 32 → BitVec 32) (clock : BitVec 32 → BitVec 24),
    ∀ inter number, TypeNumber number → ∀ serverId ∈ ids,
      type (packMsgSeq inter number serverId) = number ∧
      id (packMsgSeq inter number serverId) = serverId ∧
      clock (packMsgSeq inter number serverId) = inter.setWidth 24

/-- The bits 4 to 7 of the ids are clear, and the four below tell the ids apart. -/
structure Fits (ids : Set (BitVec 32)) : Prop where
  clear : ∀ id ∈ ids, id.extractLsb' 4 4 = 0#4
  distinct : Set.InjOn (fun id : BitVec 32 => id.setWidth 4) ids

theorem setWidth_typeNumber {number : BitVec 32} (h : TypeNumber number) :
    (number.setWidth 4).setWidth 32 = number := by
  apply BitVec.eq_of_toNat_eq
  unfold TypeNumber at h
  simp only [BitVec.toNat_setWidth]
  omega

section Admitted
variable {ids : Set (BitVec 32)}

theorem Fits.recoverable (h : Fits ids) : Recoverable ids := by
  refine ⟨fun seq => (seq.extractLsb' 28 4).setWidth 32,
    fun seq => Function.invFunOn (fun id : BitVec 32 => id.setWidth 4) ids (seq.extractLsb' 24 4),
    fun seq => seq.setWidth 24,?_⟩
  intro inter number small serverId admitted
  refine ⟨?_,?_,packMsgSeq_low inter number serverId⟩
  · dsimp only
    rw [packMsgSeq_type,h.clear serverId admitted,BitVec.or_zero]
    exact setWidth_typeNumber small
  · dsimp only
    rw [packMsgSeq_id]
    exact h.distinct.leftInvOn_invFunOn admitted

theorem Recoverable.neverCollide (h : Recoverable ids) : NeverCollide ids := by
  obtain ⟨type,id,clock,recovers⟩ := h
  intro inter inter' number number' small small' serverId admitted serverId' admitted' other same
  obtain ⟨ht,hid,_⟩ := recovers inter number small serverId admitted
  obtain ⟨ht',hid',_⟩ := recovers inter' number' small' serverId' admitted'
  rw [same] at ht hid
  exact other (Prod.ext (ht.symm.trans ht') (hid.symm.trans hid'))

/-- The type with the number `m` collides with `UNKNOWN` where an id has the bits `m`
    set, and under the type 15 every id with the same four bits collides. -/
theorem NeverCollide.fits (h : NeverCollide ids) : Fits ids := by
  constructor
  · intro id admitted
    by_contra used
    let number := (id.extractLsb' 4 4).setWidth 32
    have small : TypeNumber number := by
      have bound := (id.extractLsb' 4 4).isLt
      simp only [TypeNumber,number,BitVec.toNat_setWidth]
      omega
    have narrow : number.setWidth 4 = id.extractLsb' 4 4 := by
      simp [number]
    have other : (number,id) ≠ (0#32,id) := by
      intro same
      have zero : number = 0#32 := congrArg Prod.fst same
      apply used
      rw [←narrow,zero]
      rfl
    refine h 0 0 number 0#32 small (Nat.zero_le _) id admitted id admitted other ?_
    apply eq_of_fields
    · rw [packMsgSeq_low,packMsgSeq_low]
    · rw [packMsgSeq_id,packMsgSeq_id]
    · rw [packMsgSeq_type,packMsgSeq_type,narrow,BitVec.or_self]
      exact (BitVec.zero_or).symm
  · intro id admitted id' admitted' same
    by_contra other
    refine h 0 0 15#32 15#32 (by decide) (by decide) id admitted id' admitted'
      (fun eq => other (congrArg Prod.snd eq)) ?_
    apply eq_of_fields
    · rw [packMsgSeq_low,packMsgSeq_low]
    · rw [packMsgSeq_id,packMsgSeq_id]
      exact same
    · rw [packMsgSeq_type,packMsgSeq_type]
      exact BitVec.allOnes_or.trans BitVec.allOnes_or.symm

end Admitted

/-- The sequence numbers of the admitted ids never collide, and their fields can be
    recovered, exactly if the ids fit into four bits above which four more are clear. -/
theorem neverCollide_iff (ids : Set (BitVec 32)) :
    NeverCollide ids ∧ Recoverable ids ↔ Fits ids := by
  constructor
  · rintro ⟨never,_⟩
    exact never.fits
  · intro fits
    exact ⟨fits.recoverable.neverCollide,fits.recoverable⟩

/-- Two access servers, of which the second has an id above 15. -/
theorem large_id_collides : packMsgSeq 0 2 1 = packMsgSeq 0 2 33 ∧
    ¬NeverCollide { id | 0 ≤ id.toInt } := by
  have same : packMsgSeq 0 2 1 = packMsgSeq 0 2 33 := by decide
  refine ⟨same,?_⟩
  intro never
  have first : (1 : BitVec 32) ∈ { id : BitVec 32 | 0 ≤ id.toInt } := by
    change (0 : ℤ) ≤ (1 : BitVec 32).toInt
    decide
  have second : (33 : BitVec 32) ∈ { id : BitVec 32 | 0 ≤ id.toInt } := by
    change (0 : ℤ) ≤ (33 : BitVec 32).toInt
    decide
  exact never 0 0 2 2 (by decide) (by decide) 1 first 33 second (by decide) same

end SeeU.FuncUtil
