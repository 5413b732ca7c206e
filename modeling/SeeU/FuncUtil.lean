import SeeU.RpcMsg

set_option autoImplicit false

/-!
# Sequence numbers from the clock

`FuncUtil` and the `ServerInfo` it is called with. An `Instant` is its epoch
millisecond as a Java `long`.
-/
namespace SeeU

abbrev Instant := BitVec 64

/-- `serverType` is null until the initializer of the process has set it. -/
structure ServerInfo where
  serverType : Option ServerType
  startInstant : Instant
  serverId : BitVec 32

/-- A method call on a reference that may be null. -/
def nonNull {α : Type} : Option α → Except Throwable α
  | some a => .ok a
  | none => .error .nullPointer

theorem bind_eq_ok {α β : Type} {x : Except Throwable α} {f : α → Except Throwable β} {b : β} :
    x >>= f = .ok b ↔ ∃ a, x = .ok a ∧ f a = .ok b := by
  cases x with
  | error e =>
    constructor
    · intro h
      cases h
    · rintro ⟨a,h,_⟩
      cases h
  | ok a =>
    constructor
    · exact fun h => ⟨a,rfl,h⟩
    · rintro ⟨a',h,hf⟩
      cases h
      exact hf

theorem map_eq_ok {α β : Type} {x : Except Throwable α} {f : α → β} {b : β} :
    x.map f = .ok b ↔ ∃ a, x = .ok a ∧ f a = b := by
  cases x with
  | error e =>
    constructor
    · intro h
      cases h
    · rintro ⟨a,h,_⟩
      cases h
  | ok a =>
    constructor
    · exact fun h => ⟨a,rfl,Except.ok.inj h⟩
    · rintro ⟨a',h,rfl⟩
      cases h
      rfl

theorem nonNull_eq_ok {α : Type} {x : Option α} {a : α} : nonNull x = .ok a ↔ x = some a := by
  cases x with
  | none =>
    constructor
    · intro h
      cases h
    · intro h
      cases h
  | some b => simp [nonNull]

namespace FuncUtil

def getMilliSecsFrom (now instant : Instant) : BitVec 64 := now - instant

/-- The expression of `GenerateMsgSeq` for the number of the type. The `int`
    operands are extended with their sign and the result is narrowed to `int`. -/
def packMsgSeq (inter : BitVec 64) (number serverId : BitVec 32) : BitVec 32 :=
  ((inter &&& 0x00ffffff#64) ||| (number <<< 28).signExtend 64 |||
    (serverId <<< 24).signExtend 64).setWidth 32

def generateMsgSeq (now : Instant) (type : Option ServerType) (serverId : BitVec 32)
    (instant : Instant) : Except Throwable (BitVec 32) := do
  let inter := getMilliSecsFrom now instant
  let type ← nonNull type
  let number ← type.getNumber
  return packMsgSeq inter number serverId

theorem mask_low : ∀ i < 24, (0x00ffffff#64).getLsbD i = true := by
  decide

theorem shifted_low (x : BitVec 32) {k i : ℕ} (h : i < k) (hi : i < 32) :
    ((x <<< k).signExtend 64).getLsbD i = false := by
  rw [BitVec.getLsbD_signExtend]
  simp [h,hi]

/-- The type and the id occupy the bits above the 24 of the clock. -/
theorem packMsgSeq_low (inter : BitVec 64) (number serverId : BitVec 32) :
    (packMsgSeq inter number serverId).setWidth 24 = inter.setWidth 24 := by
  apply BitVec.eq_of_getLsbD_eq
  intro i hi
  have small : i < 32 := by omega
  have type := shifted_low number (by omega : i < 28) small
  have id := shifted_low serverId hi small
  have mask := mask_low i hi
  simp only [packMsgSeq,BitVec.getLsbD_setWidth,BitVec.getLsbD_or,BitVec.getLsbD_and,type,id,mask,
    small,decide_true,Bool.true_and,Bool.and_true,Bool.or_false]

theorem generateMsgSeq_eq_ok {now instant : Instant} {type : Option ServerType}
    {serverId seq : BitVec 32} : generateMsgSeq now type serverId instant = .ok seq ↔
      ∃ t number, type = some t ∧ t.getNumber = .ok number ∧
        packMsgSeq (now - instant) number serverId = seq := by
  unfold generateMsgSeq
  simp only [bind_eq_ok,nonNull_eq_ok,getMilliSecsFrom]
  constructor
  · rintro ⟨t,ht,number,hn,h⟩
    exact ⟨t,number,ht,hn,Except.ok.inj h⟩
  · rintro ⟨t,number,ht,hn,h⟩
    exact ⟨t,ht,number,hn,congrArg Except.ok h⟩

theorem generateMsgSeq_low {now instant : Instant} {type : Option ServerType}
    {serverId seq : BitVec 32} (h : generateMsgSeq now type serverId instant = .ok seq) :
    seq.setWidth 24 = (now - instant).setWidth 24 := by
  obtain ⟨t,number,_,_,rfl⟩ := generateMsgSeq_eq_ok.mp h
  exact packMsgSeq_low _ _ _

/-- Sequence numbers are made exactly by processes that know their declared type. -/
theorem generateMsgSeq_ok_iff {now instant : Instant} {type : Option ServerType}
    {serverId : BitVec 32} : (∃ seq, generateMsgSeq now type serverId instant = .ok seq) ↔
      ∃ t, type = some t ∧ t.Declared := by
  constructor
  · rintro ⟨seq,h⟩
    obtain ⟨t,number,ht,hn,_⟩ := generateMsgSeq_eq_ok.mp h
    refine ⟨t,ht,?_⟩
    intro unrecognized
    rw [unrecognized] at hn
    cases hn
  · rintro ⟨t,ht,declared⟩
    obtain ⟨number,hn⟩ := ServerType.getNumber_declared declared
    exact ⟨_,generateMsgSeq_eq_ok.mpr ⟨t,number,ht,hn,rfl⟩⟩

/-- Two clock readings, in order and less than `2 ^ 24` milliseconds apart, give one
    sequence number only if they are equal. -/
theorem now_eq_of_msgSeq_eq {now later instant : Instant} {type : Option ServerType}
    {serverId seq : BitVec 32} (order : now.toInt ≤ later.toInt)
    (near : later.toInt - now.toInt < 2 ^ 24)
    (h : generateMsgSeq now type serverId instant = .ok seq)
    (h' : generateMsgSeq later type serverId instant = .ok seq) : now = later := by
  have low := (generateMsgSeq_low h).symm.trans (generateMsgSeq_low h')
  simp only [BitVec.toInt_eq_toNat_cond] at order near
  bv_omega

end FuncUtil

end SeeU
