import SeeU.WireMessage

set_option autoImplicit false

/-!
# The RPC envelope

`rpcMsg.proto` as its generated classes read and write it. An enum field holds
the raw number of the wire, and the enum view of an undeclared number is
`unrecognized`.
-/
namespace SeeU
open WireFormat

inductive Throwable where
  | nullPointer | illegalArgument | noSuchElement
  deriving DecidableEq

inductive ServerType where
  | unknown | discover | access | unrecognized
  deriving DecidableEq

namespace ServerType

def getNumber : ServerType → Except Throwable (BitVec 32)
  | unknown => .ok 0
  | discover => .ok 1
  | access => .ok 2
  | unrecognized => .error .illegalArgument

def forNumber (value : BitVec 32) : Option ServerType :=
  if value = 0 then some unknown
  else if value = 1 then some discover
  else if value = 2 then some access
  else none

/-- The generated `getSvrType` of every message. -/
def ofRaw (raw : BitVec 32) : ServerType := (forNumber raw).getD unrecognized

/-- The constants that the proto declares. -/
def Declared (t : ServerType) : Prop := t ≠ unrecognized

instance (t : ServerType) : Decidable t.Declared := inferInstanceAs (Decidable (_ ≠ _))

theorem getNumber_declared {t : ServerType} (h : t.Declared) : ∃ n, t.getNumber = .ok n := by
  cases t with
  | unrecognized => exact absurd rfl h
  | unknown | discover | access => exact ⟨_,rfl⟩

theorem ofRaw_getNumber {t : ServerType} {n : BitVec 32} (h : t.getNumber = .ok n) :
    ofRaw n = t := by
  cases t <;> cases h <;> rfl

theorem getNumber_ofRaw {raw : BitVec 32} (h : (ofRaw raw).Declared) :
    (ofRaw raw).getNumber = .ok raw := by
  unfold ofRaw forNumber at h ⊢
  split_ifs at h ⊢ with h0 h1 h2
  · rw [h0]; rfl
  · rw [h1]; rfl
  · rw [h2]; rfl
  · exact absurd rfl h

end ServerType

structure Request where
  msgSeq : BitVec 32
  svrType : BitVec 32
  svrId : BitVec 32
  method : Utf8String
  needResponse : Bool
  content : ByteString
  deriving DecidableEq

structure Response where
  msgSeq : BitVec 32
  svrType : BitVec 32
  svrId : BitVec 32
  method : Utf8String
  content : ByteString
  deriving DecidableEq

def Request.fields : List (FieldSpec Request) :=
  [⟨1,.int32,Request.msgSeq,fun m v => { m with msgSeq := v }⟩,
    ⟨2,.enum,Request.svrType,fun m v => { m with svrType := v }⟩,
    ⟨3,.int32,Request.svrId,fun m v => { m with svrId := v }⟩,
    ⟨4,.string,Request.method,fun m v => { m with method := v }⟩,
    ⟨5,.bool,Request.needResponse,fun m v => { m with needResponse := v }⟩,
    ⟨6,.bytes,Request.content,fun m v => { m with content := v }⟩]

def Response.fields : List (FieldSpec Response) :=
  [⟨1,.int32,Response.msgSeq,fun m v => { m with msgSeq := v }⟩,
    ⟨2,.enum,Response.svrType,fun m v => { m with svrType := v }⟩,
    ⟨3,.int32,Response.svrId,fun m v => { m with svrId := v }⟩,
    ⟨4,.string,Response.method,fun m v => { m with method := v }⟩,
    ⟨5,.bytes,Response.content,fun m v => { m with content := v }⟩]

def Request.schema : Schema Request where
  fields := Request.fields
  defaultInstance := ⟨0,0,0,Utf8String.empty,false,ByteString.empty⟩
  number_pos := by simp [Request.fields]
  number_lt := by simp [Request.fields]
  apart := by simp [Request.fields,FieldSpec.Apart]
  get_set := by simp [Request.fields]
  get_default := by simp [Request.fields,Kind.default]
  ext m m' h := by
    simp only [Request.fields,List.forall_mem_cons,List.not_mem_nil,false_implies,implies_true,
      and_true] at h
    cases m
    simp_all

def Response.schema : Schema Response where
  fields := Response.fields
  defaultInstance := ⟨0,0,0,Utf8String.empty,ByteString.empty⟩
  number_pos := by simp [Response.fields]
  number_lt := by simp [Response.fields]
  apart := by simp [Response.fields,FieldSpec.Apart]
  get_set := by simp [Response.fields]
  get_default := by simp [Response.fields,Kind.default]
  ext m m' h := by
    simp only [Response.fields,List.forall_mem_cons,List.not_mem_nil,false_implies,implies_true,
      and_true] at h
    cases m
    simp_all

def Request.toByteArray : Request → Bytes := Request.schema.writeTo
def Response.toByteArray : Response → Bytes := Response.schema.writeTo

end SeeU
