import SeeU.RpcMsg

set_option autoImplicit false

/-!
# The messages of the discover service

`discover.proto` as its generated classes read and write it.
-/
namespace SeeU.DiscoverMsg
open WireFormat

structure Register where
  svrType : BitVec 32
  svrId : BitVec 32
  host : Utf8String
  port : BitVec 32
  deriving DecidableEq

structure Unregister where
  svrType : BitVec 32
  svrId : BitVec 32
  deriving DecidableEq

structure GetServiceInfoReq where
  svrType : BitVec 32
  svrId : BitVec 32
  deriving DecidableEq

structure GetServiceInfoResp where
  svrType : BitVec 32
  svrId : BitVec 32
  host : Utf8String
  port : BitVec 32
  deriving DecidableEq

def Register.getSvrType (m : Register) : ServerType := .ofRaw m.svrType
def Unregister.getSvrType (m : Unregister) : ServerType := .ofRaw m.svrType
def GetServiceInfoReq.getSvrType (m : GetServiceInfoReq) : ServerType := .ofRaw m.svrType
def GetServiceInfoResp.getSvrType (m : GetServiceInfoResp) : ServerType := .ofRaw m.svrType

def Register.schema : Schema Register where
  fields := [⟨1,.enum,Register.svrType,fun m v => { m with svrType := v }⟩,
    ⟨2,.int32,Register.svrId,fun m v => { m with svrId := v }⟩,
    ⟨3,.string,Register.host,fun m v => { m with host := v }⟩,
    ⟨4,.int32,Register.port,fun m v => { m with port := v }⟩]
  defaultInstance := ⟨0,0,Utf8String.empty,0⟩
  number_pos := by simp
  number_lt := by simp
  apart := by simp [FieldSpec.Apart]
  get_set := by simp
  get_default := by simp [Kind.default]
  ext m m' h := by
    simp only [List.forall_mem_cons,List.not_mem_nil,false_implies,implies_true,and_true] at h
    cases m
    simp_all

def Unregister.schema : Schema Unregister where
  fields := [⟨1,.enum,Unregister.svrType,fun m v => { m with svrType := v }⟩,
    ⟨2,.int32,Unregister.svrId,fun m v => { m with svrId := v }⟩]
  defaultInstance := ⟨0,0⟩
  number_pos := by simp
  number_lt := by simp
  apart := by simp [FieldSpec.Apart]
  get_set := by simp
  get_default := by simp [Kind.default]
  ext m m' h := by
    simp only [List.forall_mem_cons,List.not_mem_nil,false_implies,implies_true,and_true] at h
    cases m
    simp_all

def GetServiceInfoReq.schema : Schema GetServiceInfoReq where
  fields := [⟨1,.enum,GetServiceInfoReq.svrType,fun m v => { m with svrType := v }⟩,
    ⟨2,.int32,GetServiceInfoReq.svrId,fun m v => { m with svrId := v }⟩]
  defaultInstance := ⟨0,0⟩
  number_pos := by simp
  number_lt := by simp
  apart := by simp [FieldSpec.Apart]
  get_set := by simp
  get_default := by simp [Kind.default]
  ext m m' h := by
    simp only [List.forall_mem_cons,List.not_mem_nil,false_implies,implies_true,and_true] at h
    cases m
    simp_all

def GetServiceInfoResp.schema : Schema GetServiceInfoResp where
  fields := [⟨1,.enum,GetServiceInfoResp.svrType,fun m v => { m with svrType := v }⟩,
    ⟨2,.int32,GetServiceInfoResp.svrId,fun m v => { m with svrId := v }⟩,
    ⟨3,.string,GetServiceInfoResp.host,fun m v => { m with host := v }⟩,
    ⟨4,.int32,GetServiceInfoResp.port,fun m v => { m with port := v }⟩]
  defaultInstance := ⟨0,0,Utf8String.empty,0⟩
  number_pos := by simp
  number_lt := by simp
  apart := by simp [FieldSpec.Apart]
  get_set := by simp
  get_default := by simp [Kind.default]
  ext m m' h := by
    simp only [List.forall_mem_cons,List.not_mem_nil,false_implies,implies_true,and_true] at h
    cases m
    simp_all

def GetServiceInfoReq.toByteArray : GetServiceInfoReq → Bytes :=
  GetServiceInfoReq.schema.writeTo

theorem GetServiceInfoReq.toByteArray_length (m : GetServiceInfoReq) :
    m.toByteArray.length ≤ 40 := by
  have all : ∀ f ∈ GetServiceInfoReq.schema.fields, (f.write m).length ≤ 20 := by
    intro f hf
    apply FieldSpec.write_length_le
    simp only [GetServiceInfoReq.schema,List.mem_cons,List.not_mem_nil,or_false] at hf
    rcases hf with rfl | rfl <;> rfl
  obtain ⟨type,id,_⟩ : _ ∧ _ ∧ _ := by
    simpa only [GetServiceInfoReq.schema,List.forall_mem_cons] using all
  simp only [toByteArray,Schema.writeTo,schema,List.flatMap_cons,List.flatMap_nil,
    List.length_append,List.length_nil]
  omega

def GetServiceInfoReq.toByteString (m : GetServiceInfoReq) : ByteString :=
  ⟨m.toByteArray,by have short := m.toByteArray_length; omega⟩

def GetServiceInfoResp.parseFrom : Bytes → Option (Parsed GetServiceInfoResp) :=
  GetServiceInfoResp.schema.parseFrom

end SeeU.DiscoverMsg
