import SeeU.DiscoverMsg
import SeeU.WebsocketPipeline
import SeeU.WireSize

set_option autoImplicit false

/-!
# `getSerializedSize` of the generated classes

`toByteArray` allocates this many bytes and fails if `writeTo` leaves a different number.
-/
namespace SeeU
open WireFormat DiscoverMsg WebsocketPipeline

section Sizes
variable {U : UnknownFieldSet}

def Request.writeTo : Message Request U → Bytes := Request.schema.writeMessage
def Request.getSerializedSize : Message Request U → BitVec 32 := Request.schema.messageSize

def Response.writeTo : Message Response U → Bytes := Response.schema.writeMessage
def Response.getSerializedSize : Message Response U → BitVec 32 := Response.schema.messageSize

namespace DiscoverMsg

def Register.writeTo : Message Register U → Bytes := Register.schema.writeMessage
def Register.getSerializedSize : Message Register U → BitVec 32 := Register.schema.messageSize

def Unregister.writeTo : Message Unregister U → Bytes := Unregister.schema.writeMessage
def Unregister.getSerializedSize : Message Unregister U → BitVec 32 :=
  Unregister.schema.messageSize

def GetServiceInfoReq.writeTo : Message GetServiceInfoReq U → Bytes :=
  GetServiceInfoReq.schema.writeMessage
def GetServiceInfoReq.getSerializedSize : Message GetServiceInfoReq U → BitVec 32 :=
  GetServiceInfoReq.schema.messageSize

def GetServiceInfoResp.writeTo : Message GetServiceInfoResp U → Bytes :=
  GetServiceInfoResp.schema.writeMessage
def GetServiceInfoResp.getSerializedSize : Message GetServiceInfoResp U → BitVec 32 :=
  GetServiceInfoResp.schema.messageSize

end DiscoverMsg

def WebsocketPipeline.WsMsg.writeTo : Message WsMsg U → Bytes := WsMsg.schema.writeMessage
def WebsocketPipeline.WsMsg.getSerializedSize : Message WsMsg U → BitVec 32 :=
  WsMsg.schema.messageSize

/-- `toByteArray` finds the array it has allocated exactly full. The size is added up in 32
    bits, and is the number of bytes itself where that fits in an `int`. -/
def ExactSize {σ : Type} (getSerializedSize : Message σ U → BitVec 32)
    (writeTo : Message σ U → Bytes) : Prop :=
  ∀ m, getSerializedSize m = BitVec.ofNat 32 (writeTo m).length ∧
    ((writeTo m).length < 2 ^ 31 → (getSerializedSize m).toInt = (writeTo m).length)

theorem exactSize_schema {σ : Type} (S : Schema σ) (counts : U.Counts) :
    ExactSize (U := U) S.messageSize S.writeMessage := by
  intro m
  rw [S.messageSize_eq counts]
  exact ⟨rfl,toInt_ofNat_of_lt⟩

theorem message_sizes_exact (counts : U.Counts) :
    ExactSize (U := U) Request.getSerializedSize Request.writeTo ∧
      ExactSize (U := U) Response.getSerializedSize Response.writeTo ∧
      ExactSize (U := U) Register.getSerializedSize Register.writeTo ∧
      ExactSize (U := U) Unregister.getSerializedSize Unregister.writeTo ∧
      ExactSize (U := U) GetServiceInfoReq.getSerializedSize GetServiceInfoReq.writeTo ∧
      ExactSize (U := U) GetServiceInfoResp.getSerializedSize GetServiceInfoResp.writeTo ∧
      ExactSize (U := U) WsMsg.getSerializedSize WsMsg.writeTo :=
  ⟨exactSize_schema _ counts,exactSize_schema _ counts,exactSize_schema _ counts,
    exactSize_schema _ counts,exactSize_schema _ counts,exactSize_schema _ counts,
    exactSize_schema _ counts⟩

end Sizes

/-- Unknown varints below 128, by the bytes of their tags and values. -/
def smallVarints : UnknownFieldSet where
  Fields := List (UInt8 × UInt8)
  writeTo us := us.flatMap (fun u => [u.1,u.2])
  getSerializedSize us := us.foldr (fun _ size => 2 + size) 0

theorem smallVarints_counts : smallVarints.Counts := by
  intro us
  induction us with
  | nil => rfl
  | cons u us ih =>
    change 2 + smallVarints.getSerializedSize us =
      BitVec.ofNat 32 ([u.1,u.2] ++ smallVarints.writeTo us).length
    rw [ih,List.length_append,BitVec.ofNat_add]
    rfl

/-- A `wsMsg` with the field 4 of a newer client. -/
def newerMessage : Message WsMsg smallVarints :=
  ⟨⟨1,Utf8String.empty,ByteString.empty⟩,[(0x20,0x05)]⟩

theorem newerMessage_size : (WsMsg.getSerializedSize newerMessage).toInt = 4 :=
  ((message_sizes_exact smallVarints_counts).2.2.2.2.2.2 newerMessage).2 (by decide)

end SeeU
