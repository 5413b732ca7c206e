import SeeU.DiscoverMsg
import SeeU.FuncUtil

set_option autoImplicit false

/-!
# `DiscoverClient`

The requests that a process sends to the discover service and how it reads the
answer to `getServiceInfo`.
-/
namespace SeeU.DiscoverClient
open WireFormat DiscoverMsg

def generateDiscoverMsg (info : ServerInfo) (now : Instant) (method : Utf8String)
    (content : ByteString) (needResponse : Bool) : Except Throwable Request := do
  let msgSeq ← FuncUtil.generateMsgSeq now info.serverType info.serverId info.startInstant
  let svrType ← ServerType.unknown.getNumber
  return ⟨msgSeq,svrType,0,method,needResponse,content⟩

/-- The request that `getServiceInfo` writes. -/
def getServiceInfoMsg (info : ServerInfo) (now : Instant) (serverType : Option ServerType)
    (serverId : BitVec 32) : Except Throwable Request := do
  let type ← nonNull serverType
  let svrType ← type.getNumber
  let infoReq : GetServiceInfoReq := ⟨svrType,serverId⟩
  generateDiscoverMsg info now ⟨"getServiceInfo",by decide⟩ infoReq.toByteString true

/-- What `getServiceInfo` returns for the outcome of its `write`: an exception and an
    answer that does not parse are caught. -/
def readServiceInfo : Except Throwable (Option Response) → Option GetServiceInfoResp
  | .ok (some resp) => (GetServiceInfoResp.parseFrom resp.content.bytes).map Parsed.message
  | .ok none => none
  | .error _ => none

theorem generateDiscoverMsg_msgSeq {info : ServerInfo} {now : Instant} {method : Utf8String}
    {content : ByteString} {needResponse : Bool} {req : Request}
    (h : generateDiscoverMsg info now method content needResponse = .ok req) :
    FuncUtil.generateMsgSeq now info.serverType info.serverId info.startInstant =
      .ok req.msgSeq := by
  obtain ⟨seq,hs,h⟩ := bind_eq_ok.mp h
  cases h
  exact hs

end SeeU.DiscoverClient
