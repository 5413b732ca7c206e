import SeeU.DiscoverClient
import SeeU.DiscoverConcurrent
import SeeU.RpcServerHandler

set_option autoImplicit false

/-!
# The messages between a process and the discover server

The three requests of `DiscoverClient`, the call of `DiscoverHandler` that the server makes
for each, and the bytes of its answer.
-/
namespace SeeU.DiscoverNetwork
open WireFormat DiscoverMsg DiscoverClient
open DiscoverConcurrent (Operation)
open RpcServerHandler (Server GetMethods channelRead0 Serving jvm)

/-! ### Requests and answers -/

/-- No array has more than `Integer.MAX_VALUE` bytes. -/
def toByteString (bs : Bytes) : Option ByteString :=
  if h : bs.length < 2 ^ 31 then some ⟨bs,h⟩ else none

structure Process where
  serverInfo : ServerInfo
  serviceHost : Utf8String
  servicePort : BitVec 32
  /-- The threads of the pool of its `RpcClientHandler`. -/
  threads : ℕ

namespace Process

/-- The request that `clientActive` writes, if building it does not end in the exception
    that is caught there. -/
def registerMsg (p : Process) (now : Instant) : Option Request := do
  let type ← p.serverInfo.serverType
  let svrType ← type.getNumber.toOption
  let content ← toByteString
    (Register.schema.writeTo ⟨svrType,p.serverInfo.serverId,p.serviceHost,p.servicePort⟩)
  (generateDiscoverMsg p.serverInfo now ⟨"register",by decide⟩ content false).toOption

/-- The request that `destroy` writes. -/
def unregisterMsg (p : Process) (now : Instant) : Option Request := do
  let type ← p.serverInfo.serverType
  let svrType ← type.getNumber.toOption
  let content ← toByteString (Unregister.schema.writeTo ⟨svrType,p.serverInfo.serverId⟩)
  (generateDiscoverMsg p.serverInfo now ⟨"unregister",by decide⟩ content false).toOption

end Process

/-- `build` and the encoder, for the builder that `channelRead0` writes. -/
def encode (r : RpcServerHandler.ResponseBuilder) : Option Bytes :=
  (toByteString r.content).map (fun content =>
    Response.toByteArray ⟨r.msgSeq,r.svrType,r.svrId,r.method,content⟩)

/-- The bytes that are written when the method called for a request has ended so. -/
def answerOf (req : Request) (result : Except Throwable (Option GetServiceInfoResp)) :
    Option Bytes :=
  result.toOption.join.bind (fun resp => encode (RpcServerHandler.reply req resp))

/-- The method that is bound to a request, with the message that it reads. Without one
    `serviceInvoke` returns null. -/
def dispatch (req : Request) : Option Operation :=
  if ServerType.ofRaw req.svrType = .unknown then
    if req.method.val = "register" then
      (Register.schema.parseFrom req.content.bytes).map (fun p => .change (.register p.message))
    else if req.method.val = "unregister" then
      (Unregister.schema.parseFrom req.content.bytes).map (fun p =>
        .change (.unregister p.message))
    else if req.method.val = "getServiceInfo" then
      (GetServiceInfoReq.schema.parseFrom req.content.bytes).map (fun p =>
        .getServiceInfo p.message)
    else none
  else none

/-- What a call answers and leaves when no other runs meanwhile. -/
def runAlone (it : DiscoverHandler.Iteration) (s : DiscoverHandler.Handler) :
    Option Operation → Option GetServiceInfoResp × DiscoverHandler.Handler
  | none => (none,s)
  | some (.change (.register r)) => (none,s.register r)
  | some (.change (.unregister u)) => (none,s.unregister u)
  | some (.getServiceInfo q) => ((s.getServiceInfo it q).toOption,s)

/-! ### The requests of a process -/

theorem toByteString_eq_some {bs : Bytes} {content : ByteString}
    (h : toByteString bs = some content) : content.bytes = bs := by
  unfold toByteString at h
  split_ifs at h
  cases h
  rfl

theorem toOption_eq_some {α : Type} {x : Except Throwable α} {a : α} :
    x.toOption = some a ↔ x = .ok a := by
  cases x with
  | error e => exact ⟨nofun,nofun⟩
  | ok b =>
    constructor
    · intro h
      cases h
      rfl
    · intro h
      cases h
      rfl

theorem generateDiscoverMsg_eq_ok {info : ServerInfo} {now : Instant} {method : Utf8String}
    {content : ByteString} {needResponse : Bool} {req : Request}
    (h : generateDiscoverMsg info now method content needResponse = .ok req) :
    ∃ msgSeq, req = ⟨msgSeq,0,0,method,needResponse,content⟩ := by
  obtain ⟨msgSeq,_,h⟩ := bind_eq_ok.mp h
  cases h
  exact ⟨msgSeq,rfl⟩

/-- The message of a `getServiceInfo` call. -/
structure Query (serverType : Option ServerType) (serverId : BitVec 32) (msg : Request)
    (q : GetServiceInfoReq) : Prop where
  type : ∃ t, serverType = some t ∧ t.getNumber = .ok q.svrType
  id : q.svrId = serverId
  msg_eq : ∃ msgSeq, msg = ⟨msgSeq,0,0,⟨"getServiceInfo",by decide⟩,true,q.toByteString⟩

theorem getServiceInfoMsg_query {info : ServerInfo} {now : Instant}
    {serverType : Option ServerType} {serverId : BitVec 32} {msg : Request}
    (h : getServiceInfoMsg info now serverType serverId = .ok msg) :
    ∃ q, Query serverType serverId msg q := by
  obtain ⟨type,ht,h⟩ := bind_eq_ok.mp h
  obtain ⟨svrType,hn,h⟩ := bind_eq_ok.mp h
  exact ⟨⟨svrType,serverId⟩,⟨type,nonNull_eq_ok.mp ht,hn⟩,rfl,generateDiscoverMsg_eq_ok h⟩

theorem Query.dispatch {serverType : Option ServerType} {serverId : BitVec 32} {msg : Request}
    {q : GetServiceInfoReq} (h : Query serverType serverId msg q) :
    dispatch msg = some (.getServiceInfo q) := by
  obtain ⟨msgSeq,rfl⟩ := h.msg_eq
  have parsed := GetServiceInfoReq.schema.parseFrom_writeTo q
  change (GetServiceInfoReq.schema.parseFrom (GetServiceInfoReq.schema.writeTo q)).map _ = _
  rw [parsed]
  rfl

theorem Query.declared {serverType : Option ServerType} {serverId : BitVec 32} {msg : Request}
    {q : GetServiceInfoReq} (h : Query serverType serverId msg q) : q.getSvrType.Declared := by
  obtain ⟨t,_,hn⟩ := h.type
  unfold GetServiceInfoReq.getSvrType
  rw [ServerType.ofRaw_getNumber hn]
  rintro rfl
  cases hn

/-- The labels under which a process is registered, and their number on the wire. -/
structure Process.Labelled (p : Process) (t : ServerType) (svrType : BitVec 32) : Prop where
  type : p.serverInfo.serverType = some t
  number : t.getNumber = .ok svrType

section Announcements
variable {p : Process} {now : Instant} {msg : Request}

theorem registerMsg_eq_some (h : p.registerMsg now = some msg) :
    ∃ t svrType msgSeq content, p.Labelled t svrType ∧
      msg = ⟨msgSeq,0,0,⟨"register",by decide⟩,false,content⟩ ∧ content.bytes =
        Register.schema.writeTo ⟨svrType,p.serverInfo.serverId,p.serviceHost,p.servicePort⟩ := by
  obtain ⟨t,ht,h⟩ := Option.bind_eq_some_iff.mp h
  obtain ⟨svrType,hn,h⟩ := Option.bind_eq_some_iff.mp h
  obtain ⟨content,hc,h⟩ := Option.bind_eq_some_iff.mp h
  obtain ⟨msgSeq,rfl⟩ := generateDiscoverMsg_eq_ok (toOption_eq_some.mp h)
  exact ⟨t,svrType,msgSeq,content,⟨ht,toOption_eq_some.mp hn⟩,rfl,toByteString_eq_some hc⟩

theorem unregisterMsg_eq_some (h : p.unregisterMsg now = some msg) :
    ∃ t svrType msgSeq content, p.Labelled t svrType ∧
      msg = ⟨msgSeq,0,0,⟨"unregister",by decide⟩,false,content⟩ ∧
      content.bytes = Unregister.schema.writeTo ⟨svrType,p.serverInfo.serverId⟩ := by
  obtain ⟨t,ht,h⟩ := Option.bind_eq_some_iff.mp h
  obtain ⟨svrType,hn,h⟩ := Option.bind_eq_some_iff.mp h
  obtain ⟨content,hc,h⟩ := Option.bind_eq_some_iff.mp h
  obtain ⟨msgSeq,rfl⟩ := generateDiscoverMsg_eq_ok (toOption_eq_some.mp h)
  exact ⟨t,svrType,msgSeq,content,⟨ht,toOption_eq_some.mp hn⟩,rfl,toByteString_eq_some hc⟩

end Announcements

/-! ### What the server makes of them -/

section Announced
variable {p : Process} {now : Instant} {msg : Request}

theorem register_dispatch (h : p.registerMsg now = some msg) : ∃ t svrType,
    p.Labelled t svrType ∧ dispatch msg = some (.change (.register
      ⟨svrType,p.serverInfo.serverId,p.serviceHost,p.servicePort⟩)) := by
  obtain ⟨t,svrType,msgSeq,content,label,rfl,bytes⟩ := registerMsg_eq_some h
  refine ⟨t,svrType,label,?_⟩
  change (Register.schema.parseFrom content.bytes).map _ = _
  rw [bytes,Register.schema.parseFrom_writeTo]
  rfl

theorem unregister_dispatch (h : p.unregisterMsg now = some msg) : ∃ t svrType,
    p.Labelled t svrType ∧
      dispatch msg = some (.change (.unregister ⟨svrType,p.serverInfo.serverId⟩)) := by
  obtain ⟨t,svrType,msgSeq,content,label,rfl,bytes⟩ := unregisterMsg_eq_some h
  refine ⟨t,svrType,label,?_⟩
  change (Unregister.schema.parseFrom content.bytes).map _ = _
  rw [bytes,Unregister.schema.parseFrom_writeTo]
  rfl

end Announced

/-- An answer comes back with the number of its query and what the handler has answered. -/
theorem answerOf_read {req : Request} {result : Except Throwable (Option GetServiceInfoResp)}
    {b : Bytes} (h : answerOf req result = some b) : ∃ resp rsp, result = .ok (some resp) ∧
      Response.schema.parseFrom b = some ⟨rsp,[]⟩ ∧ rsp.msgSeq = req.msgSeq ∧
      readServiceInfo (.ok (some rsp)) = some resp := by
  obtain ⟨resp,hr,hb⟩ := Option.bind_eq_some_iff.mp h
  obtain ⟨content,hc,rfl⟩ := Option.map_eq_some_iff.mp hb
  refine ⟨resp,_,toOption_eq_some.mp (Option.join_eq_some_iff.mp hr),
    Response.schema.parseFrom_writeTo _,rfl,?_⟩
  change Option.map _ (GetServiceInfoResp.schema.parseFrom content.bytes) = _
  rw [toByteString_eq_some hc]
  change Option.map _ (GetServiceInfoResp.schema.parseFrom
    (GetServiceInfoResp.schema.writeTo resp)) = _
  rw [GetServiceInfoResp.schema.parseFrom_writeTo]
  rfl

section Server
variable {it : DiscoverHandler.Iteration} {order : GetMethods} {s : Server it} {req : Request}

/-- A request of another type or method is bound to nothing. -/
theorem dispatch_unbound (unbound : ∀ m proto, RpcServerHandler.DiscoverMethod.rpcMethod m ≠
    some ⟨req.method.val,proto,.ofRaw req.svrType⟩) : dispatch req = none := by
  unfold dispatch
  split_ifs with unknown register unregister getServiceInfo
  · exact absurd (by rw [register,unknown]; rfl) (unbound .register "Discover.register")
  · exact absurd (by rw [unregister,unknown]; rfl) (unbound .unregister "Discover.unregister")
  · exact absurd (by rw [getServiceInfo,unknown]; rfl)
      (unbound .getServiceInfo "Discover.getServiceInfoReq")
  · rfl
  · rfl

/-- Calling the bound method by reflection is making the call of `dispatch`. -/
theorem uncached_runAlone {m : RpcServerHandler.DiscoverMethod} {proto : String}
    (hm : m.rpcMethod = some ⟨req.method.val,proto,.ofRaw req.svrType⟩)
    (s : DiscoverHandler.Handler) :
    RpcInvokerHolder.Invoker.uncached (J := jvm it) ⟨m,(),proto⟩ s req.content =
      runAlone it s (dispatch req) := by
  have unknown := RpcServerHandler.rpcMethod_declared hm
  have name : m.rpcMethod.map RpcInvokerHolder.RpcMethod.method = some req.method.val := by
    rw [hm]
    rfl
  have message : m.rpcMethod.map RpcInvokerHolder.RpcMethod.proto = some proto := by
    rw [hm]
    rfl
  unfold dispatch
  rw [if_pos unknown]
  cases m with
  | register =>
    cases message
    rw [if_pos (Option.some.inj name).symm,RpcServerHandler.register_uncached]
    cases Register.schema.parseFrom req.content.bytes <;> rfl
  | unregister =>
    cases message
    have method : req.method.val = "unregister" := (Option.some.inj name).symm
    rw [if_neg (by rw [method]; decide),if_pos method,RpcServerHandler.unregister_uncached]
    cases Unregister.schema.parseFrom req.content.bytes <;> rfl
  | getServiceInfo =>
    cases message
    have method : req.method.val = "getServiceInfo" := (Option.some.inj name).symm
    rw [if_neg (by rw [method]; decide),if_neg (by rw [method]; decide),if_pos method,
      RpcServerHandler.getServiceInfo_uncached]
    cases GetServiceInfoReq.schema.parseFrom req.content.bytes <;> rfl
  | inherited => cases hm

/-- A request that the server handles alone makes the call of `dispatch`, and what is
    written is the answer of that call. -/
theorem channelRead0_dispatch (h : Serving order s) (req : Request) : ∃ holder,
    channelRead0 s req =
      (.ok ((runAlone it s.handler (dispatch req)).1.map (RpcServerHandler.reply req)),
        ⟨holder,(runAlone it s.handler (dispatch req)).2⟩) := by
  by_cases bound : ∃ m proto, RpcServerHandler.DiscoverMethod.rpcMethod m =
      some ⟨req.method.val,proto,.ofRaw req.svrType⟩
  · obtain ⟨m,proto,hm⟩ := bound
    obtain ⟨holder,_,eq⟩ :=
      RpcServerHandler.channelRead0_bound h hm (uncached_runAlone hm s.handler)
    exact ⟨holder,eq⟩
  · have unbound := fun m proto hm => bound ⟨m,proto,hm⟩
    rw [RpcServerHandler.channelRead0_unbound h unbound,dispatch_unbound unbound]
    exact ⟨s.holder,rfl⟩

end Server

end SeeU.DiscoverNetwork
