import SeeU.DiscoverClient
import Mathlib.Logic.Function.Basic

set_option autoImplicit false

/-!
# `RpcClientManger`

The two maps in which a process keeps its clients, and the operations on them. An
operation that throws keeps the changes it made before.
-/
namespace SeeU.RpcClientManger
open WireFormat DiscoverMsg DiscoverClient

/-- An `RpcBaseClient` object. -/
abbrev ClientId := ℕ

/-- A Netty channel, by `id().toString()` and `toString()`. -/
structure Channel where
  idText : String
  text : String
  deriving DecidableEq

structure RpcBaseClient where
  targetType : Option ServerType
  targetId : BitVec 32
  host : Option Utf8String
  port : BitVec 32
  channel : Option Channel
  deriving DecidableEq

/-- `clients` holds the fields of the objects, those below `fresh` being allocated. -/
structure Manger where
  clients : ClientId → RpcBaseClient
  fresh : ClientId
  rpcClientMap : Option ServerType → Option (BitVec 32 → Option ClientId)
  rpcChannelClientMap : String → Option ClientId

/-- How `RpcBaseClient.connect` ends: it returns false, it returns true before its
    listener has set the channel, or it returns true after that. -/
inductive Connection where
  | failed | pending
  | active (channel : Channel)
  deriving DecidableEq

def Connection.channel : Connection → Option Channel
  | failed | pending => none
  | active channel => some channel

/-- What surrounds one call of `request`: the process, the clock at the two points where
    it is read, and the outcomes of `RpcClientHandler.write` and `RpcBaseClient.connect`. -/
structure Environment where
  serverInfo : ServerInfo
  discoverNow : Instant
  requestNow : Instant
  discoverClient : ClientId
  write : Request → ClientId → Except Throwable (Option Response)
  connect : Utf8String → BitVec 32 → Connection

inductive Effect where
  | write (request : Request) (client : ClientId)
  | connect (client : ClientId) (host : Utf8String) (port : BitVec 32)
  deriving DecidableEq

structure Outcome where
  result : Except Throwable (Option Response)
  state : Manger
  effects : List Effect

def getChannelKey (channel : Channel) : String := channel.idText

namespace Manger

/-- The entry of the inner map, where a missing inner map has no entries. -/
def client (s : Manger) (serverType : Option ServerType) (serverId : BitVec 32) :
    Option ClientId :=
  (s.rpcClientMap serverType).bind (fun clientMap => clientMap serverId)

def computeIfAbsent (s : Manger) (serverType : Option ServerType) : Manger :=
  if (s.rpcClientMap serverType).isSome then s
  else { s with rpcClientMap := Function.update s.rpcClientMap serverType (some (fun _ => none)) }

/-- Change one entry of the inner map of a type, if there is one. -/
def setClient (s : Manger) (serverType : Option ServerType) (serverId : BitVec 32)
    (c : Option ClientId) : Manger :=
  match s.rpcClientMap serverType with
  | some clientMap =>
    { s with
      rpcClientMap :=
        Function.update s.rpcClientMap serverType (some (Function.update clientMap serverId c)) }
  | none => s

def setChannel (s : Manger) (key : String) (c : Option ClientId) : Manger :=
  { s with rpcChannelClientMap := Function.update s.rpcChannelClientMap key c }

def addClient (s : Manger) (c : ClientId) : Except Throwable Unit × Manger :=
  let client := s.clients c
  let s := (s.computeIfAbsent client.targetType).setClient client.targetType client.targetId
    (some c)
  match client.channel with
  | none => (.error .nullPointer,s)
  | some channel => (.ok (),s.setChannel (getChannelKey channel) (some c))

/-- `removeClient(RpcBaseClient)`. -/
def removeClient (s : Manger) (c : ClientId) : Except Throwable (Option ClientId) × Manger :=
  let client := s.clients c
  let s := s.setClient client.targetType client.targetId none
  match client.channel with
  | none => (.error .nullPointer,s)
  | some channel =>
    (.ok (s.rpcChannelClientMap (getChannelKey channel)),
      s.setChannel (getChannelKey channel) none)

/-- `removeClient(Channel)`. -/
def removeChannel (s : Manger) (channel : Channel) : Option ClientId × Manger :=
  let found := s.rpcChannelClientMap (getChannelKey channel)
  let s := s.setChannel (getChannelKey channel) none
  match found with
  | none => (none,s)
  | some c => (some c,s.setClient (s.clients c).targetType (s.clients c).targetId none)

/-- `new RpcBaseClient()` and its `connect`. -/
def newClient (s : Manger) (host : Utf8String) (port : BitVec 32) (connection : Connection) :
    Manger :=
  { s with
    clients := Function.update s.clients s.fresh ⟨none,0,some host,port,connection.channel⟩
    fresh := s.fresh + 1 }

end Manger

def generateRpcRequest (info : ServerInfo) (now : Instant) (method : Utf8String)
    (msg : ByteString) (needResponse : Bool) : Except Throwable Request := do
  let type ← nonNull info.serverType
  let svrType ← type.getNumber
  let msgSeq ← FuncUtil.generateMsgSeq now info.serverType info.serverId info.startInstant
  return ⟨msgSeq,svrType,info.serverId,method,needResponse,msg⟩

/-- The last part of `request`. The request is generated outside the `try`; a null client
    and an exception of `write` are caught inside it. -/
def send (env : Environment) (s : Manger) (effects : List Effect) (client : Option ClientId)
    (method : Utf8String) (msg : ByteString) (needResponse : Bool) : Outcome :=
  match generateRpcRequest env.serverInfo env.requestNow method msg needResponse, client with
  | .error e, _ => ⟨.error e,s,effects⟩
  | .ok _, none => ⟨.ok none,s,effects⟩
  | .ok request, some c =>
    match env.write request c with
    | .ok response => ⟨.ok response,s,effects ++ [.write request c]⟩
    | .error _ => ⟨.ok none,s,effects ++ [.write request c]⟩

/-- The branch of `request` for an answer whose id has a client already. -/
def connectAgain (env : Environment) (s : Manger) (effects : List Effect)
    (serverType : Option ServerType) (serverId : BitVec 32) (infoResp : GetServiceInfoResp)
    (method : Utf8String) (msg : ByteString) (needResponse : Bool) : Outcome :=
  let client := s.fresh
  let connection := env.connect infoResp.host infoResp.port
  let s := (s.newClient infoResp.host infoResp.port connection).setClient serverType serverId
    (some client)
  let effects := effects ++ [.connect client infoResp.host infoResp.port]
  match connection.channel with
  | none => ⟨.error .nullPointer,s,effects⟩
  | some channel =>
    send env (s.setChannel channel.text (some client)) effects (some client) method msg
      needResponse

def request (env : Environment) (s : Manger) (serverType : Option ServerType)
    (serverId : BitVec 32) (method : Utf8String) (msg : ByteString) (needResponse : Bool) :
    Outcome :=
  let s := s.computeIfAbsent serverType
  match s.client serverType serverId with
  | some client => send env s [] (some client) method msg needResponse
  | none =>
    match getServiceInfoMsg env.serverInfo env.discoverNow serverType serverId with
    | .error e => ⟨.error e,s,[]⟩
    | .ok infoReq =>
      let effects := [.write infoReq env.discoverClient]
      match readServiceInfo (env.write infoReq env.discoverClient) with
      | none => ⟨.ok none,s,effects⟩
      | some infoResp =>
        match s.client serverType infoResp.svrId with
        | none => send env s effects none method msg needResponse
        | some _ =>
          connectAgain env s effects serverType serverId infoResp method msg needResponse

/-! ### What each operation does to the two maps -/

namespace Manger

@[simp] theorem computeIfAbsent_client (s : Manger) (t u : Option ServerType) (i : BitVec 32) :
    (s.computeIfAbsent t).client u i = s.client u i := by
  unfold computeIfAbsent
  split_ifs with present
  · rfl
  · by_cases h : u = t
    · subst h
      have absent : s.rpcClientMap u = none := by simpa using present
      simp [client,absent]
    · simp [client,Function.update_of_ne h]

@[simp] theorem computeIfAbsent_channels (s : Manger) (t : Option ServerType) :
    (s.computeIfAbsent t).rpcChannelClientMap = s.rpcChannelClientMap := by
  unfold computeIfAbsent
  split_ifs <;> rfl

@[simp] theorem computeIfAbsent_clients (s : Manger) (t : Option ServerType) :
    (s.computeIfAbsent t).clients = s.clients := by
  unfold computeIfAbsent
  split_ifs <;> rfl

theorem computeIfAbsent_present (s : Manger) (t : Option ServerType) :
    ((s.computeIfAbsent t).rpcClientMap t).isSome := by
  unfold computeIfAbsent
  split_ifs with present
  · exact present
  · simp

@[simp] theorem setClient_channels (s : Manger) (t : Option ServerType) (i : BitVec 32)
    (c : Option ClientId) : (s.setClient t i c).rpcChannelClientMap = s.rpcChannelClientMap := by
  unfold setClient
  split <;> rfl

@[simp] theorem setClient_clients (s : Manger) (t : Option ServerType) (i : BitVec 32)
    (c : Option ClientId) : (s.setClient t i c).clients = s.clients := by
  unfold setClient
  split <;> rfl

theorem setClient_client (s : Manger) (t : Option ServerType) (i : BitVec 32)
    (c : Option ClientId) (h : c = none ∨ (s.rpcClientMap t).isSome) (u : Option ServerType)
    (j : BitVec 32) :
    (s.setClient t i c).client u j = if u = t ∧ j = i then c else s.client u j := by
  unfold setClient
  cases ht : s.rpcClientMap t with
  | none =>
    rw [ht] at h
    rcases h with rfl | h
    · split_ifs with same
      · rw [same.1,client,ht]
        rfl
      · rfl
    · cases h
  | some clientMap =>
    by_cases hu : u = t
    · subst hu
      by_cases hj : j = i
      · subst hj
        simp [client]
      · simp [client,ht,hj]
    · simp [client,hu]

@[simp] theorem setChannel_client (s : Manger) (key : String) (c : Option ClientId)
    (t : Option ServerType) (i : BitVec 32) : (s.setChannel key c).client t i = s.client t i := rfl

@[simp] theorem setChannel_clients (s : Manger) (key : String) (c : Option ClientId) :
    (s.setChannel key c).clients = s.clients := rfl

end Manger

@[simp] theorem send_state (env : Environment) (s : Manger) (effects : List Effect)
    (client : Option ClientId) (method : Utf8String) (msg : ByteString) (needResponse : Bool) :
    (send env s effects client method msg needResponse).state = s := by
  unfold send
  split
  · rfl
  · rfl
  · split <;> rfl

/-- What `getServiceInfo` returns, with the exceptions it lets pass. -/
def getServiceInfo (env : Environment) (serverType : Option ServerType) (serverId : BitVec 32) :
    Except Throwable (Option GetServiceInfoResp) :=
  (getServiceInfoMsg env.serverInfo env.discoverNow serverType serverId).map
    (fun infoReq => readServiceInfo (env.write infoReq env.discoverClient))

/-! ### The branches of `request` -/

section Request
variable {env : Environment} {s : Manger} {t : Option ServerType} {i : BitVec 32}
  (method : Utf8String) (msg : ByteString) (needResponse : Bool)

theorem getServiceInfo_ok {answer : Option GetServiceInfoResp}
    (h : getServiceInfo env t i = .ok answer) : ∃ infoReq,
      getServiceInfoMsg env.serverInfo env.discoverNow t i = .ok infoReq ∧
        readServiceInfo (env.write infoReq env.discoverClient) = answer :=
  map_eq_ok.mp h

theorem request_hit {c : ClientId} (hit : s.client t i = some c) :
    request env s t i method msg needResponse =
      send env (s.computeIfAbsent t) [] (some c) method msg needResponse := by
  simp only [request,Manger.computeIfAbsent_client,hit]

theorem request_error {e : Throwable} (miss : s.client t i = none)
    (answer : getServiceInfo env t i = .error e) :
    request env s t i method msg needResponse = ⟨.error e,s.computeIfAbsent t,[]⟩ := by
  unfold getServiceInfo at answer
  cases hm : getServiceInfoMsg env.serverInfo env.discoverNow t i with
  | error e' =>
    rw [hm] at answer
    cases answer
    simp only [request,Manger.computeIfAbsent_client,miss,hm]
  | ok infoReq =>
    rw [hm] at answer
    cases answer

theorem request_miss {answer : Option GetServiceInfoResp} (miss : s.client t i = none)
    (hanswer : getServiceInfo env t i = .ok answer) : ∃ infoReq,
      request env s t i method msg needResponse =
        match answer with
        | none => ⟨.ok none,s.computeIfAbsent t,[.write infoReq env.discoverClient]⟩
        | some infoResp =>
          match s.client t infoResp.svrId with
          | none => send env (s.computeIfAbsent t) [.write infoReq env.discoverClient] none
              method msg needResponse
          | some _ => connectAgain env (s.computeIfAbsent t)
              [.write infoReq env.discoverClient] t i infoResp method msg needResponse := by
  obtain ⟨infoReq,hm,hr⟩ := getServiceInfo_ok hanswer
  refine ⟨infoReq,?_⟩
  simp only [request,Manger.computeIfAbsent_client,miss,hm,hr]

end Request

end SeeU.RpcClientManger
