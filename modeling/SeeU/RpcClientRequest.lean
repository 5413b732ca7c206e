import SeeU.RpcClientRegistry

set_option autoImplicit false

/-!
# The cache miss of `RpcClientManger.request`

The test for a client under the answered id is the wrong way round: with none
stored nothing is connected, and with one stored it is connected to again.
-/
namespace SeeU.RpcClientManger
open WireFormat DiscoverMsg DiscoverClient

/-- What `request` returns for the outcome of `write`. -/
def returned : Except Throwable (Option Response) → Option Response
  | .ok response => response
  | .error _ => none

def Effect.isConnect : Effect → Bool
  | .connect _ _ _ => true
  | .write _ _ => false

theorem generateRpcRequest_ok {info : ServerInfo} {now : Instant}
    {serverType : Option ServerType} {serverId : BitVec 32} {infoReq : Request}
    (h : getServiceInfoMsg info now serverType serverId = .ok infoReq) (now' : Instant)
    (method : Utf8String) (msg : ByteString) (needResponse : Bool) :
    ∃ request, generateRpcRequest info now' method msg needResponse = .ok request := by
  obtain ⟨type,_,h⟩ := bind_eq_ok.mp h
  obtain ⟨_,_,h⟩ := bind_eq_ok.mp h
  have built := generateDiscoverMsg_msgSeq h
  obtain ⟨own,ht,declared⟩ := FuncUtil.generateMsgSeq_ok_iff.mp ⟨_,built⟩
  obtain ⟨number,hn⟩ := ServerType.getNumber_declared declared
  obtain ⟨seq,hs⟩ := FuncUtil.generateMsgSeq_ok_iff.mpr ⟨own,ht,declared⟩
  refine ⟨⟨seq,number,info.serverId,method,needResponse,msg⟩,?_⟩
  unfold generateRpcRequest
  simp only [bind_eq_ok,nonNull_eq_ok]
  exact ⟨own,ht,number,hn,seq,hs,rfl⟩

section Effects
variable (env : Environment) (s : Manger) (effects : List Effect) (method : Utf8String)
  (msg : ByteString) (needResponse : Bool)

theorem send_connects (client : Option ClientId) :
    (send env s effects client method msg needResponse).effects.filter Effect.isConnect =
      effects.filter Effect.isConnect := by
  unfold send
  split
  · rfl
  · rfl
  · split <;> simp [Effect.isConnect]

theorem connectAgain_connects (t : Option ServerType) (i : BitVec 32)
    (infoResp : GetServiceInfoResp) :
    (connectAgain env s effects t i infoResp method msg needResponse).effects.filter
      Effect.isConnect =
        effects.filter Effect.isConnect ++ [.connect s.fresh infoResp.host infoResp.port] := by
  unfold connectAgain
  cases hc : (env.connect infoResp.host infoResp.port).channel with
  | none => simp [hc,Effect.isConnect]
  | some channel => simp [hc,send_connects,Effect.isConnect]

end Effects

/-! ### A server named by discovery -/

/-- No client is stored under the requested id, and discovery names a server that can be
    connected to. -/
structure NamedMiss (env : Environment) (s : Manger) (t : Option ServerType) (i : BitVec 32)
    (infoResp : GetServiceInfoResp) : Prop where
  miss : s.client t i = none
  answer : getServiceInfo env t i = .ok (some infoResp)
  named : infoResp.getSvrType ≠ .unknown
  connects : env.connect infoResp.host infoResp.port ≠ .failed

/-- The generated request is written on a client of the named server, and the result of
    that write is returned: on the stored client, with nothing connected, if there is one;
    else on the one client that was connected, which both maps hold afterwards. -/
def ReachesNamed (env : Environment) (s : Manger) (t : Option ServerType) (i : BitVec 32)
    (infoResp : GetServiceInfoResp) (method : Utf8String) (msg : ByteString)
    (needResponse : Bool) : Prop :=
  let out := request env s t i method msg needResponse
  ∃ req c, generateRpcRequest env.serverInfo env.requestNow method msg needResponse = .ok req ∧
    .write req c ∈ out.effects ∧ out.result = .ok (returned (env.write req c)) ∧
    match s.client t infoResp.svrId with
    | some stored => c = stored ∧ out.effects.filter Effect.isConnect = []
    | none => out.effects.filter Effect.isConnect = [.connect c infoResp.host infoResp.port] ∧
        (∃ u j, out.state.client u j = some c) ∧
        ∃ channel, (out.state.clients c).channel = some channel ∧
          out.state.rpcChannelClientMap (getChannelKey channel) = some c

section Named
variable {env : Environment} {s : Manger} {t : Option ServerType} {i : BitVec 32}
  {infoResp : GetServiceInfoResp}

theorem miss_connects (miss : s.client t i = none)
    (answer : getServiceInfo env t i = .ok (some infoResp)) (method : Utf8String)
    (msg : ByteString) (needResponse : Bool) :
    (request env s t i method msg needResponse).effects.filter Effect.isConnect =
      match s.client t infoResp.svrId with
      | none => []
      | some _ => [.connect (s.computeIfAbsent t).fresh infoResp.host infoResp.port] := by
  obtain ⟨infoReq,hr⟩ := request_miss method msg needResponse miss answer
  cases hc : s.client t infoResp.svrId with
  | none =>
    simp only [hc] at hr
    rw [hr,send_connects]
    rfl
  | some c =>
    simp only [hc] at hr
    rw [hr,connectAgain_connects]
    rfl

/-- Whether or not a client is stored under the answered id, a miss does not reach the
    named server as it should. -/
theorem named_server_not_reached (h : NamedMiss env s t i infoResp) (method : Utf8String)
    (msg : ByteString) (needResponse : Bool) :
    ¬ReachesNamed env s t i infoResp method msg needResponse := by
  rintro ⟨req,c,_,_,_,reached⟩
  have connects := miss_connects h.miss h.answer method msg needResponse
  cases hc : s.client t infoResp.svrId with
  | none =>
    rw [hc] at connects reached
    rw [connects] at reached
    cases reached.1
  | some stored =>
    rw [hc] at connects reached
    rw [connects] at reached
    cases reached.2

end Named

/-- A world in which every write is answered with one content and every connection ends
    alike. -/
def world (content : ByteString) (connection : Connection) : Environment where
  serverInfo := ⟨some .access,0,3⟩
  discoverNow := 5
  requestNow := 6
  discoverClient := 0
  write req _ := .ok (some ⟨req.msgSeq,req.svrType,req.svrId,req.method,content⟩)
  connect _ _ := connection

theorem world_answer {content : ByteString} {connection : Connection}
    {infoResp : GetServiceInfoResp} (i : BitVec 32)
    (h : content.bytes = GetServiceInfoResp.schema.writeTo infoResp) :
    getServiceInfo (world content connection) (some .access) i = .ok (some infoResp) := by
  have parsed : GetServiceInfoResp.parseFrom content.bytes = some ⟨infoResp,[]⟩ := by
    rw [h]
    exact GetServiceInfoResp.schema.parseFrom_writeTo infoResp
  change Except.ok ((GetServiceInfoResp.parseFrom content.bytes).map _) = _
  rw [parsed]
  rfl

def localServer : GetServiceInfoResp := ⟨2,1,⟨"127.0.0.1",by decide⟩,9000⟩

def localContent : ByteString := ⟨GetServiceInfoResp.schema.writeTo localServer,by decide⟩

def query : Utf8String := ⟨"user.login",by decide⟩

theorem stored_server_not_reached :
    ¬ReachesNamed (world localContent (.active channelB)) ((start connections 2).addClient 0).2
      (some .access) 3 localServer query ByteString.empty true :=
  named_server_not_reached ⟨rfl,world_answer 3 rfl,by decide,by decide⟩ _ _ _

/-- With empty maps the named server is not connected to, and nothing is written to it. -/
theorem new_server_not_reached :
    let env := world localContent (.active channelB)
    NamedMiss env (start connections 2) (some .access) 1 localServer ∧
      (request env (start connections 2) (some .access) 1 query ByteString.empty true).result =
        .ok none ∧
      ¬ReachesNamed env (start connections 2) (some .access) 1 localServer query
        ByteString.empty true := by
  intro env
  have answer : getServiceInfo env (some .access) 1 = .ok (some localServer) := world_answer 1 rfl
  have miss : (start connections 2).client (some .access) 1 = none := rfl
  refine ⟨⟨miss,answer,by decide,by decide⟩,?_,?_⟩
  · obtain ⟨infoReq,hr⟩ := request_miss query ByteString.empty true miss answer
    rw [hr]
    rfl
  · rintro ⟨req,c,_,_,_,connected,_⟩
    rw [miss_connects miss answer] at connected
    cases connected

/-! ### A connection that cannot be established -/

/-- The answer of the discover service for a type it does not know. -/
def notFound : GetServiceInfoResp := ⟨0,0,Utf8String.empty,0⟩

/-- No client is stored under the requested id, and discovery does not answer, answers
    that there is no server, or names one that cannot be connected to. -/
structure FailedMiss (env : Environment) (s : Manger) (t : Option ServerType) (i : BitVec 32)
    (answer : Option GetServiceInfoResp) : Prop where
  miss : s.client t i = none
  answered : getServiceInfo env t i = .ok answer
  fails : answer = none ∨ answer = some notFound ∨
    ∃ infoResp, answer = some infoResp ∧ env.connect infoResp.host infoResp.port = .failed

/-- `request` returns null, connects to nothing for a not-found answer, and leaves the
    clients of both maps as they were. -/
structure FailsAtomically (env : Environment) (s : Manger) (t : Option ServerType)
    (i : BitVec 32) (answer : Option GetServiceInfoResp) (method : Utf8String) (msg : ByteString)
    (needResponse : Bool) : Prop where
  result : (request env s t i method msg needResponse).result = .ok none
  connects : answer = some notFound →
    (request env s t i method msg needResponse).effects.filter Effect.isConnect = []
  clients : ∀ u j, (request env s t i method msg needResponse).state.client u j = s.client u j
  channels : (request env s t i method msg needResponse).state.rpcChannelClientMap =
    s.rpcChannelClientMap

section Failed
variable {env : Environment} {s : Manger} {t : Option ServerType} {i : BitVec 32}
  {answer : Option GetServiceInfoResp} (method : Utf8String) (msg : ByteString)
  (needResponse : Bool)

/-- With no client under the answered id the request ends in the caught exception. -/
theorem fails_atomically_of_none (h : FailedMiss env s t i answer)
    (free : ∀ infoResp, answer = some infoResp → s.client t infoResp.svrId = none) :
    FailsAtomically env s t i answer method msg needResponse := by
  obtain ⟨infoReq,hm,_⟩ := getServiceInfo_ok h.answered
  obtain ⟨req,hreq⟩ := generateRpcRequest_ok hm env.requestNow method msg needResponse
  have keeps : ¬ConnectsAgain env s t i := by
    rintro ⟨_,infoResp,ha,stored⟩
    rw [h.answered] at ha
    rw [free infoResp (Except.ok.inj ha)] at stored
    cases stored
  have maps := request_maps method msg needResponse keeps
  have clients : ∀ u j, (request env s t i method msg needResponse).state.client u j =
      s.client u j := by
    intro u j
    rw [maps,Manger.computeIfAbsent_client]
  have channels : (request env s t i method msg needResponse).state.rpcChannelClientMap =
      s.rpcChannelClientMap := by
    rw [maps,Manger.computeIfAbsent_channels]
  obtain ⟨infoReq',hr⟩ := request_miss method msg needResponse h.miss h.answered
  rcases answer with _ | infoResp
  · exact ⟨by rw [hr],nofun,clients,channels⟩
  · simp only [free infoResp rfl] at hr
    refine ⟨?_,?_,clients,channels⟩
    · rw [hr]
      simp only [send,hreq]
    · intro _
      rw [hr,send_connects]
      rfl

/-- A failed miss leaves everything as it was exactly if no client is stored under the id
    that discovery answers. -/
theorem fails_atomically_iff (h : FailedMiss env s t i answer) :
    FailsAtomically env s t i answer method msg needResponse ↔
      ∀ infoResp, answer = some infoResp → s.client t infoResp.svrId = none := by
  refine ⟨?_,fails_atomically_of_none method msg needResponse h⟩
  rintro atomic infoResp rfl
  cases hc : s.client t infoResp.svrId with
  | none => rfl
  | some c =>
    exfalso
    obtain ⟨infoReq,hr⟩ := request_miss method msg needResponse h.miss h.answered
    simp only [hc] at hr
    have filed := (connectAgain_state env (s.computeIfAbsent t)
      [.write infoReq env.discoverClient] t i infoResp method msg needResponse
      (s.computeIfAbsent_present t)).1
    rw [←hr,atomic.clients,h.miss] at filed
    cases filed

end Failed

theorem unknown_server_atomic :
    FailsAtomically (world ByteString.empty .failed) (start connections 2) (some .access) 5
      (some notFound) query ByteString.empty true :=
  (fails_atomically_iff _ _ _ ⟨rfl,world_answer 5 rfl,.inr (.inl rfl)⟩).mpr (fun _ _ => rfl)

def zeroConnection : ClientId → RpcBaseClient :=
  fun _ => ⟨some .access,0,none,0,some channelA⟩

theorem not_found_connected :
    let env := world ByteString.empty .failed
    let s := ((start zeroConnection 1).addClient 0).2
    FailedMiss env s (some .access) 5 (some notFound) ∧
      (request env s (some .access) 5 query ByteString.empty true).effects.filter
        Effect.isConnect = [.connect 1 Utf8String.empty 0] ∧
      ¬FailsAtomically env s (some .access) 5 (some notFound) query ByteString.empty true := by
  intro env s
  have answer : getServiceInfo env (some .access) 5 = .ok (some notFound) := world_answer 5 rfl
  have miss : s.client (some .access) 5 = none := rfl
  have connects := miss_connects miss answer query ByteString.empty true
  refine ⟨⟨miss,answer,.inr (.inl rfl)⟩,connects,?_⟩
  intro atomic
  have none := atomic.connects rfl
  rw [connects] at none
  cases none

end SeeU.RpcClientManger
