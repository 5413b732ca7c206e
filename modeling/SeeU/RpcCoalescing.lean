import SeeU.DiscoverExchange
import SeeU.Responder
import SeeU.RpcPipeline
import SeeU.WireMerge

set_option autoImplicit false

/-!
# Messages that share a read

Neither pipeline has a frame handler, so that the messages whose bytes one read returns
are decoded as one. The handler is called once for them, with their merge.
-/
namespace SeeU.RpcPipeline
open WireFormat StreamFraming RpcServerHandler

/-- Whatever the messages are and however many of them each read returns, the handlers are
    called once for each read, with the merge of its messages. -/
theorem channelReads_grouped (requests : Grouping Request.schema.codec)
    (responses : Grouping Response.schema.codec) :
    serverChannelReads requests.segmentation.reads =
        requests.groups.map (fun g => received (Request.schema.mergeAll g)) ∧
      clientChannelReads responses.segmentation.reads =
        responses.groups.map (fun g => received (Response.schema.mergeAll g)) :=
  ⟨Schema.delivered_groups requests.groups,Schema.delivered_groups responses.groups⟩

/-! ### Requests to the discover server in one read -/

/-- A request of `DiscoverClient`. -/
inductive FromClient (req : Request) : Prop where
  | register (p : DiscoverNetwork.Process) (now : Instant) (h : p.registerMsg now = some req)
  | unregister (p : DiscoverNetwork.Process) (now : Instant) (h : p.unregisterMsg now = some req)
  | getServiceInfo (info : ServerInfo) (now : Instant) (serverType : Option ServerType)
      (serverId : BitVec 32)
      (h : DiscoverClient.getServiceInfoMsg info now serverType serverId = .ok req)

/-- What a request takes from no other one. `getServiceInfo` of `UNKNOWN` and 0 has an empty
    content. -/
structure Filled (req : Request) : Prop where
  msgSeq : req.msgSeq ≠ 0
  content : req.content ≠ ByteString.empty

/-- The labels that all requests of `DiscoverClient` have. -/
structure Unlabelled (req : Request) : Prop where
  svrType : req.svrType = 0
  svrId : req.svrId = 0

theorem FromClient.unlabelled {req : Request} (h : FromClient req) :
    Unlabelled req ∧ req.method ≠ Utf8String.empty := by
  cases h with
  | register p now h =>
    obtain ⟨_,_,_,_,_,rfl,_⟩ := DiscoverNetwork.registerMsg_eq_some h
    exact ⟨⟨rfl,rfl⟩,ne_of_apply_ne Utf8String.val (show "register" ≠ "" by decide)⟩
  | unregister p now h =>
    obtain ⟨_,_,_,_,_,rfl,_⟩ := DiscoverNetwork.unregisterMsg_eq_some h
    exact ⟨⟨rfl,rfl⟩,ne_of_apply_ne Utf8String.val (show "unregister" ≠ "" by decide)⟩
  | getServiceInfo info now serverType serverId h =>
    obtain ⟨_,query⟩ := DiscoverNetwork.getServiceInfoMsg_query h
    obtain ⟨_,rfl⟩ := query.msg_eq
    exact ⟨⟨rfl,rfl⟩,ne_of_apply_ne Utf8String.val (show "getServiceInfo" ≠ "" by decide)⟩

theorem merge_eq (a b : Request) : Request.schema.merge a b =
    ⟨if b.msgSeq = 0 then a.msgSeq else b.msgSeq,if b.svrType = 0 then a.svrType else b.svrType,
      if b.svrId = 0 then a.svrId else b.svrId,
      if b.method = Utf8String.empty then a.method else b.method,
      if b.needResponse = false then a.needResponse else b.needResponse,
      if b.content = ByteString.empty then a.content else b.content⟩ := by
  apply Request.schema.ext
  intro f mem
  rw [Schema.merge_get mem]
  simp only [Request.schema,Request.fields,List.mem_cons,List.not_mem_nil,or_false] at mem
  rcases mem with rfl | rfl | rfl | rfl | rfl | rfl <;> rfl

theorem Unlabelled.merge {a b : Request} (ha : Unlabelled a) (hb : Unlabelled b) :
    Unlabelled (Request.schema.merge a b) := by
  rw [merge_eq]
  constructor
  · rw [if_pos hb.svrType]
    exact ha.svrType
  · rw [if_pos hb.svrId]
    exact ha.svrId

/-- The merge has the labels that all requests have, and the rest of the last one but for
    `needResponse`. -/
theorem mergeAll_filled {g : List Request} {last : Request} (sent : ∀ q ∈ g, FromClient q)
    (own : FromClient last) (filled : Filled last) : ∃ needResponse,
      Request.schema.mergeAll (g ++ [last]) = { last with needResponse := needResponse } := by
  obtain ⟨unlabelled,method⟩ := own.unlabelled
  have kept : ∀ acc : Request, Unlabelled acc → Unlabelled (g.foldl Request.schema.merge acc) := by
    induction g with
    | nil => exact fun acc h => h
    | cons q g ih =>
      intro acc h
      exact ih (fun r hr => sent r (by simp [hr])) _ (h.merge (sent q (by simp)).unlabelled.1)
  have before := kept Request.schema.defaultInstance ⟨rfl,rfl⟩
  refine ⟨if last.needResponse = false then
    (g.foldl Request.schema.merge Request.schema.defaultInstance).needResponse
      else last.needResponse,?_⟩
  simp only [Schema.mergeAll,List.foldl_append,List.foldl_cons,List.foldl_nil,merge_eq,
    if_neg filled.msgSeq,if_neg method,if_neg filled.content,unlabelled.svrType,
    unlabelled.svrId,before.svrType,before.svrId,ite_self]

/-- `RpcServerHandler` does not look at `needResponse`. -/
theorem channelRead0_needResponse {it : DiscoverHandler.Iteration} (s : Server it) (req : Request)
    (needResponse : Bool) :
    channelRead0 s { req with needResponse := needResponse } = channelRead0 s req := rfl

/-- When the requests to the discover server arrive several to a read, it answers and
    stores what it would if only the last request of each read had been sent. -/
theorem coalesced_acts_as_last {it : DiscoverHandler.Iteration} (s : Server it)
    (groups : List (List Request × Request))
    (sent : ∀ g ∈ groups, ∀ q ∈ g.1 ++ [g.2], FromClient q) (filled : ∀ g ∈ groups, Filled g.2) :
    Responder.answers channelRead0 s ((serverChannelReads
        (groups.map (fun g => clientOutbound (g.1 ++ [g.2])))).map Parsed.message) =
      Responder.answers channelRead0 s (groups.map Prod.snd) := by
  have delivered : serverChannelReads (groups.map (fun g => clientOutbound (g.1 ++ [g.2]))) =
      groups.map (fun g => received (Request.schema.mergeAll (g.1 ++ [g.2]))) := by
    have all := Schema.delivered_groups (S := Request.schema)
      (groups.map (fun g => g.1 ++ [g.2]))
    rw [List.map_map,List.map_map] at all
    exact all
  rw [delivered,List.map_map]
  clear delivered
  induction groups generalizing s with
  | nil => rfl
  | cons g gs ih =>
    have hq := sent g (by simp)
    obtain ⟨needResponse,merged⟩ := mergeAll_filled (g := g.1) (fun q mem => hq q (by simp [mem]))
      (hq g.2 (by simp)) (filled g (by simp))
    have head : channelRead0 s (Request.schema.mergeAll (g.1 ++ [g.2])) = channelRead0 s g.2 := by
      rw [merged]
      exact channelRead0_needResponse s g.2 needResponse
    have rest := ih (channelRead0 s g.2).2 (fun h mem => sent h (by simp [mem]))
      (fun h mem => filled h (by simp [mem]))
    rw [List.map_cons,List.map_cons,Responder.answers,Responder.answers,←rest,←head]
    rfl

def accessProcess : DiscoverNetwork.Process :=
  ⟨⟨some .access,0,1⟩,DiscoverHandler.accessOne.host,9000,12⟩

def registerRequest : Request := (accessProcess.registerMsg 5).getD Request.schema.defaultInstance

def getServiceInfoRequest : Request :=
  (DiscoverClient.getServiceInfoMsg accessProcess.serverInfo 6 (some .access) 1).toOption.getD
    Request.schema.defaultInstance

/-- The registration that shares a read with a query is lost. -/
theorem registration_lost :
    let s := start DiscoverHandler.entryOrder declaredOrder
    Responder.answers channelRead0 s ((serverChannelReads
        [clientOutbound [registerRequest,getServiceInfoRequest]]).map Parsed.message) =
      Responder.answers channelRead0 s [getServiceInfoRequest] := by
  refine coalesced_acts_as_last _ [([registerRequest],getServiceInfoRequest)] ?_ ?_
  · intro g hg q hq
    rw [List.mem_singleton] at hg
    rw [hg] at hq
    simp only [List.singleton_append,List.mem_cons,List.not_mem_nil,or_false] at hq
    rcases hq with rfl | rfl
    · exact .register accessProcess 5 rfl
    · exact .getServiceInfo accessProcess.serverInfo 6 (some .access) 1 rfl
  · intro g hg
    rw [List.mem_singleton] at hg
    rw [hg]
    exact ⟨by decide,by decide⟩

end SeeU.RpcPipeline
