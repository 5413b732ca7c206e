import SeeU.KeyedLog
import SeeU.RpcClientRegistry

set_option autoImplicit false

/-!
# Broadcasts over the registered clients

`broadcast` and `broadcastByType` walk the maps of `RpcClientManger`. On a coherent
registry every connection that was added last, and not removed since, is written to
once.
-/
namespace SeeU.RpcClientManger
open WireFormat DiscoverMsg TransitionSystem

/-- The orders in which the loops meet the keys of the maps; `HashMap` leaves them open. -/
structure Iteration (s : Manger) where
  types : List (Option ServerType)
  ids : Option ServerType → List (BitVec 32)
  types_nodup : types.Nodup
  types_mem : ∀ t, t ∈ types ↔ (s.rpcClientMap t).isSome
  ids_nodup : ∀ t, (ids t).Nodup
  ids_mem : ∀ t i, i ∈ ids t ↔ (s.client t i).isSome

structure BroadcastOutcome where
  result : Except Throwable Unit
  state : Manger
  sent : List (Request × Channel)

/-- The clients of one inner map. -/
def clientsOf (s : Manger) (ids : List (BitVec 32)) (t : Option ServerType) : List ClientId :=
  ids.filterMap (s.client t)

/-- The loop over the clients: `write` of a request without response writes it to the
    channel, and its exception for a null channel is caught for that client alone. -/
def writeEach (s : Manger) (request : Request) : List ClientId → List (Request × Channel)
  | [] => []
  | c :: rest =>
    match nonNull (s.clients c).channel with
    | .ok channel => (request,channel) :: writeEach s request rest
    | .error _ => writeEach s request rest

def broadcast (info : ServerInfo) (now : Instant) (s : Manger) (it : Iteration s)
    (method : Utf8String) (msg : ByteString) : BroadcastOutcome :=
  match generateRpcRequest info now method msg false with
  | .error e => ⟨.error e,s,[]⟩
  | .ok request =>
    ⟨.ok (),s,it.types.flatMap (fun t => writeEach s request (clientsOf s (it.ids t) t))⟩

/-- The request is generated before `computeIfAbsent`. -/
def broadcastByType (info : ServerInfo) (now : Instant) (s : Manger) (it : Iteration s)
    (serverType : Option ServerType) (method : Utf8String) (msg : ByteString) :
    BroadcastOutcome :=
  match generateRpcRequest info now method msg false with
  | .error e => ⟨.error e,s,[]⟩
  | .ok request =>
    ⟨.ok (),s.computeIfAbsent serverType,
      writeEach s request (clientsOf s (it.ids serverType) serverType)⟩

/-! ### The maps are finite -/

def allTypes : List (Option ServerType) :=
  [none,some .unknown,some .discover,some .access,some .unrecognized]

def allIds : List (BitVec 32) := (List.finRange (2 ^ 32)).map BitVec.ofFin

theorem allIds_nodup : allIds.Nodup :=
  (List.nodup_finRange _).map (fun _ _ h => congrArg BitVec.toFin h)

theorem mem_allIds (i : BitVec 32) : i ∈ allIds :=
  List.mem_map.mpr ⟨i.toFin,List.mem_finRange _,rfl⟩

theorem mem_allTypes (t : Option ServerType) : t ∈ allTypes := by
  rcases t with _ | t
  · decide
  · cases t <;> decide

theorem iteration_exists (s : Manger) : Nonempty (Iteration s) := by
  refine ⟨⟨allTypes.filter (fun t => (s.rpcClientMap t).isSome),
    fun t => allIds.filter (fun i => (s.client t i).isSome),?_,?_,?_,?_⟩⟩
  · exact List.Nodup.filter _ (by decide)
  · intro t
    simp [List.mem_filter,mem_allTypes]
  · intro t
    exact allIds_nodup.filter _
  · intro t i
    simp [List.mem_filter,mem_allIds]

/-! ### The walk over the index -/

theorem writeEach_eq (s : Manger) (request : Request) (cs : List ClientId) :
    writeEach s request cs =
      (cs.filterMap (fun c => (s.clients c).channel)).map (fun channel => (request,channel)) := by
  induction cs with
  | nil => rfl
  | cons c rest ih =>
    unfold writeEach
    cases hc : (s.clients c).channel with
    | none => simp [nonNull,hc,ih]
    | some channel => simp [nonNull,hc,ih]

def keysOf (sent : List (Request × Channel)) : List String :=
  sent.map (fun w => getChannelKey w.2)

theorem writeEach_keys (s : Manger) (request : Request) (ids : List (BitVec 32))
    (t : Option ServerType) : keysOf (writeEach s request (clientsOf s ids t)) =
      DoubleIndex.walk s.labels s.index (ids.map (fun i => (t,i))) := by
  unfold keysOf DoubleIndex.walk clientsOf
  rw [writeEach_eq,List.map_map,List.map_filterMap,List.filterMap_map]
  rfl

def Iteration.slots {s : Manger} (it : Iteration s) : List (Option ServerType × BitVec 32) :=
  it.types.flatMap (fun t => (it.ids t).map (fun i => (t,i)))

theorem Iteration.mem_slots {s : Manger} (it : Iteration s) {t : Option ServerType}
    {i : BitVec 32} (h : (s.client t i).isSome) : (t,i) ∈ it.slots := by
  have present : (s.rpcClientMap t).isSome := by
    unfold Manger.client at h
    cases hm : s.rpcClientMap t with
    | none =>
      rw [hm] at h
      cases h
    | some clientMap => rfl
  exact List.mem_flatMap.mpr ⟨t,(it.types_mem t).mpr present,
    List.mem_map.mpr ⟨i,(it.ids_mem t i).mpr h,rfl⟩⟩

theorem Iteration.slots_nodup {s : Manger} (it : Iteration s) : it.slots.Nodup := by
  unfold Iteration.slots
  rw [List.nodup_flatMap]
  constructor
  · intro t _
    exact (it.ids_nodup t).map (fun _ _ h => congrArg Prod.snd h)
  · apply it.types_nodup.imp
    intro t u ne p hp hq
    obtain ⟨i,_,rfl⟩ := List.mem_map.mp hp
    obtain ⟨j,_,eq⟩ := List.mem_map.mp hq
    exact ne (congrArg Prod.fst eq).symm

theorem broadcast_keys {s : Manger} (it : Iteration s) (request : Request) :
    keysOf (it.types.flatMap (fun t => writeEach s request (clientsOf s (it.ids t) t))) =
      DoubleIndex.walk s.labels s.index it.slots := by
  unfold Iteration.slots
  induction it.types with
  | nil => rfl
  | cons t rest ih =>
    have head := writeEach_keys s request (it.ids t) t
    unfold keysOf DoubleIndex.walk at *
    simp only [List.flatMap_cons,List.map_append,List.filterMap_append] at *
    rw [head,ih]

/-! ### The connections of a run -/

/-- What a step does to the connection of a client. -/
def connectionEvents (clients : ClientId → RpcBaseClient) :
    Action → List (KeyedLog.Event String ClientId)
  | .addClient c => ((clients c).channel.map (fun ch => .put (getChannelKey ch) c)).toList
  | .removeClient c => ((clients c).channel.map (fun ch => .remove (getChannelKey ch))).toList
  | .removeChannel channel => [.remove (getChannelKey channel)]
  | .request _ _ _ _ _ _ => []

def connectionLog (clients : ClientId → RpcBaseClient) (as : List Action) :
    List (KeyedLog.Event String ClientId) :=
  as.flatMap (connectionEvents clients)

/-- The client objects are those of the start, and the channel map holds what the log
    says. -/
structure Logged (clients : ClientId → RpcBaseClient) (as : List Action) (s : Manger) : Prop where
  clients_eq : s.clients = clients
  channels : s.rpcChannelClientMap = KeyedLog.current (connectionLog clients as)

theorem addClient_channels (s : Manger) (c : ClientId) :
    (s.addClient c).2.rpcChannelClientMap = (s.clients c).channel.elim s.rpcChannelClientMap
      (fun ch => Function.update s.rpcChannelClientMap (getChannelKey ch) (some c)) := by
  unfold Manger.addClient
  cases hc : (s.clients c).channel <;> simp [hc,Manger.setChannel]

theorem removeClient_channels (s : Manger) (c : ClientId) :
    (s.removeClient c).2.rpcChannelClientMap = (s.clients c).channel.elim s.rpcChannelClientMap
      (fun ch => Function.update s.rpcChannelClientMap (getChannelKey ch) none) := by
  unfold Manger.removeClient
  cases hc : (s.clients c).channel <;> simp [hc,Manger.setChannel]

theorem removeChannel_channels (s : Manger) (channel : Channel) :
    (s.removeChannel channel).2.rpcChannelClientMap =
      Function.update s.rpcChannelClientMap (getChannelKey channel) none := by
  unfold Manger.removeChannel
  cases s.rpcChannelClientMap (getChannelKey channel) <;> simp [Manger.setChannel]

theorem current_update (log : List (KeyedLog.Event String ClientId))
    (e : KeyedLog.Event String ClientId) :
    Function.update (KeyedLog.current log) e.key e.value = KeyedLog.current (log ++ [e]) := by
  funext k
  rw [KeyedLog.current_snoc,Function.update_apply]
  by_cases hk : k = e.key
  · rw [if_pos hk,if_pos hk.symm]
  · rw [if_neg hk,if_neg (fun h => hk h.symm)]

theorem Logged.step {clients : ClientId → RpcBaseClient} {as : List Action} {s t : Manger}
    {a : Action} (h : Logged clients as s) (keeps : KeepsCoherent s a)
    (hs : step s a = some t) : Logged clients (as ++ [a]) t := by
  have log : connectionLog clients (as ++ [a]) =
      connectionLog clients as ++ connectionEvents clients a := by simp [connectionLog]
  cases a with
  | addClient c =>
    simp only [RpcClientManger.step] at hs
    split_ifs at hs
    cases hs
    refine ⟨(s.addClient_clients c).trans h.clients_eq,?_⟩
    rw [addClient_channels,log,h.clients_eq,h.channels,connectionEvents]
    cases (clients c).channel with
    | none => simp
    | some ch => exact current_update _ (.put (getChannelKey ch) c)
  | removeClient c =>
    simp only [RpcClientManger.step] at hs
    split_ifs at hs
    cases hs
    refine ⟨(s.removeClient_clients c).trans h.clients_eq,?_⟩
    rw [removeClient_channels,log,h.clients_eq,h.channels,connectionEvents]
    cases (clients c).channel with
    | none => simp
    | some ch => exact current_update _ (.remove (getChannelKey ch))
  | removeChannel channel =>
    cases hs
    refine ⟨(s.removeChannel_clients channel).trans h.clients_eq,?_⟩
    rw [removeChannel_channels,log,h.channels]
    exact current_update _ (.remove (getChannelKey channel))
  | request env u i method msg needResponse =>
    cases hs
    rw [request_maps method msg needResponse keeps]
    refine ⟨(s.computeIfAbsent_clients u).trans h.clients_eq,?_⟩
    rw [Manger.computeIfAbsent_channels,log,h.channels,connectionEvents,List.append_nil]

theorem logged_run {clients : ClientId → RpcBaseClient} {fresh : ClientId} {as : List Action}
    {s : Manger} (h : Run (machine clients fresh) (start clients fresh) as s)
    (hg : Guarded (machine clients fresh) KeepsCoherent (start clients fresh) as) :
    s.Coherent ∧ Logged clients as s := by
  revert hg
  refine h.rec_last (P := fun as s =>
    Guarded (machine clients fresh) KeepsCoherent (start clients fresh) as →
      s.Coherent ∧ Logged clients as s) ?_ ?_
  · intro _
    exact ⟨start_coherent clients fresh,rfl,rfl⟩
  · intro as t a u run ih hs hg
    obtain ⟨coherent,logged⟩ := ih hg.left
    have keeps := (hg.right run).1
    exact ⟨(step_coherent_iff coherent hs).mpr keeps,logged.step keeps hs⟩

/-! ### Who is reached -/

/-- The request goes once to each channel whose key meets `P`, and to no other; it asks
    for no response. -/
structure ReachesOnce (sent : List (Request × Channel)) (request : Request)
    (P : String → Prop) : Prop where
  pushed : request.needResponse = false
  same : ∀ w ∈ sent, w.1 = request
  once : (keysOf sent).Nodup
  exact_keys : ∀ k, k ∈ keysOf sent ↔ P k

theorem generateRpcRequest_needResponse {info : ServerInfo} {now : Instant} {method : Utf8String}
    {msg : ByteString} {needResponse : Bool} {request : Request}
    (h : generateRpcRequest info now method msg needResponse = .ok request) :
    request.needResponse = needResponse := by
  obtain ⟨type,_,h⟩ := bind_eq_ok.mp h
  obtain ⟨svrType,_,h⟩ := bind_eq_ok.mp h
  obtain ⟨msgSeq,_,h⟩ := bind_eq_ok.mp h
  cases h
  rfl

theorem writeEach_request {s : Manger} {request : Request} {cs : List ClientId}
    {w : Request × Channel} (h : w ∈ writeEach s request cs) : w.1 = request := by
  rw [writeEach_eq] at h
  obtain ⟨_,_,rfl⟩ := List.mem_map.mp h
  rfl

section Reached
variable {clients : ClientId → RpcBaseClient} {as : List Action} {s : Manger} {info : ServerInfo}
  {now : Instant} {method : Utf8String} {msg : ByteString} {request : Request}

theorem broadcast_once (coherent : s.Coherent) (logged : Logged clients as s) (it : Iteration s)
    (hr : generateRpcRequest info now method msg false = .ok request) :
    ReachesOnce (broadcast info now s it method msg).sent request
      (fun k => (KeyedLog.current (connectionLog clients as) k).isSome) := by
  unfold broadcast
  rw [hr]
  refine ⟨generateRpcRequest_needResponse hr,?_,?_,?_⟩
  · intro w hw
    obtain ⟨t,_,hw⟩ := List.mem_flatMap.mp hw
    exact writeEach_request hw
  · rw [broadcast_keys]
    exact DoubleIndex.walk_nodup coherent it.slots_nodup
  · intro k
    rw [broadcast_keys,DoubleIndex.mem_walk coherent,←logged.channels]
    constructor
    · rintro ⟨c,hc,_⟩
      exact Option.isSome_iff_exists.mpr ⟨c,hc⟩
    · intro some
      obtain ⟨c,hc⟩ := Option.isSome_iff_exists.mp some
      have filed := coherent.slot_of_key hc
      exact ⟨c,hc,it.mem_slots (Option.isSome_iff_exists.mpr ⟨c,filed⟩)⟩

theorem broadcastByType_once (coherent : s.Coherent) (logged : Logged clients as s)
    (it : Iteration s) (serverType : Option ServerType)
    (hr : generateRpcRequest info now method msg false = .ok request) :
    ReachesOnce (broadcastByType info now s it serverType method msg).sent request
      (fun k => ∃ c, KeyedLog.current (connectionLog clients as) k = some c ∧
        (clients c).targetType = serverType) := by
  unfold broadcastByType
  rw [hr]
  refine ⟨generateRpcRequest_needResponse hr,fun w => writeEach_request,?_,?_⟩
  · rw [writeEach_keys]
    exact DoubleIndex.walk_nodup coherent
      ((it.ids_nodup serverType).map (fun _ _ h => congrArg Prod.snd h))
  · intro k
    rw [writeEach_keys,DoubleIndex.mem_walk coherent,←logged.channels,←logged.clients_eq]
    apply exists_congr
    intro c
    constructor
    · rintro ⟨hc,mem⟩
      obtain ⟨i,_,eq⟩ := List.mem_map.mp mem
      exact ⟨hc,(congrArg Prod.fst eq).symm⟩
    · rintro ⟨hc,rfl⟩
      have filed := coherent.slot_of_key hc
      have mem := (it.ids_mem _ _).mpr (Option.isSome_iff_exists.mpr ⟨c,filed⟩)
      exact ⟨hc,List.mem_map.mpr ⟨_,mem,rfl⟩⟩

end Reached

/-- After a run that keeps the registry coherent, a broadcast goes once to each connection
    whose last event added it, and one by type to those of them whose client has the type;
    the entries of the maps stay as they are. -/
theorem broadcasts_reach_current {clients : ClientId → RpcBaseClient} {fresh : ClientId}
    {as : List Action} {s : Manger}
    (h : Run (machine clients fresh) (start clients fresh) as s)
    (hg : Guarded (machine clients fresh) KeepsCoherent (start clients fresh) as)
    (it : Iteration s) {info : ServerInfo} {now : Instant} {method : Utf8String}
    {msg : ByteString} {request : Request}
    (hr : generateRpcRequest info now method msg false = .ok request) :
    ReachesOnce (broadcast info now s it method msg).sent request
        (fun k => (KeyedLog.current (connectionLog clients as) k).isSome) ∧
      (broadcast info now s it method msg).state = s ∧
      ∀ serverType,
        ReachesOnce (broadcastByType info now s it serverType method msg).sent request
          (fun k => ∃ c, KeyedLog.current (connectionLog clients as) k = some c ∧
            (clients c).targetType = serverType) ∧
        (broadcastByType info now s it serverType method msg).state.index = s.index := by
  obtain ⟨coherent,logged⟩ := logged_run h hg
  refine ⟨broadcast_once coherent logged it hr,?_,?_⟩
  · unfold broadcast
    rw [hr]
  · intro serverType
    refine ⟨broadcastByType_once coherent logged it serverType hr,?_⟩
    unfold broadcastByType
    rw [hr]
    exact s.computeIfAbsent_index serverType

def twoServers : ClientId → RpcBaseClient
  | 0 => ⟨some .access,1,none,0,some channelA⟩
  | _ => ⟨some .access,2,none,0,some channelB⟩

/-- Of two connections one goes inactive; whatever the order of the maps, the broadcast goes
    to the other. -/
theorem remaining_server_reached :
    let as : List Action := [.addClient 0,.addClient 1,.removeChannel channelA]
    ∃ s, Run (machine twoServers 2) (start twoServers 2) as s ∧ ∀ it : Iteration s,
      keysOf (broadcast ⟨some .access,0,3⟩ 6 s it Utf8String.empty ByteString.empty).sent =
        ["0b"] := by
  intro as
  have run : Run (machine twoServers 2) (start twoServers 2) as _ := run_endOf (by decide)
  refine ⟨_,run,fun it => ?_⟩
  have guarded : Guarded (machine twoServers 2) KeepsCoherent (start twoServers 2) as :=
    .cons rfl ⟨rfl,rfl⟩ (.cons rfl ⟨rfl,rfl⟩ (.cons rfl trivial trivial))
  have built : generateRpcRequest ⟨some .access,0,3⟩ 6 Utf8String.empty ByteString.empty false =
    .ok _ := rfl
  have reached := (broadcasts_reach_current run guarded it built).1
  have keys : ∀ k, k ∈ keysOf (broadcast ⟨some .access,0,3⟩ 6 _ it Utf8String.empty
      ByteString.empty).sent ↔ k ∈ ["0b"] := by
    intro k
    rw [reached.exact_keys k,List.mem_singleton]
    have log : connectionLog twoServers as =
      [] ++ [.put "0a" 0] ++ [.put "0b" 1] ++ [.remove "0a"] := rfl
    rw [log,KeyedLog.current_snoc,KeyedLog.current_snoc,KeyedLog.current_snoc]
    by_cases hb : "0b" = k
    · subst hb
      decide
    · by_cases ha : "0a" = k
      · subst ha
        decide
      · simp [KeyedLog.Event.key,KeyedLog.current,ha,hb,Ne.symm hb]
  exact List.perm_singleton.mp ((List.perm_ext_iff_of_nodup reached.once (by decide)).mpr keys)

end SeeU.RpcClientManger
