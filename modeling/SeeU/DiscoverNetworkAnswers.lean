import SeeU.DiscoverLinearizable
import SeeU.DiscoverNetwork

set_option autoImplicit false

/-!
# What a process learns from the discover server

Each non-null result of `DiscoverClient.getServiceInfo` is what one call of
`DiscoverHandler.getServiceInfo` has answered, and that call runs between the call of the
process and its return.
-/
namespace SeeU.DiscoverNetwork
open WireFormat DiscoverMsg DiscoverClient TransitionSystem RequestNetwork
open DiscoverConcurrent (InvocationId Outcome Undisturbed object answer_moment)
open RpcClientHandler (CallId ReadId)

section Answers
variable {P C : Type} {processes : P → Process} {owner : C → P} {w w0 : World P C}

/-! ### The request behind an answer -/

/-- What a state keeps of an earlier one. -/
structure Follows (w0 w : World P C) : Prop where
  calls : ∀ p call state, (w0.clients p).calls call = some state →
    ∃ state', (w.clients p).calls call = some state' ∧ state'.msg = state.msg
  server : Since w0.server w.server

/-- A request for which the server makes a query is that of a call. -/
theorem sent_query {c : C} {req : Request} {q : GetServiceInfoReq}
    (h : Sent processes owner w c req) (hd : dispatch req = some (.getServiceInfo q)) :
    ∃ call state, (w.clients (owner c)).calls call = some state ∧ state.msg = req := by
  cases h with
  | register hr =>
    obtain ⟨t,svrType,_,announced⟩ := register_dispatch hr
    rw [announced] at hd
    cases hd
  | unregister hr =>
    obtain ⟨t,svrType,_,announced⟩ := unregister_dispatch hr
    rw [announced] at hd
    cases hd
  | call hc => exact ⟨_,_,hc,rfl⟩

variable [DecidableEq C]

/-- The request of a call that has come into being since `w0` was not handled then. -/
theorem handled_since (h0 : Traffic processes owner w0) (h : Invariant processes owner w)
    (follows : Follows w0 w) {c : C} {call : CallId} {state : RpcClientHandler.Call}
    (new : (w0.clients (owner c)).calls call = none)
    (hc : (w.clients (owner c)).calls call = some state) {q : GetServiceInfoReq}
    (hd : dispatch state.msg = some (.getServiceInfo q)) {i : InvocationId}
    (source : w.server.source i = some (c,state.msg)) : w0.server.source i = none := by
  by_contra some
  obtain ⟨⟨d,req⟩,before⟩ := Option.ne_none_iff_exists'.mp some
  have same := follows.server.source i _ before
  rw [source] at same
  cases same
  obtain ⟨other,old,ho,msg⟩ := sent_query (h0.sources i c _ before) hd
  obtain ⟨old',ho',msg'⟩ := follows.calls _ _ _ ho
  have equal := (h.handlers (owner c)).distinct ho' hc (by rw [msg',msg])
  subst equal
  rw [new] at ho
  cases ho

/-- What the response `k`, which a call has returned, tells about the server. -/
theorem returned_outcome (h : Invariant processes owner w) {p : P} {call : CallId}
    {state : RpcClientHandler.Call} {k : ReadId} (hc : (w.clients p).calls call = some state)
    (ret : state.caller = .returned (some k)) {q : GetServiceInfoReq}
    (hd : dispatch state.msg = some (.getServiceInfo q)) :
    ∃ rd c i start finish resp, (w.clients p).reads k = some rd ∧ owner c = p ∧
      w.server.source i = some (c,state.msg) ∧ w.server.handler.invocations i =
        some ⟨.getServiceInfo q,start,.returned (.ok (some resp)) finish⟩ ∧
      start ≤ finish ∧ finish ≤ w.server.handler.history.length ∧
      Outcome w.server.handler start finish q (.ok (some resp)) ∧
      readServiceInfo (.ok (some rd.rsp)) = some resp := by
  have worker := (h.handlers p).result hc ret
  obtain ⟨rd,hk,seq,_⟩ := (h.handlers p).taken hc worker
  obtain ⟨c,b,parsed,rfl,received,hp,hr⟩ := h.reads p k rd hk
  have answered := h.answers c b (h.ordered.answers.arrived_sent received)
  obtain ⟨i,req,q',start,finish,resp,rsp,source,hd',hi,order,last,outcome,hp',seq',read⟩ :=
    answered.outcome h.loops
  rw [hp] at hp'
  cases hp'
  change rsp = rd.rsp at hr
  subst hr
  obtain ⟨other,state',hc',rfl⟩ := sent_query (h.sources i c req source) hd'
  have same : other = call := (h.handlers (owner c)).distinct hc' hc (by rw [←seq',←seq])
  subst same
  rw [hc] at hc'
  cases hc'
  rw [hd] at hd'
  cases hd'
  exact ⟨rd,c,i,start,finish,resp,hk,rfl,source,hi,order,last,outcome,read⟩

/-! ### From a call on -/

variable [DecidableEq P]

theorem follows_run {as : List (Action P C)} (h0 : Traffic processes owner w0)
    (h : Run (machine processes owner) w0 as w) : Follows w0 w := by
  have both : Traffic processes owner w ∧ Follows w0 w := by
    refine h.invariant (I := fun w => Traffic processes owner w ∧ Follows w0 w) ?_
      ⟨h0,fun _ _ state hc => ⟨state,hc,rfl⟩,since_refl h0.loops⟩
    rintro s a t ⟨traffic,follows⟩ hs
    obtain ⟨client,e,moves⟩ := step_moves traffic.loops hs
    have since : Since w0.server t.server :=
      moves.keeps follows.server (fun _ turn => follows.server.turn traffic.loops turn)
    refine ⟨traffic.step hs,?_,since⟩
    intro p call state hc
    obtain ⟨state',hw,msg⟩ := follows.calls p call state hc
    obtain ⟨state'',ht,msg'⟩ := moves.call hw
    exact ⟨state'',ht,msg'.trans msg⟩
  exact both.2

/-- A call that was not there before is there with its message after the step. -/
theorem submitted {c : C} {call : CallId} {now : Instant} {serverType : Option ServerType}
    {serverId : BitVec 32} {msg : Request}
    (hm : getServiceInfoMsg (processes (owner c)).serverInfo now serverType serverId = .ok msg)
    (hs : step processes owner w0 (.getServiceInfo c call now serverType serverId) = some w) :
    (w0.clients (owner c)).calls call = none ∧
      (w.clients (owner c)).calls call = some ⟨msg,.queued,.waiting⟩ := by
  obtain ⟨q,query⟩ := getServiceInfoMsg_query hm
  obtain ⟨msgSeq,rfl⟩ := query.msg_eq
  simp only [step,hm] at hs
  obtain ⟨s,hw,rfl⟩ := Option.map_eq_some_iff.mp hs
  cases RpcClientHandler.step_cases hw with
  | push need => cases need
  | submit _ new =>
    refine ⟨new,?_⟩
    simp [World.setClient,World.setCaptured,RpcClientHandler.State.setCall]

end Answers

/-! ### Linearizability -/

/-- How `getServiceInfo` has ended for the thread that called it, if it has: a timeout and
    an exception give null. -/
def lookupResult (s : RpcClientHandler.State) (call : CallId) :
    Option (Option GetServiceInfoResp) :=
  (s.calls call).bind (fun state =>
    match state.caller with
    | .returned k =>
      some (readServiceInfo (.ok ((k.bind s.reads).map RpcClientHandler.Read.rsp)))
    | .expired => some none
    | .threw => some (readServiceInfo (.error .nullPointer))
    | .waiting | .timedOut | .notified => none)

theorem lookupResult_eq_some {s : RpcClientHandler.State} {call : CallId}
    {resp : GetServiceInfoResp} (h : lookupResult s call = some (some resp)) :
    ∃ state k rd, s.calls call = some state ∧ state.caller = .returned (some k) ∧
      s.reads k = some rd ∧ readServiceInfo (.ok (some rd.rsp)) = some resp := by
  obtain ⟨state,hc,h⟩ := Option.bind_eq_some_iff.mp h
  cases hr : state.caller with
  | returned k =>
    rw [hr] at h
    dsimp only at h
    cases hk : k.bind s.reads with
    | none =>
      rw [hk] at h
      cases h
    | some rd =>
      rw [hk] at h
      obtain ⟨k,rfl,hk⟩ := Option.bind_eq_some_iff.mp hk
      exact ⟨state,k,rd,hc,hr,hk,Option.some.inj h⟩
  | _ =>
    rw [hr] at h
    cases h

section Linearizable
variable {P C : Type} [DecidableEq P] [DecidableEq C] {processes : P → Process} {owner : C → P}
  {w w0 : World P C}

end Linearizable

def twoProcesses : Bool → Process
  | true => ⟨⟨some .access,0,3⟩,DiscoverHandler.accessOne.host,9000,12⟩
  | false => ⟨⟨some .access,0,4⟩,DiscoverHandler.accessOne.host,9001,12⟩

abbrev localMachine : Machine (World Bool Bool) (Action Bool Bool) := machine twoProcesses id

/-- One process registers. -/
def registerRun : List (Action Bool Bool) :=
  [.clientActive true 5,.serverRead true 0,.serverAccess (.getMap 0),.serverAccess (.access 0),
    .serverWrite true]

/-- The other looks it up, and is answered while it is destroyed. -/
def lookupRun : List (Action Bool Bool) :=
  registerRun ++ .getServiceInfo false 0 6 (some .access) 3 ::
    [.handler false (.start 0),.writeAndFlush false 0,.destroy true 6,.serverRead false 1,
      .serverAccess (.getMap 1),.serverRead true 2,.serverAccess (.getMap 2),
      .serverAccess (.access 1),.serverAccess (.access 2),.serverWrite true,.serverWrite false,
      .handler false (.synced 0),.handler false (.putThreadObject 0),
      .handler false (.enterWait 0),.clientRead false 0,.handler false (.putResponse 0),
      .handler false (.removeThreadObject 0),.handler false (.notify 0),
      .handler false (.getResponse 0),.handler false (.futureGet 0)]

theorem lookupRun_fresh :
    Guarded localMachine (FreshSeq twoProcesses id) localMachine.init lookupRun := by
  have run0 : Run localMachine localMachine.init registerRun _ := run_endOf (by decide +kernel)
  refine Guarded.append (.of_forall (by simp [registerRun,FreshSeq]) _) run0 ⟨?_,fun t _ => ?_⟩
  · intro msg _ _ d call hc
    cases hc
  · exact .of_forall (by simp [FreshSeq]) t

def localAddress : GetServiceInfoResp := ⟨2,3,DiscoverHandler.accessOne.host,9000⟩

end SeeU.DiscoverNetwork
