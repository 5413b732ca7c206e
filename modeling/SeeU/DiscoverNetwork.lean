import SeeU.DiscoverEventOrder
import SeeU.RpcClientHandlerInvariant

set_option autoImplicit false

/-!
# Processes that share the discover server

Each process sends the requests of its `DiscoverClient` over its connections. A read
returns the bytes of one message, the event loops of the server call its one handler at the
same time, and a connection can be lost with everything that is on it.
-/
namespace SeeU.DiscoverNetwork
open WireFormat DiscoverMsg DiscoverClient TransitionSystem RequestNetwork
open DiscoverConcurrent (InvocationId)
open RpcClientHandler (CallId ReadId)

/-! ### The machine -/

structure World (P C : Type) where
  clients : P → RpcClientHandler.State
  /-- The channel that a submitted call has captured, until its worker has written to it. -/
  captured : P → CallId → Option C
  net : Net C Bytes Bytes
  server : EventLoops C

/-- `clientActive` and `destroy` write on a connection; `writeAndFlush` is the write of the
    worker of a call, and `handler` any other step of the parties of a handler. The steps of
    the server are those of its event loops. -/
inductive Action (P C : Type) where
  | clientActive (c : C) (now : Instant)
  | destroy (c : C) (now : Instant)
  | getServiceInfo (c : C) (call : CallId) (now : Instant) (serverType : Option ServerType)
      (serverId : BitVec 32)
  | writeAndFlush (c : C) (call : CallId)
  | handler (p : P) (a : RpcClientHandler.Action)
  | serverRead (c : C) (i : InvocationId)
  | serverAccess (a : DiscoverConcurrent.Action)
  | serverWrite (c : C)
  | clientRead (c : C) (k : ReadId)
  | lose (c : C)

/-! ### The handlers of the processes -/

section Handlers
variable {P : Type}

/-- A handler stays or takes one step. -/
def Moved (s : RpcClientHandler.State) (a : Option RpcClientHandler.Action)
    (t : RpcClientHandler.State) : Prop :=
  match a with
  | none => t = s
  | some a => RpcClientHandler.step s a = some t

def noClient : P → Option RpcClientHandler.Action := fun _ => none

variable [DecidableEq P]

def oneClient (p : P) (a : RpcClientHandler.Action) : P → Option RpcClientHandler.Action :=
  Function.update noClient p (some a)

theorem oneClient_eq_some {p q : P} {a b : RpcClientHandler.Action}
    (h : oneClient p a q = some b) : q = p ∧ b = a := by
  unfold oneClient noClient at h
  rw [Function.update_apply] at h
  split_ifs at h with same
  exact ⟨same,(Option.some.inj h).symm⟩

theorem moved_oneClient {clients : P → RpcClientHandler.State} {p : P}
    {a : RpcClientHandler.Action} {s : RpcClientHandler.State}
    (h : RpcClientHandler.step (clients p) a = some s) (q : P) :
    Moved (clients q) (oneClient p a q) (Function.update clients p s q) := by
  unfold oneClient noClient
  by_cases hq : q = p
  · subst hq
    rw [Function.update_self,Function.update_self]
    exact h
  · rw [Function.update_of_ne hq,Function.update_of_ne hq]
    rfl

end Handlers

/-! ### The steps -/

section Machine
variable {P C : Type} [DecidableEq P] [DecidableEq C] (processes : P → Process) (owner : C → P)

namespace World

def setClient (w : World P C) (p : P) (s : RpcClientHandler.State) : World P C :=
  { w with clients := Function.update w.clients p s }

def setCaptured (w : World P C) (p : P) (call : CallId) (c : Option C) : World P C :=
  { w with captured := Function.update w.captured p (Function.update (w.captured p) call c) }

def push (w : World P C) (c : C) (msg : Option Request) : World P C :=
  match msg with
  | none => w
  | some msg => { w with net := w.net.write c msg.toByteArray }

def reply (w : World P C) (c : C) (answer : Option Bytes) : World P C :=
  match answer with
  | none => w
  | some b => { w with net := w.net.reply c b }

/-- A worker waits for its write before `sync` returns. -/
def internal (w : World P C) (p : P) : RpcClientHandler.Action → Bool
  | .write _ _ | .channelRead _ _ => false
  | .synced call => (w.captured p call).isNone
  | _ => true

end World

/-- On a connection that is lost the write of a worker fails, and so does its `sync`. -/
def step (w : World P C) : Action P C → Option (World P C)
  | .clientActive c now => some (w.push c ((processes (owner c)).registerMsg now))
  | .destroy c now => some (w.push c ((processes (owner c)).unregisterMsg now))
  | .getServiceInfo c call now serverType serverId =>
    match getServiceInfoMsg (processes (owner c)).serverInfo now serverType serverId with
    | .error _ => some w
    | .ok msg =>
      (RpcClientHandler.step (w.clients (owner c)) (.write call msg)).map (fun s =>
        (w.setClient (owner c) s).setCaptured (owner c) call (some c))
  | .writeAndFlush c call =>
    ((w.clients (owner c)).calls call).bind (fun state =>
      if state.worker = .sending ∧ w.captured (owner c) call = some c ∧ w.net.lost c = false then
        some ((w.setCaptured (owner c) call none).push c (some state.msg))
      else none)
  | .handler p a =>
    if w.internal p a then (RpcClientHandler.step (w.clients p) a).map (w.setClient p) else none
  | .serverRead c i =>
    (w.net.take c).bind (fun taken => (w.server.read c i taken.1).map (fun server =>
      { w with net := taken.2, server := server }))
  | .serverAccess a => (w.server.access a).map (fun server => { w with server := server })
  | .serverWrite c =>
    (w.server.write c).map (fun written =>
      World.reply { w with server := written.2 } c written.1)
  | .clientRead c k =>
    (w.net.receive c).bind (fun received =>
      match Response.schema.parseFrom received.1 with
      | none => some { w with net := received.2 }
      | some rsp =>
        (RpcClientHandler.step (w.clients (owner c)) (.channelRead k rsp.message)).map (fun s =>
          { w.setClient (owner c) s with net := received.2 }))
  | .lose c => some { w with net := w.net.lose c }

def init : World P C :=
  ⟨fun p => RpcClientHandler.init (processes p).threads,fun _ _ => none,RequestNetwork.start,
    EventLoops.start⟩

def machine : Machine (World P C) (Action P C) := ⟨init processes,step processes owner⟩

end Machine

/-! ### What a step can do -/

section Runs
variable {P C : Type} (processes : P → Process) (owner : C → P)

/-- Where a request comes from that is sent on a connection. -/
inductive Sent (w : World P C) (c : C) : Request → Prop where
  | register {now : Instant} {msg : Request}
      (h : (processes (owner c)).registerMsg now = some msg) : Sent w c msg
  | unregister {now : Instant} {msg : Request}
      (h : (processes (owner c)).unregisterMsg now = some msg) : Sent w c msg
  | call {call : CallId} {state : RpcClientHandler.Call}
      (h : (w.clients (owner c)).calls call = some state) : Sent w c state.msg

/-- A response that a process was handed. -/
def Received (net : Net C Bytes Bytes) (p : P) (rsp : Response) : Prop :=
  ∃ c b parsed, owner c = p ∧ (c,b) ∈ net.answers.arrived ∧
    Response.schema.parseFrom b = some parsed ∧ parsed.message = rsp

theorem Received.mono {owner} {n m : Net C Bytes Bytes} {p : P} {rsp : Response}
    (h : Received owner n p rsp) (more : ∀ x ∈ n.answers.arrived, x ∈ m.answers.arrived) :
    Received owner m p rsp := by
  obtain ⟨c,b,parsed,hc,hb,hp,hr⟩ := h
  exact ⟨c,b,parsed,hc,more _ hb,hp,hr⟩

/-- The event loops stay or have one event. -/
def Turned [DecidableEq C] (s : EventLoops C) (e : Option (Event C)) (t : EventLoops C) : Prop :=
  match e with
  | none => t = s
  | some e => Turn s e t

variable [DecidableEq C]

/-- What a step does to the connections. -/
structure Carries (w : World P C) (t : World P C) (e : Option (Event C)) : Prop where
  ordered : Ordered w.net → Ordered t.net
  sent : ∀ c b, (c,b) ∈ t.net.requests.sent → (c,b) ∈ w.net.requests.sent ∨
    ∃ msg, b = msg.toByteArray ∧ Sent processes owner w c msg
  answers : ∀ c b, (c,b) ∈ t.net.answers.sent → (c,b) ∈ w.net.answers.sent ∨
    Answered w.server c b
  arrived : ∀ x ∈ w.net.answers.arrived, x ∈ t.net.answers.arrived
  taken : t.net.requests.arrived = w.net.requests.arrived ++ e.elim [] Event.taken
  input : ∀ c buf, e = some (.read c buf) → buf ∈ w.net.requests.pending c

/-- What a step does, where `client` names the steps of the handlers and `e` that of the
    event loops. -/
structure Moves (w : World P C) (a : Action P C) (t : World P C)
    (client : P → Option RpcClientHandler.Action) (e : Option (Event C)) : Prop
    extends Carries processes owner w t e where
  moved : ∀ p, Moved (w.clients p) (client p) (t.clients p)
  write : ∀ p call msg, client p = some (.write call msg) → ∃ c now serverType serverId,
    a = .getServiceInfo c call now serverType serverId ∧ owner c = p ∧
    getServiceInfoMsg (processes p).serverInfo now serverType serverId = .ok msg
  read : ∀ p k rsp, client p = some (.channelRead k rsp) → Received owner t.net p rsp
  server : Turned w.server e t.server

section Moves
variable {processes owner} {w t : World P C}

theorem carries_same (net : t.net = w.net) : Carries processes owner w t none := by
  refine ⟨?_,?_,?_,?_,?_,nofun⟩
  all_goals rw [net]
  · exact id
  · exact fun _ _ => .inl
  · exact fun _ _ => .inl
  · exact fun _ => id
  · exact (List.append_nil _).symm

/-- A step of the network other than `take`. -/
theorem carries_net (action : RequestNetwork.Action C Bytes Bytes)
    (h : RequestNetwork.step w.net action = some t.net) {e : Option (Event C)}
    (quiet : e.elim [] Event.taken = []) (other : ∀ c, action ≠ .take c)
    (sent : ∀ c b, action = .write c b → ∃ msg, b = msg.toByteArray ∧ Sent processes owner w c msg)
    (answers : ∀ c b, action = .reply c b → Answered w.server c b) :
    Carries processes owner w t e := by
  have gains := gains_step h
  refine ⟨fun ordered => ordered.step h,fun c b hb => ?_,fun c b hb => ?_,gains.received,?_,?_⟩
  · exact (gains.written c b hb).imp_right (sent c b)
  · exact (gains.replied c b hb).imp_right (answers c b)
  · rw [gains.taken other,quiet,List.append_nil]
  · rintro c buf rfl
    cases quiet

theorem carries_push {u : World P C} (net : u.net = w.net) {c : C} {msg : Option Request}
    (sent : ∀ m, msg = some m → Sent processes owner w c m) :
    Carries processes owner w (u.push c msg) none := by
  cases msg with
  | none => exact carries_same net
  | some m =>
    refine carries_net (.write c m.toByteArray) ?_ rfl nofun ?_ nofun
    · rw [←net]
      rfl
    · intro d b eq
      cases eq
      exact ⟨m,rfl,sent m rfl⟩

theorem carries_reply {u : World P C} (net : u.net = w.net) {c : C} {answer : Option Bytes}
    (answered : ∀ b, answer = some b → Answered w.server c b) :
    Carries processes owner w (u.reply c answer) (some (.write c answer)) := by
  cases answer with
  | none =>
    have same : Carries processes owner w u none := carries_same net
    exact { same with input := nofun }
  | some b =>
    refine carries_net (.reply c b) ?_ rfl nofun nofun ?_
    · rw [←net]
      rfl
    · intro d b' eq
      cases eq
      exact answered b rfl

/-- The server takes the first request of a connection. -/
theorem carries_take {c : C} {buf : Bytes} (h : w.net.take c = some (buf,t.net)) :
    Carries processes owner w t (some (.read c buf)) := by
  have taken : RequestNetwork.step w.net (.take c) = some t.net := by
    rw [RequestNetwork.step,h]
    rfl
  have gains := gains_step taken
  obtain ⟨requests,ha,net⟩ := take_eq_some h
  obtain ⟨rest,hp,rfl⟩ := arrive_eq_some ha
  refine ⟨fun ordered => ordered.step taken,fun d b hb => ?_,fun d b hb => ?_,gains.received,?_,?_⟩
  · exact (gains.written d b hb).imp_right nofun
  · exact (gains.replied d b hb).imp_right nofun
  · rw [net]
    rfl
  · intro d buf' eq
    cases eq
    rw [hp]
    exact List.mem_cons_self ..

/-- A step that moves no handler. -/
theorem Carries.moves {a : Action P C} {e : Option (Event C)}
    (h : Carries processes owner w t e) (clients : t.clients = w.clients)
    (server : Turned w.server e t.server) : Moves processes owner w a t noClient e := by
  refine { h with moved := fun p => ?_, write := nofun, read := nofun, server := server }
  rw [clients]
  rfl

@[simp] theorem push_clients (w : World P C) (c : C) (msg : Option Request) :
    (w.push c msg).clients = w.clients := by
  cases msg <;> rfl

@[simp] theorem push_server (w : World P C) (c : C) (msg : Option Request) :
    (w.push c msg).server = w.server := by
  cases msg <;> rfl

@[simp] theorem reply_clients (w : World P C) (c : C) (answer : Option Bytes) :
    (w.reply c answer).clients = w.clients := by
  cases answer <;> rfl

@[simp] theorem reply_server (w : World P C) (c : C) (answer : Option Bytes) :
    (w.reply c answer).server = w.server := by
  cases answer <;> rfl

theorem step_moves [DecidableEq P] (hi : w.server.Inv) {a : Action P C}
    (h : step processes owner w a = some t) : ∃ client e, Moves processes owner w a t client e := by
  cases a with
  | clientActive c now =>
    cases h
    exact ⟨noClient,none,(carries_push rfl (fun m => .register)).moves (by simp)
      (push_server ..)⟩
  | destroy c now =>
    cases h
    exact ⟨noClient,none,(carries_push rfl (fun m => .unregister)).moves (by simp)
      (push_server ..)⟩
  | getServiceInfo c call now serverType serverId =>
    simp only [step] at h
    cases hm : getServiceInfoMsg (processes (owner c)).serverInfo now serverType serverId with
    | error e =>
      rw [hm] at h
      cases h
      exact ⟨noClient,none,(carries_same rfl).moves rfl rfl⟩
    | ok msg =>
      rw [hm] at h
      obtain ⟨s,hs,rfl⟩ := Option.map_eq_some_iff.mp h
      refine ⟨oneClient (owner c) (.write call msg),none,carries_same rfl,moved_oneClient hs,?_,?_,
        rfl⟩
      · intro p call' msg' hp
        obtain ⟨rfl,eq⟩ := oneClient_eq_some hp
        cases eq
        exact ⟨c,now,serverType,serverId,rfl,rfl,hm⟩
      · intro p k rsp hp
        cases (oneClient_eq_some hp).2
  | writeAndFlush c call =>
    obtain ⟨state,hc,h⟩ := Option.bind_eq_some_iff.mp h
    split_ifs at h with ready
    cases h
    refine ⟨noClient,none,Carries.moves (carries_push ?_ ?_) ?_ ?_⟩
    · rfl
    · intro m eq
      cases eq
      exact .call hc
    · exact push_clients ..
    · exact push_server ..
  | handler p a =>
    simp only [step] at h
    split_ifs at h with inner
    obtain ⟨s,hs,rfl⟩ := Option.map_eq_some_iff.mp h
    refine ⟨oneClient p a,none,carries_same rfl,moved_oneClient hs,?_,?_,rfl⟩
    · intro q call msg hq
      obtain ⟨rfl,rfl⟩ := oneClient_eq_some hq
      cases inner
    · intro q k rsp hq
      obtain ⟨rfl,rfl⟩ := oneClient_eq_some hq
      cases inner
  | serverRead c i =>
    obtain ⟨⟨buf,net⟩,hn,h⟩ := Option.bind_eq_some_iff.mp h
    obtain ⟨server,hs,rfl⟩ := Option.map_eq_some_iff.mp h
    exact ⟨noClient,some (.read c buf),(carries_take hn).moves rfl (read_turn hs)⟩
  | serverAccess a =>
    obtain ⟨server,hs,rfl⟩ := Option.map_eq_some_iff.mp h
    have carries : Carries processes owner w { w with server := server } (some .access) :=
      { carries_same rfl with input := nofun }
    exact ⟨noClient,some .access,carries.moves rfl (access_turn hi.handler hs)⟩
  | serverWrite c =>
    obtain ⟨⟨answer,server⟩,hs,rfl⟩ := Option.map_eq_some_iff.mp h
    have turn := write_turn hs
    refine ⟨noClient,some (.write c answer),Carries.moves (carries_reply ?_ ?_) ?_ ?_⟩
    · rfl
    · rintro b rfl
      exact write_answered hi turn
    · exact reply_clients ..
    · rw [Turned,reply_server]
      exact turn
  | clientRead c k =>
    obtain ⟨⟨b,net⟩,hn,h⟩ := Option.bind_eq_some_iff.mp h
    have received : RequestNetwork.step w.net (.receive c) = some net := by
      rw [RequestNetwork.step,hn]
      rfl
    dsimp only at h
    cases hp : Response.schema.parseFrom b with
    | none =>
      rw [hp] at h
      cases h
      exact ⟨noClient,none,(carries_net (.receive c) received rfl nofun nofun nofun).moves rfl rfl⟩
    | some parsed =>
      rw [hp] at h
      obtain ⟨s,hs,rfl⟩ := Option.map_eq_some_iff.mp h
      refine ⟨oneClient (owner c) (.channelRead k parsed.message),none,
        carries_net (.receive c) received rfl nofun nofun nofun,moved_oneClient hs,?_,?_,rfl⟩
      · intro p call msg hq
        cases (oneClient_eq_some hq).2
      · intro p k' rsp hq
        obtain ⟨rfl,eq⟩ := oneClient_eq_some hq
        cases eq
        obtain ⟨answers,ha,rfl⟩ := receive_eq_some hn
        obtain ⟨rest,_,rfl⟩ := arrive_eq_some ha
        exact ⟨c,b,parsed,rfl,List.mem_append_right _ (List.mem_singleton_self _),hp,rfl⟩
  | lose c =>
    cases h
    exact ⟨noClient,none,(carries_net (.lose c) rfl rfl nofun nofun nofun).moves rfl rfl⟩

end Moves

/-! ### What every run keeps -/

/-- The sequence numbers of the `getServiceInfo` calls of one process are distinct. -/
def FreshSeq (w : World P C) : Action P C → Prop
  | .getServiceInfo c call now serverType serverId => ∀ msg,
      getServiceInfoMsg (processes (owner c)).serverInfo now serverType serverId = .ok msg →
        RpcClientHandler.FreshSeq (w.clients (owner c)) (.write call msg)
  | _ => True

/-- The calls are queries, the requests come from the calls and announcements, and the
    responses from calls of the handler that have returned. -/
structure Traffic (w : World P C) : Prop where
  loops : w.server.Inv
  ordered : Ordered w.net
  inOrder : InOrder w.server w.net.requests.arrived
  asked : ∀ p call state, (w.clients p).calls call = some state → ∃ now serverType serverId,
    getServiceInfoMsg (processes p).serverInfo now serverType serverId = .ok state.msg
  sent : ∀ c b, (c,b) ∈ w.net.requests.sent → ∃ msg, b = msg.toByteArray ∧
    Sent processes owner w c msg
  sources : ∀ i c req, w.server.source i = some (c,req) → Sent processes owner w c req
  answers : ∀ c b, (c,b) ∈ w.net.answers.sent → Answered w.server c b
  reads : ∀ p k rd, (w.clients p).reads k = some rd → Received owner w.net p rd.rsp

structure Invariant (w : World P C) : Prop extends Traffic processes owner w where
  handlers : ∀ p, RpcClientHandler.Inv (w.clients p)

section Invariant
variable {processes owner} {w t : World P C} {a : Action P C}
  {client : P → Option RpcClientHandler.Action} {e : Option (Event C)}

/-- The handler of a process stays, or makes the step that is named for it. -/
theorem Moves.client_cases (h : Moves processes owner w a t client e) (p : P) :
    t.clients p = w.clients p ∨ ∃ b, client p = some b ∧
      RpcClientHandler.Step (w.clients p) b (t.clients p) := by
  have moved := h.moved p
  cases hp : client p with
  | none =>
    rw [hp] at moved
    exact .inl moved
  | some b =>
    rw [hp] at moved
    exact .inr ⟨b,rfl,RpcClientHandler.step_cases moved⟩

theorem Moves.freshSeq (h : Moves processes owner w a t client e)
    (fresh : FreshSeq processes owner w a) {p : P} {b : RpcClientHandler.Action}
    (hp : client p = some b) : RpcClientHandler.FreshSeq (w.clients p) b := by
  cases b with
  | write call msg =>
    obtain ⟨c,now,serverType,serverId,rfl,rfl,hm⟩ := h.write p call msg hp
    exact fresh msg hm
  | _ => trivial

theorem Moves.handler (h : Moves processes owner w a t client e)
    (fresh : FreshSeq processes owner w a) (hi : ∀ p, RpcClientHandler.Inv (w.clients p)) (p : P) :
    RpcClientHandler.Inv (t.clients p) := by
  rcases h.client_cases p with same | ⟨b,hp,step⟩
  · rw [same]
    exact hi p
  · exact RpcClientHandler.inv_step (hi p) (h.freshSeq fresh hp) step

/-- A call keeps its message. -/
theorem Moves.call (h : Moves processes owner w a t client e) {p : P} {call : CallId}
    {state : RpcClientHandler.Call} (hc : (w.clients p).calls call = some state) :
    ∃ state', (t.clients p).calls call = some state' ∧ state'.msg = state.msg := by
  rcases h.client_cases p with same | ⟨b,_,step⟩
  · rw [same]
    exact ⟨state,hc,rfl⟩
  · obtain ⟨state',ht,move⟩ := step.call hc
    exact ⟨state',ht,move.msg_eq⟩

/-- A call was there with its message, or is that of the step. -/
theorem Moves.call_back (h : Moves processes owner w a t client e) {p : P} {call : CallId}
    {state : RpcClientHandler.Call} (hc : (t.clients p).calls call = some state) :
    (∃ old, (w.clients p).calls call = some old ∧ old.msg = state.msg) ∨
      ∃ c now serverType serverId, a = .getServiceInfo c call now serverType serverId ∧
        owner c = p ∧
        getServiceInfoMsg (processes p).serverInfo now serverType serverId = .ok state.msg := by
  rcases h.client_cases p with same | ⟨b,hp,step⟩
  · rw [same] at hc
    exact .inl ⟨state,hc,rfl⟩
  · rcases step.call_back hc with ⟨old,ho,move⟩ | ⟨_,msg,rfl,_,rfl⟩
    · exact .inl ⟨old,ho,move.msg_eq.symm⟩
    · obtain ⟨c,now,serverType,serverId,ha,hc,hm⟩ := h.write p call msg hp
      exact .inr ⟨c,now,serverType,serverId,ha,hc,hm⟩

theorem Moves.read_back (h : Moves processes owner w a t client e) {p : P} {k : ReadId}
    {rd : RpcClientHandler.Read} (hk : (t.clients p).reads k = some rd) :
    (∃ old, (w.clients p).reads k = some old ∧ old.rsp = rd.rsp) ∨
      Received owner t.net p rd.rsp := by
  rcases h.client_cases p with same | ⟨b,hp,step⟩
  · rw [same] at hk
    exact .inl ⟨rd,hk,rfl⟩
  · rcases step.read_back hk with ⟨old,ho,move⟩ | ⟨_,rsp,rfl,rfl⟩
    · exact .inl ⟨old,ho,move.rsp_eq.symm⟩
    · exact .inr (h.read p k rsp hp)

theorem Moves.sent_mono (h : Moves processes owner w a t client e) {c : C} {msg : Request}
    (hs : Sent processes owner w c msg) : Sent processes owner t c msg := by
  cases hs with
  | register hm => exact .register hm
  | unregister hm => exact .unregister hm
  | call hc =>
    obtain ⟨state,ht,msg⟩ := h.call hc
    rw [←msg]
    exact .call ht

/-- What each event of the event loops keeps, a step keeps. -/
theorem Moves.keeps {K : EventLoops C → Prop} (h : Moves processes owner w a t client e)
    (hk : K w.server) (keeps : ∀ e, Turn w.server e t.server → K t.server) : K t.server := by
  have turned := h.server
  cases e with
  | none =>
    rw [show t.server = w.server from turned]
    exact hk
  | some e => exact keeps e turned

theorem Moves.inOrder (h : Moves processes owner w a t client e) (hi : w.server.Inv)
    (ho : InOrder w.server w.net.requests.arrived) : InOrder t.server t.net.requests.arrived := by
  have turned := h.server
  rw [h.taken]
  cases e with
  | none =>
    rw [show t.server = w.server from turned,Option.elim_none,List.append_nil]
    exact ho
  | some e => exact Turn.inOrder hi turned ho

/-- The request of a new call was sent on the connection that it is read from. -/
theorem Moves.source_back (h : Moves processes owner w a t client e)
    (traffic : Traffic processes owner w) {i : InvocationId} {c : C} {req : Request}
    (hs : t.server.source i = some (c,req)) : Sent processes owner w c req := by
  have turned := h.server
  cases e with
  | none =>
    rw [show t.server = w.server from turned] at hs
    exact traffic.sources i c req hs
  | some e =>
    rcases Turn.source_back turned hs with old | ⟨d,buf,req',operation,rfl,hb,eq⟩
    · exact traffic.sources i c req old
    · cases eq
      have sent := traffic.ordered.requests.pending_sent (h.input c buf rfl)
      obtain ⟨msg,rfl,hm⟩ := traffic.sent c buf sent
      rw [received_encoded] at hb
      obtain ⟨_,_,eq⟩ := Option.map_eq_some_iff.mp hb
      cases eq
      exact hm

theorem Traffic.step [DecidableEq P] (h : Traffic processes owner w)
    (hs : step processes owner w a = some t) : Traffic processes owner t := by
  obtain ⟨client,e,moves⟩ := step_moves h.loops hs
  refine ⟨moves.keeps h.loops (fun _ turn => turn.inv h.loops),moves.ordered h.ordered,
    moves.inOrder h.loops h.inOrder,?_,?_,?_,?_,?_⟩
  · intro p call state hc
    rcases moves.call_back hc with ⟨old,ho,msg⟩ | ⟨_,now,serverType,serverId,_,_,hm⟩
    · rw [←msg]
      exact h.asked p call old ho
    · exact ⟨now,serverType,serverId,hm⟩
  · intro c b hb
    have before : ∃ msg, b = msg.toByteArray ∧ Sent processes owner w c msg :=
      (moves.sent c b hb).elim (h.sent c b) id
    obtain ⟨msg,eq,hm⟩ := before
    exact ⟨msg,eq,moves.sent_mono hm⟩
  · intro i c req hi
    exact moves.sent_mono (moves.source_back h hi)
  · intro c b hb
    have before : Answered w.server c b := (moves.answers c b hb).elim (h.answers c b) id
    exact moves.keeps (K := fun s => Answered s c b) before
      (fun _ turn => before.turn h.loops turn)
  · intro p k rd hk
    rcases moves.read_back hk with ⟨old,ho,rsp⟩ | new
    · rw [←rsp]
      exact (h.reads p k old ho).mono moves.arrived
    · exact new

theorem traffic_init : Traffic processes owner (init (C := C) processes) where
  loops := loops_start
  ordered := ordered_start
  inOrder := inOrder_start
  asked _ _ _ hc := by cases hc
  sent _ _ hb := by cases hb
  sources _ _ _ hs := by cases hs
  answers _ _ hb := by cases hb
  reads _ _ _ hk := by cases hk

theorem traffic_run [DecidableEq P] {as : List (Action P C)}
    (h : Run (machine processes owner) (init processes) as w) : Traffic processes owner w :=
  h.invariant (fun _ _ _ hi hs => hi.step hs) traffic_init

theorem invariant_run [DecidableEq P] {as : List (Action P C)}
    (h : Run (machine processes owner) (init processes) as w)
    (fresh : Guarded (machine processes owner) (FreshSeq processes owner) (init processes) as) :
    Invariant processes owner w := by
  have both : Traffic processes owner w ∧ ∀ p, RpcClientHandler.Inv (w.clients p) := by
    refine h.guarded_invariant
      (I := fun w => Traffic processes owner w ∧ ∀ p, RpcClientHandler.Inv (w.clients p)) ?_ fresh
      ⟨traffic_init,fun p => RpcClientHandler.inv_init _⟩
    rintro s a t ⟨traffic,hi⟩ hf hs
    obtain ⟨client,e,moves⟩ := step_moves traffic.loops hs
    exact ⟨traffic.step hs,moves.handler hf hi⟩
  exact ⟨both.1,both.2⟩

end Invariant

end Runs

end SeeU.DiscoverNetwork
