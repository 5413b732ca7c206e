import SeeU.RpcInvokerHolder
import SeeU.DiscoverAnswer

set_option autoImplicit false

/-!
# `RpcServerHandler` on the discover server

A request goes from its envelope through the invoker holder to a method of the
`DiscoverHandler` bean, and the message that the method returns goes back in an
envelope with the labels of the request.
-/
namespace SeeU.RpcServerHandler
open WireFormat DiscoverMsg RpcInvokerHolder DiscoverHandler

/-! ### The classes of the discover server -/

/-- The classes of `com.seeu.proto` that the annotations name. -/
inductive MessageClass where
  | register | unregister | getServiceInfoReq
  deriving DecidableEq

inductive MessageLite where
  | register (m : Parsed Register)
  | unregister (m : Parsed Unregister)
  | getServiceInfoReq (m : Parsed GetServiceInfoReq)

def loadClass (name : String) : Option MessageClass :=
  if name = "com.seeu.proto.Discover$register" then some .register
  else if name = "com.seeu.proto.Discover$unregister" then some .unregister
  else if name = "com.seeu.proto.Discover$getServiceInfoReq" then some .getServiceInfoReq
  else none

def MessageClass.parseFrom (cls : MessageClass) (data : ByteString) : Option MessageLite :=
  match cls with
  | .register => (Register.schema.parseFrom data.bytes).map .register
  | .unregister => (Unregister.schema.parseFrom data.bytes).map .unregister
  | .getServiceInfoReq => (GetServiceInfoReq.schema.parseFrom data.bytes).map .getServiceInfoReq

/-- The public methods of `DiscoverHandler`; those inherited from `Object` have no
    annotation. -/
inductive DiscoverMethod where
  | register | unregister | getServiceInfo | inherited

def DiscoverMethod.rpcMethod : DiscoverMethod → Option RpcMethod
  | register => some ⟨"register","Discover.register",.unknown⟩
  | unregister => some ⟨"unregister","Discover.unregister",.unknown⟩
  | getServiceInfo => some ⟨"getServiceInfo","Discover.getServiceInfoReq",.unknown⟩
  | inherited => none

/-- A message of another class fails the cast at the start of the method. -/
def invoke (it : Iteration) (method : DiscoverMethod) (message : MessageLite) (s : Handler) :
    Except InvocationException (Option GetServiceInfoResp) × Handler :=
  match method, message with
  | .register, .register m => (.ok none,s.register m.message)
  | .unregister, .unregister m => (.ok none,s.unregister m.message)
  | .getServiceInfo, .getServiceInfoReq m =>
    match s.getServiceInfo it m.message with
    | .ok resp => (.ok (some resp),s)
    | .error _ => (.error .invocationTarget,s)
  | .inherited, _ => (.error .illegalArgument,s)
  | _, _ => (.error .invocationTarget,s)

abbrev jvm (it : Iteration) : Jvm where
  Class := MessageClass
  Parser := MessageClass
  Method := DiscoverMethod
  Bean := Unit
  Message := MessageLite
  Result := GetServiceInfoResp
  Heap := Handler
  loadClass := loadClass
  parseFrom := some
  parse := MessageClass.parseFrom
  invoke method _ := invoke it method

/-- `DiscoverHandler.class.getMethods()`. -/
structure GetMethods where
  methods : List DiscoverMethod
  mem : ∀ m, m ∈ methods

def declaredOrder : GetMethods :=
  ⟨[.register,.unregister,.getServiceInfo,.inherited],by intro m; cases m <;> simp⟩

def GetMethods.beanClass (order : GetMethods) (it : Iteration) : BeanClass (jvm it) :=
  ⟨true,order.methods.map (fun m => (m,m.rpcMethod))⟩

/-! ### The handler -/

structure Server (it : Iteration) where
  holder : Holder (jvm it)
  handler : Handler

/-- The server after `RpcScanner` has scanned the bean. -/
def start (it : Iteration) (order : GetMethods) : Server it :=
  ⟨Holder.init.postProcessAfterInitialization () (order.beanClass it),⟨fun _ => none⟩⟩

/-- The builder of a `response` that is written to the channel. -/
structure ResponseBuilder where
  msgSeq : BitVec 32
  svrType : BitVec 32
  svrId : BitVec 32
  method : Utf8String
  content : Bytes

/-- The builder that is written, if any, or the exception thrown; and the server after. -/
def channelRead0 {it : Iteration} (s : Server it) (req : Request) :
    Except Throwable (Option ResponseBuilder) × Server it :=
  match s.holder.serviceInvoke s.handler (.ofRaw req.svrType) req.method.val req.content with
  | (none,holder,handler) => (.ok none,⟨holder,handler⟩)
  | (some resp,holder,handler) =>
    ((ServerType.ofRaw req.svrType).getNumber.map (fun svrType =>
      some ⟨req.msgSeq,svrType,req.svrId,req.method,GetServiceInfoResp.schema.writeTo resp⟩),
      ⟨holder,handler⟩)

def serve {it : Iteration} (s : Server it) (reqs : List Request) : Server it :=
  reqs.foldl (fun s req => (channelRead0 s req).2) s

/-! ### The reference -/

/-- The address of each registered server. -/
abbrev Registry := ServerType × BitVec 32 → Option (Utf8String × BitVec 32)

def Registry.apply (m : Registry) (req : Request) : Registry :=
  if ServerType.ofRaw req.svrType = .unknown ∧ req.method.val = "register" then
    match Register.schema.parseFrom req.content.bytes with
    | some p => Function.update m (p.message.getSvrType,p.message.svrId)
        (some (p.message.host,p.message.port))
    | none => m
  else if ServerType.ofRaw req.svrType = .unknown ∧ req.method.val = "unregister" then
    match Unregister.schema.parseFrom req.content.bytes with
    | some p => Function.update m (p.message.getSvrType,p.message.svrId) none
    | none => m
  else m

def reference (reqs : List Request) : Registry := reqs.foldl Registry.apply (fun _ => none)

def Server.registry {it : Iteration} (s : Server it) : Registry :=
  fun k => (s.handler.lookup k.1 k.2).map (fun r => (r.host,r.port))

/-- The envelope of a `getServiceInfo` call with the message `q`. -/
structure Asks (req : Request) (q : GetServiceInfoReq) : Prop where
  svrType : ServerType.ofRaw req.svrType = .unknown
  method : req.method.val = "getServiceInfo"
  content : ∃ unknownFields, GetServiceInfoReq.schema.parseFrom req.content.bytes =
    some ⟨q,unknownFields⟩

structure Echoes (req : Request) (r : ResponseBuilder) : Prop where
  msgSeq : r.msgSeq = req.msgSeq
  svrType : r.svrType = req.svrType
  svrId : r.svrId = req.svrId
  method : r.method = req.method

/-! ### The bound methods -/

theorem findSome?_of_unique {α β : Type} {f : α → Option β} {xs : List α} {x : α} {b : β}
    (mem : x ∈ xs) (hx : f x = some b) (unique : ∀ y c, f y = some c → c = b) :
    xs.findSome? f = some b := by
  obtain ⟨c,hc⟩ : ∃ c, xs.findSome? f = some c := by
    rw [←Option.isSome_iff_exists,List.findSome?_isSome_iff]
    exact ⟨x,mem,by rw [hx]; rfl⟩
  obtain ⟨y,_,hy⟩ := List.exists_of_findSome?_eq_some hc
  rw [hc,unique y c hy]

theorem rpcMethod_unique {m m' : DiscoverMethod} {method p p' : String} {type : ServerType}
    (h : m.rpcMethod = some ⟨method,p,type⟩) (h' : m'.rpcMethod = some ⟨method,p',type⟩) :
    m' = m ∧ p' = p := by
  cases m <;> cases h <;> cases m' <;> simp [DiscoverMethod.rpcMethod] at h' ⊢
  all_goals exact h'.symm

section Bound
variable {it : Iteration} {order : GetMethods} {m : DiscoverMethod} {type : ServerType}
  {method proto : String}

theorem annotated_eq_some {invoker : Invoker (jvm it)}
    (h : annotated (J := jvm it) () type method (m,m.rpcMethod) = some invoker) :
    ∃ proto, m.rpcMethod = some ⟨method,proto,type⟩ ∧ invoker = ⟨m,(),proto⟩ := by
  unfold annotated at h
  cases hm : m.rpcMethod with
  | none =>
    rw [hm] at h
    cases h
  | some rpcMethod =>
    rw [hm] at h
    dsimp only at h
    split_ifs at h with same
    obtain ⟨rfl,rfl⟩ := Prod.mk.inj same
    cases h
    exact ⟨rpcMethod.proto,rfl,rfl⟩

theorem start_getServiceInvoker :
    (start it order).holder.getServiceInvoker type method = order.methods.findSome?
      (fun m => annotated (J := jvm it) () type method (m,m.rpcMethod)) := by
  unfold start Holder.postProcessAfterInitialization GetMethods.beanClass
  rw [if_pos rfl,scanMethods_bound,List.findSome?_map]
  rfl

theorem start_bound (h : m.rpcMethod = some ⟨method,proto,type⟩) :
    (start it order).holder.getServiceInvoker type method = some ⟨m,(),proto⟩ := by
  rw [start_getServiceInvoker]
  refine findSome?_of_unique (order.mem m) ?_ ?_
  · simp [annotated,h]
  · intro m' invoker h'
    obtain ⟨proto',same,rfl⟩ := annotated_eq_some h'
    obtain ⟨rfl,rfl⟩ := rpcMethod_unique h same
    rfl

theorem start_unbound (h : ∀ m proto, DiscoverMethod.rpcMethod m ≠ some ⟨method,proto,type⟩) :
    (start it order).holder.getServiceInvoker type method = none := by
  rw [start_getServiceInvoker,List.findSome?_eq_none_iff]
  intro m _
  by_contra some
  obtain ⟨invoker,hi⟩ := Option.ne_none_iff_exists'.mp some
  obtain ⟨proto,hm,_⟩ := annotated_eq_some hi
  exact h m proto hm

end Bound

/-! ### What each method does -/

section Methods
variable (it : Iteration) (s : Handler) (content : ByteString)

/-- The classes are nested ones, found by their name with a dollar sign. -/
theorem parser_of_nested {proto : String} {cls : MessageClass}
    (dotted : loadClass ("com.seeu.proto." ++ proto) = none)
    (nested : loadClass ("com.seeu.proto." ++ replaceDots proto) = some cls) (m : DiscoverMethod) :
    Invoker.parser (J := jvm it) ⟨m,(),proto⟩ = some cls := by
  have found : loadProto (J := jvm it) loadClass proto = some cls := by
    rw [loadProto,dotted]
    exact nested
  rw [Invoker.parser,found]
  rfl

theorem register_uncached :
    Invoker.uncached (J := jvm it) ⟨.register,(),"Discover.register"⟩ s content =
      (Register.schema.parseFrom content.bytes).elim (none,s)
        (fun p => (none,s.register p.message)) := by
  have parser : Invoker.parser (J := jvm it) ⟨.register,(),"Discover.register"⟩ =
      some .register := parser_of_nested it (by decide) (by decide) _
  rw [Invoker.uncached,parser]
  dsimp only [MessageClass.parseFrom]
  cases Register.schema.parseFrom content.bytes <;> rfl

theorem unregister_uncached :
    Invoker.uncached (J := jvm it) ⟨.unregister,(),"Discover.unregister"⟩ s content =
      (Unregister.schema.parseFrom content.bytes).elim (none,s)
        (fun p => (none,s.unregister p.message)) := by
  have parser : Invoker.parser (J := jvm it) ⟨.unregister,(),"Discover.unregister"⟩ =
      some .unregister := parser_of_nested it (by decide) (by decide) _
  rw [Invoker.uncached,parser]
  dsimp only [MessageClass.parseFrom]
  cases Unregister.schema.parseFrom content.bytes <;> rfl

/-- The exception of an emptied type is caught, and nothing is answered. -/
theorem getServiceInfo_uncached :
    Invoker.uncached (J := jvm it) ⟨.getServiceInfo,(),"Discover.getServiceInfoReq"⟩ s content =
      ((GetServiceInfoReq.schema.parseFrom content.bytes).bind
        (fun p => (s.getServiceInfo it p.message).toOption),s) := by
  have parser : Invoker.parser (J := jvm it)
      ⟨.getServiceInfo,(),"Discover.getServiceInfoReq"⟩ =
        some .getServiceInfoReq :=
    parser_of_nested it (by decide) (by decide) _
  rw [Invoker.uncached,parser]
  dsimp only [MessageClass.parseFrom]
  cases GetServiceInfoReq.schema.parseFrom content.bytes with
  | none => rfl
  | some p =>
    dsimp only [Option.map_some,Option.bind_some,Invoker.invoke,invoke]
    cases s.getServiceInfo it p.message <;> rfl

end Methods

/-! ### One envelope -/

section Envelope
variable {it : Iteration} {order : GetMethods} {s : Server it} {req : Request}

/-- The holder binds what the scan has bound. -/
structure Serving (order : GetMethods) (s : Server it) : Prop where
  coherent : Coherent s.holder
  bound : s.holder.invokerServiceMap = (start it order).holder.invokerServiceMap

theorem serving_start : Serving order (start it order) :=
  ⟨coherent_scan (J := jvm it) () (order.beanClass it) coherent_init,rfl⟩

theorem channelRead0_unbound (h : Serving order s) (unbound : ∀ m proto,
    DiscoverMethod.rpcMethod m ≠ some ⟨req.method.val,proto,.ofRaw req.svrType⟩) :
    channelRead0 s req = (.ok none,s) := by
  have hi : s.holder.getServiceInvoker (.ofRaw req.svrType) req.method.val = none := by
    rw [Holder.getServiceInvoker,h.bound]
    exact start_unbound unbound
  rw [channelRead0,serviceInvoke_of_unbound hi]

theorem rpcMethod_declared {m : DiscoverMethod} {method proto : String} {type : ServerType}
    (h : m.rpcMethod = some ⟨method,proto,type⟩) : type = .unknown := by
  cases m <;> cases h <;> rfl

def reply (req : Request) (resp : GetServiceInfoResp) : ResponseBuilder :=
  ⟨req.msgSeq,req.svrType,req.svrId,req.method,GetServiceInfoResp.schema.writeTo resp⟩

theorem channelRead0_bound (h : Serving order s) {m : DiscoverMethod} {proto : String}
    (hm : m.rpcMethod = some ⟨req.method.val,proto,.ofRaw req.svrType⟩)
    {resp : Option GetServiceInfoResp} {handler : Handler}
    (hu : Invoker.uncached (J := jvm it) ⟨m,(),proto⟩ s.handler req.content = (resp,handler)) :
    ∃ holder, Serving order ⟨holder,handler⟩ ∧
      channelRead0 s req = (.ok (resp.map (reply req)),⟨holder,handler⟩) := by
  have hi : s.holder.getServiceInvoker (.ofRaw req.svrType) req.method.val =
      some ⟨m,(),proto⟩ := by
    rw [Holder.getServiceInvoker,h.bound]
    exact start_bound hm
  obtain ⟨holder,hs,coherent,bound⟩ :=
    serviceInvoke_of_bound h.coherent hi s.handler req.content
  refine ⟨holder,⟨coherent,bound.trans h.bound⟩,?_⟩
  have type : (ServerType.ofRaw req.svrType).getNumber = .ok req.svrType := by
    apply ServerType.getNumber_ofRaw
    rw [rpcMethod_declared hm]
    decide
  rw [channelRead0,hs,hu,type]
  cases resp <;> rfl

theorem registry_of_lookup (holder : Holder (jvm it)) {s s' : Handler}
    {k : ServerType × BitVec 32} {r : Option Register}
    (h : ∀ t i, s'.lookup t i = if k = (t,i) then r else s.lookup t i) :
    Server.registry ⟨holder,s'⟩ = Function.update (Server.registry ⟨holder,s⟩) k
      (r.map (fun r => (r.host,r.port))) := by
  funext ⟨t,i⟩
  rw [Server.registry,h,Function.update_apply]
  by_cases same : (t,i) = k
  · rw [if_pos same,if_pos same.symm]
  · rw [if_neg same,if_neg (fun e => same e.symm)]
    rfl

structure Handled (order : GetMethods) (s : Server it) (req : Request)
    (r : Except Throwable (Option ResponseBuilder) × Server it) : Prop where
  serving : Serving order r.2
  registry : r.2.registry = s.registry.apply req
  reply : ∃ resp : Option GetServiceInfoResp, r.1 = .ok (resp.map (RpcServerHandler.reply req)) ∧
    ∀ q, Asks req q → resp = (s.handler.getServiceInfo it q).toOption

theorem apply_of_ne {m : Registry} (h : ServerType.ofRaw req.svrType = .unknown →
    req.method.val ≠ "register" ∧ req.method.val ≠ "unregister") : m.apply req = m := by
  unfold Registry.apply
  rw [if_neg (fun c => (h c.1).1 c.2),if_neg (fun c => (h c.1).2 c.2)]

theorem handled_unbound (h : Serving order s) (unbound : ∀ m proto,
    DiscoverMethod.rpcMethod m ≠ some ⟨req.method.val,proto,.ofRaw req.svrType⟩) :
    Handled order s req (channelRead0 s req) := by
  rw [channelRead0_unbound h unbound]
  refine ⟨h,(apply_of_ne ?_).symm,none,rfl,?_⟩
  · intro unknown
    constructor
    · intro method
      exact unbound .register "Discover.register" (by rw [method,unknown]; rfl)
    · intro method
      exact unbound .unregister "Discover.unregister" (by rw [method,unknown]; rfl)
  · rintro q ⟨unknown,method,_⟩
    exact absurd (by rw [method,unknown]; rfl)
      (unbound .getServiceInfo "Discover.getServiceInfoReq")

theorem handled_bound (h : Serving order s) {m : DiscoverMethod} {proto : String}
    (hm : m.rpcMethod = some ⟨req.method.val,proto,.ofRaw req.svrType⟩)
    {resp : Option GetServiceInfoResp} {handler : Handler}
    (hu : Invoker.uncached (J := jvm it) ⟨m,(),proto⟩ s.handler req.content = (resp,handler))
    (registry : Server.registry ⟨s.holder,handler⟩ = s.registry.apply req)
    (answer : ∀ q, Asks req q → resp = (s.handler.getServiceInfo it q).toOption) :
    Handled order s req (channelRead0 s req) := by
  obtain ⟨holder,serving,eq⟩ := channelRead0_bound h hm hu
  rw [eq]
  exact ⟨serving,registry,resp,rfl,answer⟩

/-- A method that reads a message, changes one entry by it and answers nothing. -/
theorem handled_change {M : Type} (parsed : Option (Parsed M)) (run : M → Handler)
    (key : M → ServerType × BitVec 32) (entry : M → Option Register) (h : Serving order s)
    {m : DiscoverMethod} {proto : String}
    (hm : m.rpcMethod = some ⟨req.method.val,proto,.ofRaw req.svrType⟩)
    (other : req.method.val ≠ "getServiceInfo")
    (uncached : Invoker.uncached (J := jvm it) ⟨m,(),proto⟩ s.handler req.content =
      parsed.elim (none,s.handler) (fun p => (none,run p.message)))
    (lookup : ∀ a t i, (run a).lookup t i =
      if key a = (t,i) then entry a else s.handler.lookup t i)
    (apply : s.registry.apply req = parsed.elim s.registry (fun p =>
      Function.update s.registry (key p.message)
        ((entry p.message).map (fun r => (r.host,r.port))))) :
    Handled order s req (channelRead0 s req) := by
  cases parsed with
  | some p =>
    refine handled_bound h hm uncached ?_ (fun q asks => absurd asks.method other)
    rw [apply]
    exact registry_of_lookup s.holder (lookup p.message)
  | none => exact handled_bound h hm uncached apply.symm (fun q asks => absurd asks.method other)

theorem handled_register (h : Serving order s) (unknown : ServerType.ofRaw req.svrType = .unknown)
    (method : req.method.val = "register") : Handled order s req (channelRead0 s req) := by
  have hm : DiscoverMethod.register.rpcMethod =
      some ⟨req.method.val,"Discover.register",.ofRaw req.svrType⟩ := by
    rw [method,unknown]
    rfl
  have other : req.method.val ≠ "getServiceInfo" := by
    rw [method]
    decide
  refine handled_change (Register.schema.parseFrom req.content.bytes) s.handler.register
    (fun r => (r.getSvrType,r.svrId)) some h hm other (register_uncached it s.handler req.content)
    (register_lookup s.handler) ?_
  rw [Registry.apply,if_pos ⟨unknown,method⟩]
  cases Register.schema.parseFrom req.content.bytes <;> rfl

theorem handled_unregister (h : Serving order s)
    (unknown : ServerType.ofRaw req.svrType = .unknown) (method : req.method.val = "unregister") :
    Handled order s req (channelRead0 s req) := by
  have hm : DiscoverMethod.unregister.rpcMethod =
      some ⟨req.method.val,"Discover.unregister",.ofRaw req.svrType⟩ := by
    rw [method,unknown]
    rfl
  have other : req.method.val ≠ "getServiceInfo" := by
    rw [method]
    decide
  have ne : req.method.val ≠ "register" := by
    rw [method]
    decide
  refine handled_change (Unregister.schema.parseFrom req.content.bytes) s.handler.unregister
    (fun u => (u.getSvrType,u.svrId)) (fun _ => none) h hm other
    (unregister_uncached it s.handler req.content) (unregister_lookup s.handler) ?_
  rw [Registry.apply,if_neg (fun c => ne c.2),if_pos ⟨unknown,method⟩]
  cases Unregister.schema.parseFrom req.content.bytes <;> rfl

theorem handled_getServiceInfo (h : Serving order s)
    (unknown : ServerType.ofRaw req.svrType = .unknown)
    (method : req.method.val = "getServiceInfo") :
    Handled order s req (channelRead0 s req) := by
  have hm : DiscoverMethod.getServiceInfo.rpcMethod =
      some ⟨req.method.val,"Discover.getServiceInfoReq",.ofRaw req.svrType⟩ := by
    rw [method,unknown]
    rfl
  refine handled_bound h hm (getServiceInfo_uncached it s.handler req.content) ?_ ?_
  · refine (apply_of_ne (fun _ => ?_)).symm
    rw [method]
    decide
  · rintro q ⟨_,_,us,content⟩
    rw [content]
    rfl

theorem channelRead0_handled (req : Request) (h : Serving order s) :
    Handled order s req (channelRead0 s req) := by
  by_cases bound : ∃ m proto,
      DiscoverMethod.rpcMethod m = some ⟨req.method.val,proto,.ofRaw req.svrType⟩
  · obtain ⟨m,proto,hm⟩ := bound
    have unknown := rpcMethod_declared hm
    have name : m.rpcMethod.map RpcMethod.method = some req.method.val := by rw [hm]; rfl
    cases m with
    | register => exact handled_register h unknown (Option.some.inj name).symm
    | unregister => exact handled_unregister h unknown (Option.some.inj name).symm
    | getServiceInfo => exact handled_getServiceInfo h unknown (Option.some.inj name).symm
    | inherited => cases hm
  · exact handled_unbound h (fun m proto hm => bound ⟨m,proto,hm⟩)

end Envelope

/-! ### A sequence of envelopes -/

section Serve
variable {it : Iteration} {order : GetMethods}

theorem serve_snoc (s : Server it) (reqs : List Request) (req : Request) :
    serve s (reqs ++ [req]) = (channelRead0 (serve s reqs) req).2 := by
  rw [serve,List.foldl_append]
  rfl

theorem serve_refines (it : Iteration) (order : GetMethods) (reqs : List Request) :
    Serving order (serve (start it order) reqs) ∧
      (serve (start it order) reqs).registry = reference reqs := by
  induction reqs using List.reverseRecOn with
  | nil => exact ⟨serving_start,rfl⟩
  | append_singleton reqs req ih =>
    obtain ⟨serving,registry⟩ := ih
    have handled := channelRead0_handled req serving
    rw [serve_snoc,reference,List.foldl_append]
    refine ⟨handled.serving,handled.registry.trans ?_⟩
    rw [registry]
    rfl

theorem getServiceInfo_of_registry {s : Server it} {q : GetServiceInfoReq} {host : Utf8String}
    {port : BitVec 32} (declared : q.getSvrType.Declared)
    (h : s.registry (q.getSvrType,q.svrId) = some (host,port)) :
    s.handler.getServiceInfo it q = .ok ⟨q.svrType,q.svrId,host,port⟩ := by
  obtain ⟨r,hr,address⟩ := Option.map_eq_some_iff.mp h
  obtain ⟨rfl,rfl⟩ := Prod.mk.inj address
  obtain ⟨serverMap,hm,lookup⟩ := Option.bind_eq_some_iff.mp hr
  refine getServiceInfo_found hm (ServerType.getNumber_ofRaw declared) ?_
  unfold Handler.findRegister
  rw [lookup]

/-- After any sequence of envelopes the registered addresses are those of the reference,
    and the next envelope, whatever it holds, is taken without an exception: it is
    answered at most once and with its own labels, and a `getServiceInfo` of a registered
    server with the address that the reference has. -/
theorem channelRead0_refines (it : Iteration) (order : GetMethods) (reqs : List Request)
    (req : Request) : (serve (start it order) reqs).registry = reference reqs ∧
      ∃ response, (channelRead0 (serve (start it order) reqs) req).1 = .ok response ∧
        (∀ b, response = some b → Echoes req b) ∧
        ∀ q host port, Asks req q → q.getSvrType.Declared →
          reference reqs (q.getSvrType,q.svrId) = some (host,port) →
          ∃ b, response = some b ∧
            GetServiceInfoResp.parseFrom b.content = some ⟨⟨q.svrType,q.svrId,host,port⟩,[]⟩ := by
  obtain ⟨serving,registry⟩ := serve_refines it order reqs
  obtain ⟨resp,reply,answer⟩ := (channelRead0_handled req serving).reply
  refine ⟨registry,_,reply,?_,?_⟩
  · intro b hb
    obtain ⟨resp,rfl,rfl⟩ := Option.map_eq_some_iff.mp hb
    exact ⟨rfl,rfl,rfl,rfl⟩
  · intro q host port asks declared registered
    rw [←registry] at registered
    have found := answer q asks
    rw [getServiceInfo_of_registry declared registered] at found
    rw [found]
    exact ⟨_,rfl,GetServiceInfoResp.schema.parseFrom_writeTo _⟩

end Serve

end SeeU.RpcServerHandler
