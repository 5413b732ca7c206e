import SeeU.NestedMap
import SeeU.RpcMsg

set_option autoImplicit false

/-!
# `RpcInvokerHolder`

The scanner binds the annotated methods of the beans, and `serviceInvoke` looks up
the parser of a bound method once and keeps it.
-/
namespace SeeU.RpcInvokerHolder
open WireFormat

/-- What `Method.invoke` throws; a bean method's own exception is the target's. -/
inductive InvocationException where
  | illegalAccess | illegalArgument | invocationTarget | nullPointer

/-- The classes, methods and beans that reflection works on. The beans' fields are the
    heap, which their methods read and change. -/
structure Jvm where
  Class : Type
  Parser : Type
  Method : Type
  Bean : Type
  Message : Type
  Result : Type
  Heap : Type
  /-- `none` is a `ClassNotFoundException`. -/
  loadClass : String → Option Class
  /-- `getMethod("parseFrom", ByteString.class)`; `none` is a `NoSuchMethodException`. -/
  parseFrom : Class → Option Parser
  /-- `mth.invoke(null, proto)`; `none` if it throws. -/
  parse : Parser → ByteString → Option Message
  invoke : Method → Bean → Message → Heap → Except InvocationException (Option Result) × Heap

structure Invoker (J : Jvm) where
  method : J.Method
  target : J.Bean
  proto : String

structure Holder (J : Jvm) where
  invokerServiceMap : NestedMap ServerType String (Invoker J)
  serverMethod : NestedMap ServerType String J.Parser
  /-- Null before the first use. -/
  classLoader : Option (String → Option J.Class)

section Model
variable {J : Jvm}

/-- `Invoker.invoke` prints the exceptions it catches and returns null. -/
def Invoker.invoke (invoker : Invoker J) (m : J.Message) (heap : J.Heap) :
    Except InvocationException (Option J.Result) × J.Heap :=
  match J.invoke invoker.method invoker.target m heap with
  | (.error .nullPointer,heap) => (.error .nullPointer,heap)
  | (.error _,heap) => (.ok none,heap)
  | (.ok result,heap) => (.ok result,heap)

namespace Holder

def init : Holder J := ⟨.empty,.empty,none⟩

def addServiceInvoker (h : Holder J) (type : ServerType) (method : String)
    (invoker : Invoker J) : Holder J :=
  { h with invokerServiceMap := h.invokerServiceMap.put type method invoker }

def getServiceInvoker (h : Holder J) (type : ServerType) (method : String) :
    Option (Invoker J) := h.invokerServiceMap.get type method

end Holder

/-- `String.replace('.', '$')`. -/
def replaceDots (s : String) : String :=
  String.ofList (s.toList.map (fun c => if c = '.' then '$' else c))

/-- The class named by a proto, or else the nested class of that name. -/
def loadProto (loader : String → Option J.Class) (proto : String) : Option J.Class :=
  match loader ("com.seeu.proto." ++ proto) with
  | some cls => some cls
  | none => loader ("com.seeu.proto." ++ replaceDots proto)

namespace Holder

/-- The parser of a bound method, from `serverMethod` or by reflection. -/
def parserOf (h : Holder J) (type : ServerType) (method : String) (invoker : Invoker J) :
    Option J.Parser × Holder J :=
  let h := { h with serverMethod := h.serverMethod.computeIfAbsent type }
  match h.serverMethod.get type method with
  | some mth => (some mth,h)
  | none =>
    let classLoader := h.classLoader.getD J.loadClass
    let h := { h with classLoader := some classLoader }
    match (loadProto classLoader invoker.proto).bind J.parseFrom with
    | none => (none,h)
    | some mth => (some mth,{ h with serverMethod := h.serverMethod.put type method mth })

/-- Whatever is thrown after the invoker was found is caught, and null returned. -/
def serviceInvoke (h : Holder J) (heap : J.Heap) (type : ServerType) (method : String)
    (proto : ByteString) : Option J.Result × Holder J × J.Heap :=
  match h.getServiceInvoker type method with
  | none => (none,h,heap)
  | some invoker =>
    match h.parserOf type method invoker with
    | (none,h) => (none,h,heap)
    | (some mth,h) =>
      match J.parse mth proto with
      | none => (none,h,heap)
      | some mlite =>
        match invoker.invoke mlite heap with
        | (.error _,heap) => (none,h,heap)
        | (.ok result,heap) => (result,h,heap)

end Holder

/-! ### `RpcScanner` -/

structure RpcMethod where
  method : String
  proto : String
  type : ServerType

structure BeanClass (J : Jvm) where
  /-- Whether the class is annotated with `RpcService`. -/
  rpcService : Bool
  /-- `getMethods`, whose order is not specified, with the annotations. -/
  methods : List (J.Method × Option RpcMethod)

namespace Holder

def scanMethod (bean : J.Bean) (h : Holder J) (m : J.Method × Option RpcMethod) :
    Holder J :=
  match m.2 with
  | none => h
  | some rpcMethod =>
    match h.getServiceInvoker rpcMethod.type rpcMethod.method with
    | none => h.addServiceInvoker rpcMethod.type rpcMethod.method ⟨m.1,bean,rpcMethod.proto⟩
    | some _ => h

def postProcessAfterInitialization (h : Holder J) (bean : J.Bean) (clazz : BeanClass J) :
    Holder J :=
  if clazz.rpcService then clazz.methods.foldl (scanMethod bean) h else h

end Holder

/-! ### Without the cache -/

/-- The parser that reflection finds for a bound method. -/
def Invoker.parser (invoker : Invoker J) : Option J.Parser :=
  (loadProto J.loadClass invoker.proto).bind J.parseFrom

/-- `serviceInvoke` with the parser looked up on every call. -/
def Invoker.uncached (invoker : Invoker J) (heap : J.Heap) (proto : ByteString) :
    Option J.Result × J.Heap :=
  match invoker.parser with
  | none => (none,heap)
  | some mth =>
    match J.parse mth proto with
    | none => (none,heap)
    | some mlite =>
      match invoker.invoke mlite heap with
      | (.error _,heap) => (none,heap)
      | (.ok result,heap) => (result,heap)

/-- A parser is kept only for a bound method, and it is the one of the bound invoker. -/
structure Coherent (h : Holder J) : Prop where
  cached : ∀ type method mth, h.serverMethod.get type method = some mth →
    ∃ invoker, h.getServiceInvoker type method = some invoker ∧ invoker.parser = some mth
  loader : h.classLoader = none ∨ h.classLoader = some J.loadClass

theorem coherent_init : Coherent (Holder.init : Holder J) :=
  ⟨nofun,.inl rfl⟩

theorem Coherent.getD_loader {h : Holder J} (hc : Coherent h) :
    h.classLoader.getD J.loadClass = J.loadClass := by
  rcases hc.loader with eq | eq <;> rw [eq] <;> rfl

/-- What the lookup of a parser gives and leaves behind. -/
structure ParserFound (h : Holder J) (invoker : Invoker J)
    (r : Option J.Parser × Holder J) : Prop where
  parser : r.1 = invoker.parser
  coherent : Coherent r.2
  bound : r.2.invokerServiceMap = h.invokerServiceMap

theorem parserOf_found {h : Holder J} {type : ServerType} {method : String}
    {invoker : Invoker J} (hc : Coherent h) (hi : h.getServiceInvoker type method = some invoker) :
    ParserFound h invoker (h.parserOf type method invoker) := by
  have kept : ∀ t m mth, (h.serverMethod.computeIfAbsent type).get t m = some mth →
      ∃ i, h.getServiceInvoker t m = some i ∧ i.parser = some mth := by
    intro t m mth hm
    rw [NestedMap.get_computeIfAbsent] at hm
    exact hc.cached t m mth hm
  unfold Holder.parserOf
  dsimp only
  rw [hc.getD_loader]
  cases hm : (h.serverMethod.computeIfAbsent type).get type method with
  | some mth =>
    obtain ⟨i,hi',parser⟩ := kept type method mth hm
    rw [hi] at hi'
    cases hi'
    exact ⟨parser.symm,⟨kept,hc.loader⟩,rfl⟩
  | none =>
    dsimp only
    rw [←Invoker.parser]
    cases hp : invoker.parser with
    | none => exact ⟨hp.symm,⟨kept,.inr rfl⟩,rfl⟩
    | some mth =>
      refine ⟨hp.symm,⟨?_,.inr rfl⟩,rfl⟩
      intro t m mth' hm'
      rw [NestedMap.get_put] at hm'
      split_ifs at hm' with same
      · obtain ⟨rfl,rfl⟩ := Prod.mk.inj same
        exact ⟨invoker,hi,hp.trans hm'⟩
      · exact kept t m mth' hm'

/-- `serviceInvoke` on a coherent holder gives what it gives without the cache. -/
theorem serviceInvoke_of_bound {h : Holder J} {type : ServerType} {method : String}
    {invoker : Invoker J} (hc : Coherent h) (hi : h.getServiceInvoker type method = some invoker)
    (heap : J.Heap) (proto : ByteString) :
    ∃ h', h.serviceInvoke heap type method proto =
        ((invoker.uncached heap proto).1,h',(invoker.uncached heap proto).2) ∧
      Coherent h' ∧ h'.invokerServiceMap = h.invokerServiceMap := by
  have found := parserOf_found hc hi
  rw [Holder.serviceInvoke,hi,Invoker.uncached,←found.parser]
  dsimp only
  generalize h.parserOf type method invoker = r at found
  obtain ⟨mth,h'⟩ := r
  refine ⟨h',?_,found.coherent,found.bound⟩
  cases mth with
  | none => rfl
  | some mth =>
    dsimp only
    cases J.parse mth proto with
    | none => rfl
    | some mlite =>
      dsimp only
      obtain ⟨result | result,heap'⟩ := invoker.invoke mlite heap <;> rfl

theorem serviceInvoke_of_unbound {h : Holder J} {type : ServerType} {method : String}
    (hi : h.getServiceInvoker type method = none) (heap : J.Heap) (proto : ByteString) :
    h.serviceInvoke heap type method proto = (none,h,heap) := by
  rw [Holder.serviceInvoke,hi]

/-! ### What a scan binds -/

/-- The invoker that a method of a bean would be bound with, if it is annotated with
    the given type and name. -/
def annotated (bean : J.Bean) (type : ServerType) (method : String)
    (m : J.Method × Option RpcMethod) : Option (Invoker J) :=
  match m.2 with
  | none => none
  | some rpcMethod =>
    if (type,method) = (rpcMethod.type,rpcMethod.method) then some ⟨m.1,bean,rpcMethod.proto⟩
    else none

theorem scanMethod_bound (bean : J.Bean) (h : Holder J) (m : J.Method × Option RpcMethod)
    (type : ServerType) (method : String) : (h.scanMethod bean m).getServiceInvoker type method =
      (h.getServiceInvoker type method).or (annotated bean type method m) := by
  obtain ⟨m,_ | rpcMethod⟩ := m
  · exact Option.or_none.symm
  · unfold Holder.scanMethod annotated
    dsimp only
    cases hb : h.getServiceInvoker rpcMethod.type rpcMethod.method with
    | some invoker =>
      dsimp only
      split_ifs with same
      · obtain ⟨rfl,rfl⟩ := Prod.mk.inj same
        rw [hb]
        rfl
      · exact Option.or_none.symm
    | none =>
      dsimp only
      rw [Holder.addServiceInvoker,Holder.getServiceInvoker,NestedMap.get_put]
      split_ifs with same
      · obtain ⟨rfl,rfl⟩ := Prod.mk.inj same
        rw [hb]
        rfl
      · exact Option.or_none.symm

theorem scanMethods_bound (bean : J.Bean) (ms : List (J.Method × Option RpcMethod))
    (h : Holder J) (type : ServerType) (method : String) :
    (ms.foldl (Holder.scanMethod bean) h).getServiceInvoker type method =
      (h.getServiceInvoker type method).or (ms.findSome? (annotated bean type method)) := by
  induction ms generalizing h with
  | nil => exact Option.or_none.symm
  | cons m ms ih =>
    rw [List.foldl_cons,ih,scanMethod_bound,List.findSome?_cons,Option.or_assoc]
    cases annotated bean type method m <;> rfl

/-- No parser is kept for a name that is not bound, so none is kept for another proto
    when the name is bound. -/
theorem coherent_scanMethod (bean : J.Bean) {h : Holder J} (hc : Coherent h)
    (m : J.Method × Option RpcMethod) : Coherent (h.scanMethod bean m) := by
  have kept : (h.scanMethod bean m).serverMethod = h.serverMethod ∧
      (h.scanMethod bean m).classLoader = h.classLoader := by
    unfold Holder.scanMethod
    cases m.2 with
    | none => exact ⟨rfl,rfl⟩
    | some rpcMethod =>
      dsimp only
      cases h.getServiceInvoker rpcMethod.type rpcMethod.method <;> exact ⟨rfl,rfl⟩
  refine ⟨?_,by rw [kept.2]; exact hc.loader⟩
  intro type method mth hm
  rw [kept.1] at hm
  obtain ⟨invoker,hi,parser⟩ := hc.cached type method mth hm
  exact ⟨invoker,by rw [scanMethod_bound,hi]; rfl,parser⟩

theorem coherent_scan (bean : J.Bean) (clazz : BeanClass J) {h : Holder J}
    (hc : Coherent h) : Coherent (h.postProcessAfterInitialization bean clazz) := by
  unfold Holder.postProcessAfterInitialization
  split_ifs
  · induction clazz.methods generalizing h with
    | nil => exact hc
    | cons m ms ih => exact ih (coherent_scanMethod bean hc m)
  · exact hc

end Model

end SeeU.RpcInvokerHolder
