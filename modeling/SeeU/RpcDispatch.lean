import SeeU.Responder
import SeeU.RpcInvokerHolder

set_option autoImplicit false

/-!
# The dispatch of calls while beans are scanned

Scans and calls come in any order. The reference keeps the scanned beans only, and
looks the invoker and its parser up again on every call.
-/
namespace SeeU.RpcInvokerHolder
open Responder WireFormat

section Dispatch
variable {J : Jvm}

inductive Event (J : Jvm) where
  | postProcessAfterInitialization (bean : J.Bean) (clazz : BeanClass J)
  | serviceInvoke (type : ServerType) (method : String) (proto : ByteString)

/-- A scan gives nothing, which is written as the null result. -/
def dispatch (s : Holder J × J.Heap) : Event J → Option J.Result × Holder J × J.Heap
  | .postProcessAfterInitialization bean clazz =>
    (none,s.1.postProcessAfterInitialization bean clazz,s.2)
  | .serviceInvoke type method proto => s.1.serviceInvoke s.2 type method proto

/-- The beans in the order in which they were scanned. -/
abbrev Scanned (J : Jvm) := List (J.Bean × BeanClass J)

/-- The invoker of the first scanned method that is annotated with the type and name. -/
def firstScanned (scanned : Scanned J) (type : ServerType) (method : String) :
    Option (Invoker J) :=
  scanned.findSome? (fun b =>
    if b.2.rpcService then b.2.methods.findSome? (annotated b.1 type method) else none)

def reference (s : Scanned J × J.Heap) : Event J → Option J.Result × Scanned J × J.Heap
  | .postProcessAfterInitialization bean clazz => (none,s.1 ++ [(bean,clazz)],s.2)
  | .serviceInvoke type method proto =>
    match firstScanned s.1 type method with
    | none => (none,s)
    | some invoker =>
      let answered := invoker.uncached s.2 proto
      (answered.1,s.1,answered.2)

/-- The holder binds what was scanned first, and keeps only parsers of what it binds. -/
structure Agrees (s : Holder J × J.Heap) (t : Scanned J × J.Heap) : Prop where
  heap : s.2 = t.2
  bound : ∀ type method, s.1.getServiceInvoker type method = firstScanned t.1 type method
  coherent : Coherent s.1

theorem scan_bound (bean : J.Bean) (clazz : BeanClass J) (h : Holder J) (type : ServerType)
    (method : String) :
    (h.postProcessAfterInitialization bean clazz).getServiceInvoker type method =
      (h.getServiceInvoker type method).or (firstScanned [(bean,clazz)] type method) := by
  rw [firstScanned,List.findSome?_singleton,Holder.postProcessAfterInitialization]
  split_ifs with service
  · exact scanMethods_bound bean clazz.methods h type method
  · exact Option.or_none.symm

theorem dispatch_simulates : Simulates (Agrees (J := J)) dispatch reference := by
  rintro ⟨h,heap⟩ ⟨scanned,_⟩ event ⟨rfl,bound,coherent⟩
  cases event with
  | postProcessAfterInitialization bean clazz =>
    refine ⟨rfl,rfl,?_,coherent_scan bean clazz coherent⟩
    intro type method
    change (h.postProcessAfterInitialization bean clazz).getServiceInvoker type method =
      firstScanned (scanned ++ [(bean,clazz)]) type method
    rw [scan_bound,bound type method,firstScanned,firstScanned,firstScanned,
      List.findSome?_append]
  | serviceInvoke type method proto =>
    dsimp only [dispatch,reference]
    rw [←bound type method]
    cases hi : h.getServiceInvoker type method with
    | none =>
      rw [serviceInvoke_of_unbound hi]
      exact ⟨rfl,rfl,bound,coherent⟩
    | some invoker =>
      obtain ⟨h',answered,coherent',same⟩ := serviceInvoke_of_bound coherent hi heap proto
      rw [answered]
      refine ⟨rfl,rfl,?_,coherent'⟩
      intro type' method'
      rw [←bound type' method',Holder.getServiceInvoker,Holder.getServiceInvoker]
      dsimp only
      rw [same]

/-- Whatever is scanned and called, in whatever order, every call is answered as it is
    without the cache, and no parser is kept that is not the bound invoker's. -/
theorem dispatch_refines (heap : J.Heap) (events : List (Event J)) :
    (answers dispatch (Holder.init,heap) events).1 = (answers reference ([],heap) events).1 ∧
    (answers dispatch (Holder.init,heap) events).2.2 =
      (answers reference ([],heap) events).2.2 ∧
    ∀ type method mth,
      (answers dispatch (Holder.init,heap) events).2.1.serverMethod.get type method = some mth →
      ∃ invoker, firstScanned (answers reference ([],heap) events).2.1 type method =
        some invoker ∧ invoker.parser = some mth := by
  have start : Agrees (Holder.init,heap) (([] : Scanned J),heap) :=
    ⟨rfl,fun _ _ => rfl,coherent_init⟩
  obtain ⟨alike,last⟩ := dispatch_simulates.answers start events
  refine ⟨alike,last.heap,?_⟩
  intro type method mth cached
  obtain ⟨invoker,hi,parser⟩ := last.coherent.cached type method mth cached
  exact ⟨invoker,(last.bound type method).symm.trans hi,parser⟩

end Dispatch

end SeeU.RpcInvokerHolder
