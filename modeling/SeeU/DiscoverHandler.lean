import SeeU.DiscoverMsg
import SeeU.KeyedLog
import SeeU.TransitionSystem
import Mathlib.Data.List.AList

set_option autoImplicit false

/-!
# `DiscoverHandler`

The discover service keeps one map of registrations for each server type. A run of
it is its history of `register` and `unregister` calls.
-/
namespace SeeU.DiscoverHandler
open WireFormat DiscoverMsg TransitionSystem KeyedLog

abbrev ServerMap := AList (fun _ : BitVec 32 => Register)

structure Handler where
  serverTypeSetMap : ServerType → Option ServerMap

inductive Call where
  | register (register : Register)
  | unregister (unregister : Unregister)

/-- `values().iterator()` in an order that is not specified: its `next` returns some
    value, and fails exactly on an empty map. -/
structure Iteration where
  next : List Register → Option Register
  mem_of_next : ∀ {values r}, next values = some r → r ∈ values
  nil_of_next : ∀ {values}, next values = none → values = []

def values (serverMap : ServerMap) : List Register := serverMap.entries.map Sigma.snd

namespace Handler

def register (s : Handler) (register : Register) : Handler :=
  let type := register.getSvrType
  let serverMap := (s.serverTypeSetMap type).getD ∅
  ⟨Function.update s.serverTypeSetMap type (some (serverMap.insert register.svrId register))⟩

def unregister (s : Handler) (unregister : Unregister) : Handler :=
  let type := unregister.getSvrType
  match s.serverTypeSetMap type with
  | none => s
  | some serverMap =>
    ⟨Function.update s.serverTypeSetMap type (some (serverMap.erase unregister.svrId))⟩

/-- `serverMap.get`, and the iteration over the map where it returns null. -/
def findRegister (it : Iteration) (serverMap : ServerMap) (svrId : BitVec 32) :
    Except Throwable (Option Register) :=
  match serverMap.lookup svrId with
  | some register => .ok (some register)
  | none =>
    match it.next (values serverMap) with
    | some register => .ok (some register)
    | none => .error .noSuchElement

def getServiceInfo (it : Iteration) (s : Handler) (infoReq : GetServiceInfoReq) :
    Except Throwable GetServiceInfoResp := do
  let builder := GetServiceInfoResp.schema.defaultInstance
  match s.serverTypeSetMap infoReq.getSvrType with
  | none =>
    let unknown ← ServerType.unknown.getNumber
    return { builder with svrType := unknown }
  | some serverMap =>
    let type ← infoReq.getSvrType.getNumber
    let builder := { builder with svrType := type }
    match ← findRegister it serverMap infoReq.svrId with
    | some register =>
      return { builder with svrId := infoReq.svrId, host := register.host, port := register.port }
    | none =>
      let unknown ← ServerType.unknown.getNumber
      return { builder with svrType := unknown }

def lookup (s : Handler) (t : ServerType) (i : BitVec 32) : Option Register :=
  (s.serverTypeSetMap t).bind (fun serverMap => serverMap.lookup i)

end Handler

def step (s : Handler) : Call → Option Handler
  | .register register => some (s.register register)
  | .unregister unregister => some (s.unregister unregister)

def machine : Machine Handler Call := ⟨⟨fun _ => none⟩,step⟩

/-! ### What is currently registered -/

def Call.event : Call → Event (ServerType × BitVec 32) Register
  | register r => .put (r.getSvrType,r.svrId) r
  | unregister u => .remove (u.getSvrType,u.svrId)

/-- The registration of a type and id that no later call has replaced or removed. -/
def registered (history : List Call) (t : ServerType) (i : BitVec 32) : Option Register :=
  current (history.map Call.event) (t,i)

theorem registered_snoc (history : List Call) (c : Call) (t : ServerType) (i : BitVec 32) :
    registered (history ++ [c]) t i =
      if c.event.key = (t,i) then c.event.value else registered history t i := by
  unfold registered
  rw [List.map_append,List.map_singleton,current_snoc]

/-- A current registration carries the type and id it is registered under. -/
theorem registered_labels {history : List Call} {t : ServerType} {i : BitVec 32} {r : Register}
    (h : registered history t i = some r) :
    .register r ∈ history ∧ r.getSvrType = t ∧ r.svrId = i := by
  obtain ⟨c,hc,event⟩ := List.mem_map.mp (put_mem_of_current h)
  cases c with
  | register r' =>
    cases event
    exact ⟨hc,rfl,rfl⟩
  | unregister u => cases event

/-! ### The maps refine the history -/

theorem register_lookup (s : Handler) (r : Register) (t : ServerType) (i : BitVec 32) :
    (s.register r).lookup t i =
      if (r.getSvrType,r.svrId) = (t,i) then some r else s.lookup t i := by
  by_cases ht : t = r.getSvrType
  · subst ht
    by_cases hi : i = r.svrId
    · subst hi
      simp [Handler.lookup,Handler.register,AList.lookup_insert]
    · have ne : (r.getSvrType,r.svrId) ≠ (r.getSvrType,i) := by
        intro e
        exact hi (congrArg Prod.snd e).symm
      rw [if_neg ne]
      simp only [Handler.lookup,Handler.register,Function.update_self,Option.bind_some,
        AList.lookup_insert_ne hi]
      cases s.serverTypeSetMap r.getSvrType <;> rfl
  · have ne : (r.getSvrType,r.svrId) ≠ (t,i) := by
      intro e
      exact ht (congrArg Prod.fst e).symm
    rw [if_neg ne]
    simp only [Handler.lookup,Handler.register,Function.update_of_ne ht]

theorem unregister_of_none {s : Handler} {u : Unregister}
    (h : s.serverTypeSetMap u.getSvrType = none) : s.unregister u = s := by
  simp only [Handler.unregister,h]

theorem unregister_of_some {s : Handler} {u : Unregister} {serverMap : ServerMap}
    (h : s.serverTypeSetMap u.getSvrType = some serverMap) : s.unregister u =
      ⟨Function.update s.serverTypeSetMap u.getSvrType (some (serverMap.erase u.svrId))⟩ := by
  simp only [Handler.unregister,h]

theorem unregister_lookup (s : Handler) (u : Unregister) (t : ServerType) (i : BitVec 32) :
    (s.unregister u).lookup t i =
      if (u.getSvrType,u.svrId) = (t,i) then none else s.lookup t i := by
  cases hm : s.serverTypeSetMap u.getSvrType with
  | none =>
    rw [unregister_of_none hm]
    split_ifs with same
    · obtain ⟨rfl,rfl⟩ := Prod.mk.inj same
      simp only [Handler.lookup,hm,Option.bind_none]
    · rfl
  | some serverMap =>
    rw [unregister_of_some hm]
    by_cases ht : t = u.getSvrType
    · subst ht
      by_cases hi : i = u.svrId
      · subst hi
        simp [Handler.lookup,AList.lookup_erase]
      · have ne : (u.getSvrType,u.svrId) ≠ (u.getSvrType,i) := by
          intro e
          exact hi (congrArg Prod.snd e).symm
        rw [if_neg ne]
        simp only [Handler.lookup,Function.update_self,Option.bind_some,AList.lookup_erase_ne hi,hm]
    · have ne : (u.getSvrType,u.svrId) ≠ (t,i) := by
        intro e
        exact ht (congrArg Prod.fst e).symm
      rw [if_neg ne]
      simp only [Handler.lookup,Function.update_of_ne ht]

/-- The inner map of a type exists once a server of the type has registered. -/
theorem register_absent (s : Handler) (r : Register) (t : ServerType) :
    (s.register r).serverTypeSetMap t = none ↔
      s.serverTypeSetMap t = none ∧ r.getSvrType ≠ t := by
  by_cases ht : t = r.getSvrType
  · subst ht
    simp [Handler.register]
  · have ne : r.getSvrType ≠ t := fun e => ht e.symm
    simp [Handler.register,Function.update_of_ne ht,ne]

theorem unregister_absent (s : Handler) (u : Unregister) (t : ServerType) :
    (s.unregister u).serverTypeSetMap t = none ↔ s.serverTypeSetMap t = none := by
  cases hm : s.serverTypeSetMap u.getSvrType with
  | none => rw [unregister_of_none hm]
  | some serverMap =>
    rw [unregister_of_some hm]
    by_cases ht : t = u.getSvrType
    · subst ht
      simp [hm]
    · simp [Function.update_of_ne ht]

structure Refines (history : List Call) (s : Handler) : Prop where
  lookup : ∀ t i, s.lookup t i = registered history t i
  absent : ∀ t, s.serverTypeSetMap t = none ↔ ∀ r, .register r ∈ history → r.getSvrType ≠ t

theorem refines_step {history : List Call} {s u : Handler} {c : Call} (h : Refines history s)
    (hs : step s c = some u) : Refines (history ++ [c]) u := by
  cases c with
  | register r =>
    cases hs
    constructor
    · intro t i
      rw [register_lookup,registered_snoc,h.lookup]
      rfl
    · intro t
      rw [register_absent,h.absent]
      simp only [List.mem_append,List.mem_singleton,Call.register.injEq,or_imp,forall_and,
        forall_eq]
  | unregister u =>
    cases hs
    constructor
    · intro t i
      rw [unregister_lookup,registered_snoc,h.lookup]
      rfl
    · intro t
      rw [unregister_absent,h.absent]
      simp only [List.mem_append,List.mem_singleton,reduceCtorEq,or_false]

theorem refines_run {history : List Call} {s : Handler}
    (h : Run machine machine.init history s) : Refines history s := by
  refine h.rec_last (P := Refines) ⟨fun _ _ => rfl,fun t => ?_⟩ ?_
  · exact iff_of_true rfl (fun r hr => by cases hr)
  · intro as t a u _ ih hs
    exact refines_step ih hs

end SeeU.DiscoverHandler
