import SeeU.DiscoverAnswer

set_option autoImplicit false

/-!
# `DiscoverHandler` on several threads

The event loops of the discover server call its one handler at the same time. An access
to a `ConcurrentHashMap` is atomic, and an iterator over one returns a value that the
map has held at some moment since the iterator was created. A map of a type is never
replaced, so a reference to it is the map that the type has now.
-/
namespace SeeU.DiscoverConcurrent
open WireFormat DiscoverMsg DiscoverHandler TransitionSystem

/-! ### The machine -/

abbrev InvocationId := ℕ

inductive Operation where
  | change (call : Call)
  | getServiceInfo (infoReq : GetServiceInfoReq)

/-- Moments are counted in calls that have taken effect. -/
inductive Phase where
  | started
  | fetched
  | missed
  | iterating (since : ℕ)
  | returned (result : Except Throwable (Option GetServiceInfoResp)) (finish : ℕ)

structure Invocation where
  operation : Operation
  start : ℕ
  phase : Phase

structure State where
  handler : Handler
  /-- The calls in the order of their effects, which the program does not keep. -/
  history : List (InvocationId × Call)
  invocations : InvocationId → Option Invocation

inductive Action where
  | invoke (c : InvocationId) (operation : Operation)
  | getMap (c : InvocationId)
  | access (c : InvocationId)
  | iterator (c : InvocationId)
  | next (c : InvocationId) (register : Option Register)

/-- The key has had this value at a moment since `since`. -/
def Held (calls : List Call) (since : ℕ) (t : ServerType) (i : BitVec 32)
    (value : Option Register) : Prop :=
  ∃ n ≤ calls.length, since ≤ n ∧ registered (calls.take n) t i = value

instance (calls : List Call) (since : ℕ) (t : ServerType) (i : BitVec 32)
    (value : Option Register) : Decidable (Held calls since t i value) :=
  inferInstanceAs (Decidable (∃ n ≤ calls.length, _ ∧ _))

def computeIfAbsent (s : Handler) (type : ServerType) : Handler :=
  ⟨Function.update s.serverTypeSetMap type (some ((s.serverTypeSetMap type).getD ∅))⟩

def onMap (s : Handler) (type : ServerType) (f : ServerMap → ServerMap) : Handler :=
  ⟨Function.update s.serverTypeSetMap type ((s.serverTypeSetMap type).map f)⟩

/-- `put` or `remove` on the map that the call has fetched. -/
def modify (s : Handler) : Call → Handler
  | .register r => onMap s r.getSvrType (fun serverMap => serverMap.insert r.svrId r)
  | .unregister u => onMap s u.getSvrType (fun serverMap => serverMap.erase u.svrId)

def unknownInfo : Except Throwable GetServiceInfoResp := do
  let unknown ← ServerType.unknown.getNumber
  return { GetServiceInfoResp.schema.defaultInstance with svrType := unknown }

def foundInfo (infoReq : GetServiceInfoReq) (register : Register) :
    Except Throwable GetServiceInfoResp := do
  let type ← infoReq.getSvrType.getNumber
  return { GetServiceInfoResp.schema.defaultInstance with
    svrType := type, svrId := infoReq.svrId, host := register.host, port := register.port }

namespace State

def calls (s : State) : List Call := s.history.map Prod.snd

def setInvocation (s : State) (c : InvocationId) (inv : Invocation) : State :=
  { s with invocations := Function.update s.invocations c (some inv) }

def setPhase (s : State) (c : InvocationId) (inv : Invocation) (phase : Phase) : State :=
  s.setInvocation c { inv with phase := phase }

def setHandler (s : State) (handler : Handler) : State := { s with handler := handler }

def log (s : State) (c : InvocationId) (call : Call) : State :=
  { s with history := s.history ++ [(c,call)] }

def finish (s : State) (c : InvocationId) (inv : Invocation)
    (result : Except Throwable (Option GetServiceInfoResp)) : State :=
  s.setPhase c inv (.returned result s.history.length)

/-- The access to `serverTypeSetMap`: a `computeIfAbsent` of `register`, else a `get`. -/
def getMap (s : State) (c : InvocationId) (inv : Invocation) : Option State :=
  match inv.phase, inv.operation with
  | .started, .change (.register r) =>
    some ((s.setHandler (computeIfAbsent s.handler r.getSvrType)).setPhase c inv .fetched)
  | .started, .change (.unregister u) =>
    match s.handler.serverTypeSetMap u.getSvrType with
    | none => some ((s.log c (.unregister u)).finish c inv (.ok none))
    | some _ => some (s.setPhase c inv .fetched)
  | .started, .getServiceInfo infoReq =>
    match s.handler.serverTypeSetMap infoReq.getSvrType with
    | none => some (s.finish c inv (unknownInfo.map some))
    | some _ =>
      match infoReq.getSvrType.getNumber with
      | .error e => some (s.finish c inv (.error e))
      | .ok _ => some (s.setPhase c inv .fetched)
  | _, _ => none

/-- The first access to the map of the type. -/
def access (s : State) (c : InvocationId) (inv : Invocation) : Option State :=
  match inv.phase, inv.operation with
  | .fetched, .change call =>
    some (((s.setHandler (modify s.handler call)).log c call).finish c inv (.ok none))
  | .fetched, .getServiceInfo infoReq =>
    (s.handler.serverTypeSetMap infoReq.getSvrType).map (fun serverMap =>
      match serverMap.lookup infoReq.svrId with
      | some register => s.finish c inv ((foundInfo infoReq register).map some)
      | none => s.setPhase c inv .missed)
  | _, _ => none

def iterator (s : State) (c : InvocationId) (inv : Invocation) : Option State :=
  match inv.phase with
  | .missed => some (s.setPhase c inv (.iterating s.history.length))
  | _ => none

/-- The iterator has no next value only if each server of the type was missing at a
    moment since its creation. -/
def next (s : State) (c : InvocationId) (inv : Invocation) (register : Option Register) :
    Option State :=
  match inv.phase, inv.operation, register with
  | .iterating since, .getServiceInfo infoReq, some register =>
    if Held s.calls since infoReq.getSvrType register.svrId (some register) then
      some (s.finish c inv ((foundInfo infoReq register).map some))
    else none
  | .iterating since, .getServiceInfo infoReq, none =>
    if ∀ call ∈ s.calls, call.getSvrType = infoReq.getSvrType →
        Held s.calls since infoReq.getSvrType call.event.key.2 none then
      some (s.finish c inv (.error .noSuchElement))
    else none
  | _, _, _ => none

end State

def step (s : State) : Action → Option State
  | .invoke c operation =>
    match s.invocations c with
    | none => some (s.setInvocation c ⟨operation,s.history.length,.started⟩)
    | some _ => none
  | .getMap c => (s.invocations c).bind (s.getMap c)
  | .access c => (s.invocations c).bind (s.access c)
  | .iterator c => (s.invocations c).bind (s.iterator c)
  | .next c register => (s.invocations c).bind (fun inv => s.next c inv register)

def machine : Machine State Action := ⟨⟨DiscoverHandler.machine.init,[],fun _ => none⟩,step⟩

/-! ### The accesses and the methods -/

theorem lookup_eq {s : Handler} {t : ServerType} {serverMap : ServerMap}
    (h : s.serverTypeSetMap t = some serverMap) (i : BitVec 32) :
    s.lookup t i = serverMap.lookup i := by
  rw [Handler.lookup,h]
  rfl

theorem computeIfAbsent_map (s : Handler) (type t : ServerType) :
    (computeIfAbsent s type).serverTypeSetMap t =
      if t = type then some ((s.serverTypeSetMap t).getD ∅) else s.serverTypeSetMap t := by
  by_cases h : t = type
  · subst h
    simp [computeIfAbsent]
  · simp [computeIfAbsent,h]

/-- A new map is empty. -/
theorem computeIfAbsent_lookup (s : Handler) (type t : ServerType) (i : BitVec 32) :
    (computeIfAbsent s type).lookup t i = s.lookup t i := by
  rw [Handler.lookup,Handler.lookup,computeIfAbsent_map]
  split_ifs with h
  · cases s.serverTypeSetMap t with
    | none => exact AList.lookup_empty i
    | some serverMap => rfl
  · rfl

theorem onMap_isSome (s : Handler) (type t : ServerType) (f : ServerMap → ServerMap) :
    ((onMap s type f).serverTypeSetMap t).isSome = (s.serverTypeSetMap t).isSome := by
  by_cases h : t = type
  · subst h
    simp [onMap]
  · simp [onMap,h]

/-- The two accesses of `register` make the method. -/
theorem modify_register (s : Handler) (r : Register) :
    modify (computeIfAbsent s r.getSvrType) (.register r) = s.register r := by
  simp only [modify,onMap,computeIfAbsent,Handler.register,Function.update_self,Option.map_some,
    Function.update_idem]

theorem computeIfAbsent_of_isSome {s : Handler} {type : ServerType}
    (h : (s.serverTypeSetMap type).isSome) : computeIfAbsent s type = s := by
  obtain ⟨serverMap,hm⟩ := Option.isSome_iff_exists.mp h
  rw [computeIfAbsent,hm,Option.getD_some,←hm,Function.update_eq_self]

theorem modify_unregister (s : Handler) (u : Unregister) :
    modify s (.unregister u) = s.unregister u := by
  cases hm : s.serverTypeSetMap u.getSvrType with
  | none =>
    rw [unregister_of_none hm,modify,onMap,hm,Option.map_none,←hm,Function.update_eq_self]
  | some serverMap => rw [unregister_of_some hm,modify,onMap,hm,Option.map_some]

/-- The call takes effect with its access to the map that it has fetched. -/
theorem modify_lookup {s : Handler} {call : Call}
    (h : (s.serverTypeSetMap call.getSvrType).isSome) (t : ServerType) (i : BitVec 32) :
    (modify s call).lookup t i =
      if call.event.key = (t,i) then call.event.value else s.lookup t i := by
  cases call with
  | register r =>
    rw [←computeIfAbsent_of_isSome h,Call.getSvrType,modify_register,register_lookup]
    change _ = if (r.getSvrType,r.svrId) = (t,i) then some r else _
    rw [computeIfAbsent_lookup]
  | unregister u =>
    rw [modify_unregister,unregister_lookup]
    rfl

/-! ### What is known of an invocation -/

theorem State.calls_length (s : State) : s.calls.length = s.history.length := List.length_map _

/-- The registration of the key after the first `n` calls. -/
def State.registeredAt (s : State) (n : ℕ) (t : ServerType) (i : BitVec 32) : Option Register :=
  registered (s.calls.take n) t i

/-- How a query that ran from `start` to `finish` has ended. -/
inductive Outcome (s : State) (start finish : ℕ) (q : GetServiceInfoReq) :
    Except Throwable (Option GetServiceInfoResp) → Prop where
  | unknown {n : ℕ} (first : start ≤ n) (last : n ≤ finish)
      (never : ∀ r, .register r ∈ s.calls.take n → r.getSvrType ≠ q.getSvrType) :
      Outcome s start finish q (.ok (some ⟨0,0,Utf8String.empty,0⟩))
  | unnumbered {e : Throwable} (he : q.getSvrType.getNumber = .error e) :
      Outcome s start finish q (.error e)
  | found {n : ℕ} {r : Register} {number : BitVec 32} (first : start ≤ n) (last : n ≤ finish)
      (hn : q.getSvrType.getNumber = .ok number)
      (hr : s.registeredAt n q.getSvrType q.svrId = some r) :
      Outcome s start finish q (.ok (some ⟨number,q.svrId,r.host,r.port⟩))
  | substitute {n m : ℕ} {r : Register} {number : BitVec 32} (first : start ≤ n) (order : n ≤ m)
      (last : m ≤ finish) (hn : q.getSvrType.getNumber = .ok number)
      (missing : s.registeredAt n q.getSvrType q.svrId = none)
      (hr : s.registeredAt m q.getSvrType r.svrId = some r) :
      Outcome s start finish q (.ok (some ⟨number,q.svrId,r.host,r.port⟩))
  | exhausted {number : BitVec 32} (hn : q.getSvrType.getNumber = .ok number)
      (missing : ∀ i, ∃ n, start ≤ n ∧ n ≤ finish ∧ s.registeredAt n q.getSvrType i = none) :
      Outcome s start finish q (.error .noSuchElement)

inductive Known (s : State) (start : ℕ) : Operation → Phase → Prop where
  | started (operation : Operation) (h : start ≤ s.history.length) :
      Known s start operation .started
  | changing {call : Call} (h : start ≤ s.history.length)
      (hm : (s.handler.serverTypeSetMap call.getSvrType).isSome) :
      Known s start (.change call) .fetched
  | fetched {q : GetServiceInfoReq} {number : BitVec 32} (h : start ≤ s.history.length)
      (hm : (s.handler.serverTypeSetMap q.getSvrType).isSome)
      (hn : q.getSvrType.getNumber = .ok number) : Known s start (.getServiceInfo q) .fetched
  | missed {q : GetServiceInfoReq} {n : ℕ} {number : BitVec 32} (first : start ≤ n)
      (last : n ≤ s.history.length) (hn : q.getSvrType.getNumber = .ok number)
      (missing : s.registeredAt n q.getSvrType q.svrId = none) :
      Known s start (.getServiceInfo q) .missed
  | iterating {q : GetServiceInfoReq} {n since : ℕ} {number : BitVec 32} (first : start ≤ n)
      (order : n ≤ since) (last : since ≤ s.history.length)
      (hn : q.getSvrType.getNumber = .ok number)
      (missing : s.registeredAt n q.getSvrType q.svrId = none) :
      Known s start (.getServiceInfo q) (.iterating since)
  | changed {call : Call} {finish : ℕ} (h : start < finish) (last : finish ≤ s.history.length) :
      Known s start (.change call) (.returned (.ok none) finish)
  | answered {q : GetServiceInfoReq} {result : Except Throwable (Option GetServiceInfoResp)}
      {finish : ℕ} (h : start ≤ finish) (last : finish ≤ s.history.length)
      (outcome : Outcome s start finish q result) :
      Known s start (.getServiceInfo q) (.returned result finish)

/-- Calls only take effect behind others, and no map goes away. -/
structure Extends (s t : State) : Prop where
  history : s.history <+: t.history
  maps : ∀ type, (s.handler.serverTypeSetMap type).isSome →
    (t.handler.serverTypeSetMap type).isSome

section Extension
variable {s t : State} {start : ℕ}

theorem Extends.length (h : Extends s t) : s.history.length ≤ t.history.length :=
  h.history.length_le

theorem Extends.take (h : Extends s t) {n : ℕ} (hn : n ≤ s.history.length) :
    t.calls.take n = s.calls.take n := by
  obtain ⟨more,eq⟩ := h.history
  have short : n ≤ s.calls.length := hn.trans_eq s.calls_length.symm
  rw [State.calls,←eq,List.map_append]
  exact List.take_append_of_le_length short

theorem Extends.registeredAt (h : Extends s t) {n : ℕ} (hn : n ≤ s.history.length)
    (type : ServerType) (i : BitVec 32) : t.registeredAt n type i = s.registeredAt n type i := by
  rw [State.registeredAt,State.registeredAt,h.take hn]

theorem Outcome.mono {finish : ℕ} {q : GetServiceInfoReq}
    {result : Except Throwable (Option GetServiceInfoResp)} (h : Outcome s start finish q result)
    (ext : Extends s t) (hf : finish ≤ s.history.length) : Outcome t start finish q result := by
  cases h with
  | unknown first last never =>
    refine .unknown first last ?_
    rw [ext.take (last.trans hf)]
    exact never
  | unnumbered he => exact .unnumbered he
  | found first last hn hr =>
    exact .found first last hn (by rw [ext.registeredAt (last.trans hf),hr])
  | substitute first order last hn missing hr =>
    exact .substitute first order last hn
      (by rw [ext.registeredAt (order.trans (last.trans hf)),missing])
      (by rw [ext.registeredAt (last.trans hf),hr])
  | exhausted hn missing =>
    refine .exhausted hn ?_
    intro i
    obtain ⟨n,first,last,none⟩ := missing i
    exact ⟨n,first,last,by rw [ext.registeredAt (last.trans hf),none]⟩

theorem Known.mono {operation : Operation} {phase : Phase} (h : Known s start operation phase)
    (ext : Extends s t) : Known t start operation phase := by
  have length := ext.length
  cases h with
  | started _ h => exact .started _ (h.trans length)
  | changing h hm => exact .changing (h.trans length) (ext.maps _ hm)
  | fetched h hm hn => exact .fetched (h.trans length) (ext.maps _ hm) hn
  | missed first last hn missing =>
    exact .missed first (last.trans length) hn (by rw [ext.registeredAt last,missing])
  | iterating first order last hn missing =>
    exact .iterating first order (last.trans length) hn
      (by rw [ext.registeredAt (order.trans last),missing])
  | changed h last => exact .changed h (last.trans length)
  | answered h last outcome => exact .answered h (last.trans length) (outcome.mono ext last)

end Extension

structure Inv (s : State) : Prop where
  lookup : ∀ t i, s.handler.lookup t i = registered s.calls t i
  mapped : ∀ r, .register r ∈ s.calls → (s.handler.serverTypeSetMap r.getSvrType).isSome
  known : ∀ c inv, s.invocations c = some inv → Known s inv.start inv.operation inv.phase

def Phase.Running : Phase → Prop
  | .returned _ _ => False
  | _ => True

/-! ### What a step does -/

/-- A call begins, or has an access that others do not see, or takes effect, or answers. -/
inductive Move (s : State) : State → Prop where
  | invoke {c : InvocationId} (operation : Operation) (new : s.invocations c = none) :
      Move s (s.setInvocation c ⟨operation,s.history.length,.started⟩)
  | advance (handler : Handler) {c : InvocationId} {inv : Invocation} {phase : Phase}
      (hc : s.invocations c = some inv) (running : inv.phase.Running)
      (lookup : ∀ t i, handler.lookup t i = s.handler.lookup t i)
      (maps : ∀ t, (s.handler.serverTypeSetMap t).isSome → (handler.serverTypeSetMap t).isSome)
      (next : phase.Running) (known : Known (s.setHandler handler) inv.start inv.operation phase) :
      Move s ((s.setHandler handler).setPhase c inv phase)
  | change (handler : Handler) {c : InvocationId} {inv : Invocation} {call : Call}
      (hc : s.invocations c = some inv) (running : inv.phase.Running)
      (operation : inv.operation = .change call) (start : inv.start ≤ s.history.length)
      (lookup : ∀ t i, handler.lookup t i =
        if call.event.key = (t,i) then call.event.value else s.handler.lookup t i)
      (maps : ∀ t, (s.handler.serverTypeSetMap t).isSome → (handler.serverTypeSetMap t).isSome)
      (mapped : ∀ r, call = .register r → (handler.serverTypeSetMap r.getSvrType).isSome) :
      Move s (((s.setHandler handler).log c call).finish c inv (.ok none))
  | answer {c : InvocationId} {inv : Invocation} {q : GetServiceInfoReq}
      {result : Except Throwable (Option GetServiceInfoResp)} (hc : s.invocations c = some inv)
      (running : inv.phase.Running) (operation : inv.operation = .getServiceInfo q)
      (start : inv.start ≤ s.history.length)
      (outcome : Outcome s inv.start s.history.length q result) : Move s (s.finish c inv result)

section Steps
variable {s t : State}

theorem State.registeredAt_length (s : State) (t : ServerType) (i : BitVec 32) :
    s.registeredAt s.history.length t i = registered s.calls t i := by
  rw [State.registeredAt,←s.calls_length,List.take_length]

/-- An access that changes no map. -/
theorem Move.read {c : InvocationId} {inv : Invocation} {phase : Phase}
    (hc : s.invocations c = some inv) (running : inv.phase.Running) (next : phase.Running)
    (known : Known s inv.start inv.operation phase) : Move s (s.setPhase c inv phase) :=
  .advance s.handler hc running (fun _ _ => rfl) (fun _ => id) next known

theorem foundInfo_eq {q : GetServiceInfoReq} {number : BitVec 32}
    (hn : q.getSvrType.getNumber = .ok number) (r : Register) :
    (foundInfo q r).map some = .ok (some ⟨number,q.svrId,r.host,r.port⟩) := by
  simp only [foundInfo,hn]
  rfl

theorem Known.start_le {start : ℕ} {operation : Operation} {phase : Phase}
    (h : Known s start operation phase) : start ≤ s.history.length := by
  cases h with
  | started _ h => exact h
  | changing h _ => exact h
  | fetched h _ _ => exact h
  | missed first last _ _ => exact first.trans last
  | iterating first order last _ _ => exact first.trans (order.trans last)
  | changed h last => exact h.le.trans last
  | answered h last _ => exact h.trans last

theorem unmapped_never (hi : Inv s) {type : ServerType}
    (hm : s.handler.serverTypeSetMap type = none) :
    ∀ r, .register r ∈ s.calls → r.getSvrType ≠ type := by
  rintro r hr rfl
  have mapped := hi.mapped r hr
  rw [hm] at mapped
  cases mapped

theorem register_getMap_move {c : InvocationId} {r : Register} {start : ℕ}
    (hc : s.invocations c = some ⟨.change (.register r),start,.started⟩)
    (h : start ≤ s.history.length)
    (hs : s.getMap c ⟨.change (.register r),start,.started⟩ = some t) : Move s t := by
  cases hs
  refine .advance _ hc trivial (computeIfAbsent_lookup _ _) ?_ trivial (.changing h ?_)
  · intro type present
    rw [computeIfAbsent_map]
    split_ifs
    · rfl
    · exact present
  · change ((computeIfAbsent _ r.getSvrType).serverTypeSetMap r.getSvrType).isSome
    rw [computeIfAbsent_map,if_pos rfl]
    rfl

/-- With no map of its type the call takes effect at once, and changes nothing. -/
theorem unregister_getMap_move {c : InvocationId} {u : Unregister} {start : ℕ}
    (hc : s.invocations c = some ⟨.change (.unregister u),start,.started⟩)
    (h : start ≤ s.history.length)
    (hs : s.getMap c ⟨.change (.unregister u),start,.started⟩ = some t) : Move s t := by
  cases hm : s.handler.serverTypeSetMap u.getSvrType with
  | none =>
    simp only [State.getMap,hm,Option.some.injEq] at hs
    subst hs
    refine .change s.handler hc trivial rfl h ?_ (fun _ => id) (fun _ eq => by cases eq)
    intro type i
    change _ = if (u.getSvrType,u.svrId) = (type,i) then none else _
    split_ifs with same
    · obtain ⟨rfl,rfl⟩ := Prod.mk.inj same
      rw [Handler.lookup,hm]
      rfl
    · rfl
  | some serverMap =>
    simp only [State.getMap,hm,Option.some.injEq] at hs
    subst hs
    refine .read hc trivial trivial (.changing h ?_)
    exact Option.isSome_iff_exists.mpr ⟨serverMap,hm⟩

theorem getServiceInfo_getMap_move (hi : Inv s) {c : InvocationId} {q : GetServiceInfoReq}
    {start : ℕ} (hc : s.invocations c = some ⟨.getServiceInfo q,start,.started⟩)
    (h : start ≤ s.history.length)
    (hs : s.getMap c ⟨.getServiceInfo q,start,.started⟩ = some t) : Move s t := by
  cases hm : s.handler.serverTypeSetMap q.getSvrType with
  | none =>
    simp only [State.getMap,hm,Option.some.injEq] at hs
    subst hs
    refine .answer hc trivial rfl h (.unknown h le_rfl ?_)
    exact fun r hr => unmapped_never hi hm r (List.mem_of_mem_take hr)
  | some serverMap =>
    cases hn : q.getSvrType.getNumber with
    | error e =>
      simp only [State.getMap,hm,hn,Option.some.injEq] at hs
      subst hs
      exact .answer hc trivial rfl h (.unnumbered hn)
    | ok number =>
      simp only [State.getMap,hm,hn,Option.some.injEq] at hs
      subst hs
      refine .read hc trivial trivial (.fetched h ?_ hn)
      exact Option.isSome_iff_exists.mpr ⟨serverMap,hm⟩

theorem getMap_move (hi : Inv s) {c : InvocationId} {inv : Invocation}
    (hc : s.invocations c = some inv) (hs : s.getMap c inv = some t) : Move s t := by
  obtain ⟨operation,start,phase⟩ := inv
  have h := (hi.known c _ hc).start_le
  cases phase with
  | started =>
    cases operation with
    | change call =>
      cases call with
      | register r => exact register_getMap_move hc h hs
      | unregister u => exact unregister_getMap_move hc h hs
    | getServiceInfo q => exact getServiceInfo_getMap_move hi hc h hs
  | fetched | missed | iterating | returned => simp [State.getMap] at hs

theorem access_move (hi : Inv s) {c : InvocationId} {inv : Invocation}
    (hc : s.invocations c = some inv) (hs : s.access c inv = some t) : Move s t := by
  obtain ⟨operation,start,phase⟩ := inv
  have known := hi.known c _ hc
  cases phase with
  | fetched =>
    cases known with
    | @changing call h hm =>
      cases hs
      refine .change _ hc trivial rfl h (modify_lookup hm) ?_ ?_
      · intro type present
        cases call <;> exact (onMap_isSome _ _ _ _).trans present
      · rintro r rfl
        exact (onMap_isSome _ _ _ _).trans hm
    | @fetched q number h hm hn =>
      obtain ⟨serverMap,hm⟩ := Option.isSome_iff_exists.mp hm
      have now := hi.lookup q.getSvrType q.svrId
      rw [lookup_eq hm,←s.registeredAt_length] at now
      cases hl : serverMap.lookup q.svrId with
      | some r =>
        simp only [State.access,hm,hl,Option.map_some,Option.some.injEq] at hs
        subst hs
        rw [foundInfo_eq hn]
        exact .answer hc trivial rfl h (.found h le_rfl hn (by rw [←now,hl]))
      | none =>
        simp only [State.access,hm,hl,Option.map_some,Option.some.injEq] at hs
        subst hs
        exact .read hc trivial trivial (.missed h le_rfl hn (by rw [←now,hl]))
  | started | missed | iterating | returned => simp [State.access] at hs

theorem iterator_move (hi : Inv s) {c : InvocationId} {inv : Invocation}
    (hc : s.invocations c = some inv) (hs : s.iterator c inv = some t) : Move s t := by
  obtain ⟨operation,start,phase⟩ := inv
  cases phase with
  | missed =>
    cases hi.known c _ hc with
    | missed first last hn missing =>
      cases hs
      exact .read hc trivial trivial (.iterating first last le_rfl hn missing)
  | started | fetched | iterating | returned => simp [State.iterator] at hs

theorem next_move (hi : Inv s) {c : InvocationId} {inv : Invocation} {register : Option Register}
    (hc : s.invocations c = some inv) (hs : s.next c inv register = some t) : Move s t := by
  obtain ⟨operation,start,phase⟩ := inv
  cases phase with
  | iterating since =>
    cases hi.known c _ hc with
    | @iterating q n _ number first order last hn missing =>
      have h : start ≤ s.history.length := first.trans (order.trans last)
      cases register with
      | some r =>
        obtain ⟨held,eq⟩ := Option.ite_none_right_eq_some.mp hs
        cases eq
        obtain ⟨m,hm,later,hr⟩ := held
        rw [s.calls_length] at hm
        rw [foundInfo_eq hn]
        exact .answer hc trivial rfl h (.substitute first (order.trans later) hm hn missing hr)
      | none =>
        obtain ⟨each,eq⟩ := Option.ite_none_right_eq_some.mp hs
        cases eq
        refine .answer hc trivial rfl h (.exhausted hn ?_)
        intro i
        cases hr : registered s.calls q.getSvrType i with
        | none => exact ⟨_,h,le_rfl,by rw [s.registeredAt_length,hr]⟩
        | some r =>
          obtain ⟨mem,type,rfl⟩ := registered_labels hr
          obtain ⟨m,hm,later,held⟩ := each _ mem type
          rw [s.calls_length] at hm
          exact ⟨m,first.trans (order.trans later),hm,held⟩
  | started | fetched | missed | returned => simp [State.next] at hs

theorem step_move {a : Action} (hi : Inv s) (hs : step s a = some t) : Move s t := by
  cases a with
  | invoke c operation =>
    cases hc : s.invocations c with
    | none =>
      simp only [step,hc,Option.some.injEq] at hs
      subst hs
      exact .invoke operation hc
    | some inv => simp [step,hc] at hs
  | getMap c =>
    obtain ⟨inv,hc,hs⟩ := Option.bind_eq_some_iff.mp hs
    exact getMap_move hi hc hs
  | access c =>
    obtain ⟨inv,hc,hs⟩ := Option.bind_eq_some_iff.mp hs
    exact access_move hi hc hs
  | iterator c =>
    obtain ⟨inv,hc,hs⟩ := Option.bind_eq_some_iff.mp hs
    exact iterator_move hi hc hs
  | next c register =>
    obtain ⟨inv,hc,hs⟩ := Option.bind_eq_some_iff.mp hs
    exact next_move hi hc hs

theorem Move.extends (h : Move s t) : Extends s t := by
  cases h with
  | invoke _ _ => exact ⟨List.prefix_rfl,fun _ => id⟩
  | advance _ _ _ _ maps _ _ => exact ⟨List.prefix_rfl,maps⟩
  | change _ _ _ _ _ _ maps _ => exact ⟨List.prefix_append _ _,maps⟩
  | answer _ _ _ _ _ => exact ⟨List.prefix_rfl,fun _ => id⟩

/-- The invocations that a step leaves alone stay known. -/
theorem known_update (hi : Inv s) (ext : Extends s t) {c : InvocationId} {new : Invocation}
    (eq : t.invocations = Function.update s.invocations c (some new))
    (hn : Known t new.start new.operation new.phase) (d : InvocationId) (inv : Invocation)
    (hd : t.invocations d = some inv) : Known t inv.start inv.operation inv.phase := by
  rw [eq] at hd
  by_cases h : d = c
  · subst h
    rw [Function.update_self] at hd
    cases hd
    exact hn
  · rw [Function.update_of_ne h] at hd
    exact (hi.known d inv hd).mono ext

theorem Move.inv (hi : Inv s) (h : Move s t) : Inv t := by
  have ext := h.extends
  cases h with
  | invoke operation _ =>
    exact ⟨hi.lookup,hi.mapped,known_update hi ext rfl (.started _ le_rfl)⟩
  | advance _ _ _ lookup maps _ known =>
    refine ⟨?_,fun r hr => maps _ (hi.mapped r hr),?_⟩
    · intro type i
      exact (lookup type i).trans (hi.lookup type i)
    · exact known_update hi ext rfl (known.mono ⟨List.prefix_rfl,fun _ => id⟩)
  | @change handler c inv call _ _ operation start lookup maps mapped =>
    have calls : State.calls (((s.setHandler handler).log c call).finish c inv (.ok none)) =
      s.calls ++ [call] := List.map_append
    have length : (s.history ++ [(c,call)]).length = s.history.length+1 := List.length_append
    refine ⟨?_,?_,?_⟩
    · intro type i
      rw [calls,registered_snoc,←hi.lookup]
      exact lookup type i
    · intro r hr
      rw [calls] at hr
      rcases List.mem_append.mp hr with hr | hr
      · exact maps _ (hi.mapped r hr)
      · exact mapped r (List.mem_singleton.mp hr).symm
    · refine known_update hi ext rfl ?_
      rw [operation]
      exact .changed ((Nat.lt_succ_of_le start).trans_eq length.symm) le_rfl
  | @answer c inv q result _ _ operation start outcome =>
    refine ⟨hi.lookup,hi.mapped,known_update hi ext rfl ?_⟩
    rw [operation]
    exact .answered start le_rfl (outcome.mono ext le_rfl)

theorem inv_init : Inv machine.init where
  lookup _ _ := rfl
  mapped r hr := by cases hr
  known c inv hc := by cases hc

theorem inv_run {as : List Action} (h : Run machine machine.init as s) : Inv s :=
  h.invariant (I := Inv) (fun _ _ _ hi hs => (step_move hi hs).inv hi) inv_init

end Steps

/-! ### No call waits for another -/

def Action.invocation : Action → InvocationId
  | invoke c _ | getMap c | access c | iterator c | next c _ => c

/-- The actions of a call up to the phase it is in. -/
def Phase.rank : Phase → ℕ
  | .started => 1
  | .fetched => 2
  | .missed => 3
  | .iterating _ => 4
  | .returned _ _ => 5

def State.rank (s : State) (c : InvocationId) : ℕ :=
  (s.invocations c).elim 0 (fun inv => inv.phase.rank)

/-- The actions of one call in a run; the first one invokes it. -/
def own (c : InvocationId) (as : List Action) : List Action :=
  as.filter (fun a => a.invocation = c)

section Own
variable {s t : State} {c : InvocationId}

theorem getMap_rank {inv : Invocation} (hs : s.getMap c inv = some t) : ∃ new,
    t.invocations = Function.update s.invocations c (some new) ∧
      inv.phase.rank < new.phase.rank := by
  obtain ⟨operation,start,phase⟩ := inv
  simp only [State.getMap] at hs
  split at hs
  · cases hs
    exact ⟨_,rfl,by simp [Phase.rank]⟩
  · split at hs <;> cases hs <;> exact ⟨_,rfl,by simp [Phase.rank]⟩
  · split at hs
    · cases hs
      exact ⟨_,rfl,by simp [Phase.rank]⟩
    · split at hs <;> cases hs <;> exact ⟨_,rfl,by simp [Phase.rank]⟩
  · cases hs

theorem access_rank {inv : Invocation} (hs : s.access c inv = some t) : ∃ new,
    t.invocations = Function.update s.invocations c (some new) ∧
      inv.phase.rank < new.phase.rank := by
  obtain ⟨operation,start,phase⟩ := inv
  simp only [State.access] at hs
  split at hs
  · cases hs
    exact ⟨_,rfl,by simp [Phase.rank]⟩
  · obtain ⟨serverMap,_,rfl⟩ := Option.map_eq_some_iff.mp hs
    split <;> exact ⟨_,rfl,by simp [Phase.rank]⟩
  · cases hs

theorem iterator_rank {inv : Invocation} (hs : s.iterator c inv = some t) : ∃ new,
    t.invocations = Function.update s.invocations c (some new) ∧
      inv.phase.rank < new.phase.rank := by
  obtain ⟨operation,start,phase⟩ := inv
  simp only [State.iterator] at hs
  split at hs
  · cases hs
    exact ⟨_,rfl,by simp [Phase.rank]⟩
  · cases hs

theorem next_rank {inv : Invocation} {register : Option Register}
    (hs : s.next c inv register = some t) : ∃ new,
    t.invocations = Function.update s.invocations c (some new) ∧
      inv.phase.rank < new.phase.rank := by
  obtain ⟨operation,start,phase⟩ := inv
  simp only [State.next] at hs
  split at hs
  · obtain ⟨_,eq⟩ := Option.ite_none_right_eq_some.mp hs
    cases eq
    exact ⟨_,rfl,by simp [Phase.rank]⟩
  · obtain ⟨_,eq⟩ := Option.ite_none_right_eq_some.mp hs
    cases eq
    exact ⟨_,rfl,by simp [Phase.rank]⟩
  · cases hs

/-- A step changes the call that takes it alone, and takes it to a later phase. -/
theorem step_rank {a : Action} (hs : step s a = some t) :
    (∀ d, d ≠ a.invocation → t.invocations d = s.invocations d) ∧
      s.rank a.invocation < t.rank a.invocation := by
  have moved : ∃ new, t.invocations = Function.update s.invocations a.invocation (some new) ∧
      s.rank a.invocation < new.phase.rank := by
    have running : ∀ {c : InvocationId} {inv : Invocation}, s.invocations c = some inv →
        (∃ new, t.invocations = Function.update s.invocations c (some new) ∧
          inv.phase.rank < new.phase.rank) →
        ∃ new, t.invocations = Function.update s.invocations c (some new) ∧
          s.rank c < new.phase.rank := by
      rintro c inv hc ⟨new,eq,lt⟩
      refine ⟨new,eq,?_⟩
      rw [State.rank,hc]
      exact lt
    cases a with
    | invoke c operation =>
      simp only [step] at hs
      split at hs
      · rename_i new
        cases hs
        refine ⟨_,rfl,?_⟩
        change s.rank c < 1
        rw [State.rank,new]
        exact Nat.one_pos
      · cases hs
    | getMap c =>
      obtain ⟨inv,hc,hs⟩ := Option.bind_eq_some_iff.mp hs
      exact running hc (getMap_rank hs)
    | access c =>
      obtain ⟨inv,hc,hs⟩ := Option.bind_eq_some_iff.mp hs
      exact running hc (access_rank hs)
    | iterator c =>
      obtain ⟨inv,hc,hs⟩ := Option.bind_eq_some_iff.mp hs
      exact running hc (iterator_rank hs)
    | next c register =>
      obtain ⟨inv,hc,hs⟩ := Option.bind_eq_some_iff.mp hs
      exact running hc (next_rank hs)
  obtain ⟨new,eq,lt⟩ := moved
  rw [eq]
  refine ⟨fun d hd => Function.update_of_ne hd _ _,?_⟩
  rw [State.rank.eq_def t,eq,Function.update_self]
  exact lt

theorem own_run {as : List Action} (h : Run machine machine.init as s) (c : InvocationId) :
    (own c as).length ≤ s.rank c := by
  refine h.rec_last (P := fun as s => (own c as).length ≤ s.rank c) (Nat.zero_le _) ?_
  intro as t a u _ ih hs
  obtain ⟨others,later⟩ := step_rank hs
  unfold own at ih ⊢
  rw [List.filter_append]
  by_cases same : a.invocation = c
  · subst same
    rw [List.filter_cons_of_pos (by simp),List.filter_nil,List.length_append]
    exact Nat.succ_le_of_lt (ih.trans_lt later)
  · rw [List.filter_cons_of_neg (by simpa using same),List.filter_nil,List.append_nil,State.rank,
      others c (Ne.symm same)]
    exact ih

/-- A call that has not returned has made three accesses at most. -/
theorem own_running {as : List Action} (h : Run machine machine.init as s) {inv : Invocation}
    (hc : s.invocations c = some inv) (running : inv.phase.Running) :
    (own c as).length ≤ 4 := by
  have bound := own_run h c
  rw [State.rank,hc] at bound
  refine bound.trans ?_
  change inv.phase.rank ≤ 4
  obtain ⟨operation,start,phase⟩ := inv
  cases phase with
  | returned result finish => exact running.elim
  | _ => simp [Phase.rank]

end Own

section Progress
variable {s : State} {c : InvocationId} {start : ℕ}

theorem held_now (s : State) {since : ℕ} (h : since ≤ s.history.length) {type : ServerType}
    {i : BitVec 32} {value : Option Register} (hv : registered s.calls type i = value) :
    Held s.calls since type i value := by
  exact ⟨_,le_rfl,h.trans_eq s.calls_length.symm,by rw [List.take_length,hv]⟩

theorem started_enabled (s : State) (c : InvocationId) (operation : Operation) (start : ℕ) :
    (s.getMap c ⟨operation,start,.started⟩).isSome := by
  cases operation with
  | change call =>
    cases call with
    | register r => rfl
    | unregister u => cases hm : s.handler.serverTypeSetMap u.getSvrType <;> simp [State.getMap,hm]
  | getServiceInfo q =>
    cases hm : s.handler.serverTypeSetMap q.getSvrType with
    | none => simp [State.getMap,hm]
    | some serverMap => cases hn : q.getSvrType.getNumber <;> simp [State.getMap,hm,hn]

/-- The iterator has a value to return, or there was a moment without any. -/
theorem iterating_enabled (s : State) (c : InvocationId) (q : GetServiceInfoReq) (start : ℕ)
    {since : ℕ} (h : since ≤ s.history.length) :
    ∃ register, (s.next c ⟨.getServiceInfo q,start,.iterating since⟩ register).isSome := by
  by_cases empty : ∀ i, registered s.calls q.getSvrType i = none
  · refine ⟨none,?_⟩
    simp only [State.next]
    rw [if_pos (fun call _ _ => held_now s h (empty _))]
    rfl
  · obtain ⟨i,present⟩ := not_forall.mp empty
    obtain ⟨r,hr⟩ := Option.ne_none_iff_exists'.mp present
    obtain ⟨_,_,rfl⟩ := registered_labels hr
    refine ⟨some r,?_⟩
    simp only [State.next]
    rw [if_pos (held_now s h hr)]
    rfl

/-- A call that has not returned can take its next step in every state. -/
theorem running_enabled (hi : Inv s) {inv : Invocation} (hc : s.invocations c = some inv)
    (running : inv.phase.Running) : ∃ a, a.invocation = c ∧ (step s a).isSome := by
  obtain ⟨operation,start,phase⟩ := inv
  cases hi.known c _ hc with
  | started _ _ =>
    refine ⟨.getMap c,rfl,?_⟩
    rw [step,hc]
    exact started_enabled s c operation start
  | changing _ _ =>
    refine ⟨.access c,rfl,?_⟩
    rw [step,hc]
    rfl
  | @fetched q _ _ hm _ =>
    refine ⟨.access c,rfl,?_⟩
    rw [step,hc]
    exact (Option.isSome_map ..).trans hm
  | missed _ _ _ _ =>
    refine ⟨.iterator c,rfl,?_⟩
    rw [step,hc]
    rfl
  | @iterating q _ _ _ _ _ last _ _ =>
    obtain ⟨register,some⟩ := iterating_enabled s c q start last
    refine ⟨.next c register,rfl,?_⟩
    rw [step,hc]
    exact some
  | changed _ _ => exact running.elim
  | answered _ _ _ => exact running.elim

end Progress

/-! ### A query finds a server that stays -/

/-- The moment up to which a call runs. -/
def State.until (s : State) : Phase → ℕ
  | .returned _ finish => finish
  | _ => s.history.length

/-- The answer has the address of a server of the type that was registered meanwhile: of the
    requested one if that is `i`. -/
theorem steady_outcome {s : State} {q : GetServiceInfoReq} {start finish : ℕ}
    {result : Except Throwable (Option GetServiceInfoResp)} (outcome : Outcome s start finish q result)
    (declared : q.getSvrType.Declared) {i : BitVec 32} (stays : ∀ n, start ≤ n → n ≤ finish →
      s.registeredAt n q.getSvrType i ≠ none) :
    ∃ resp n j r, result = .ok (some resp) ∧ resp.getSvrType = q.getSvrType ∧
      resp.svrId = q.svrId ∧ start ≤ n ∧ n ≤ finish ∧
      s.registeredAt n q.getSvrType j = some r ∧ resp.host = r.host ∧ resp.port = r.port ∧
      (i = q.svrId → j = i) := by
  obtain ⟨number,hn⟩ := ServerType.getNumber_declared declared
  cases outcome with
  | @unknown n first last never =>
    obtain ⟨r,hr⟩ := Option.ne_none_iff_exists'.mp (stays n first last)
    obtain ⟨mem,type,_⟩ := registered_labels hr
    exact absurd type (never r mem)
  | unnumbered he =>
    rw [hn] at he
    cases he
  | @found n r _ first last hn hr =>
    exact ⟨_,n,q.svrId,r,rfl,ServerType.ofRaw_getNumber hn,rfl,first,last,hr,rfl,rfl,Eq.symm⟩
  | @substitute n m r _ first order last hn missing hr =>
    refine ⟨_,m,r.svrId,r,rfl,ServerType.ofRaw_getNumber hn,rfl,first.trans order,last,hr,rfl,
      rfl,?_⟩
    rintro rfl
    exact absurd missing (stays n first (order.trans last))
  | exhausted _ missing =>
    obtain ⟨n,first,last,none⟩ := missing i
    exact absurd none (stays n first last)

/-- A query during which some server of the type stays registered never waits and never
    throws, whatever other calls do: with its fourth access at the latest, each of which it
    can take in every state, it returns the address of a server of the type that was
    registered meanwhile. -/
theorem steady_server_answered {as : List Action} {s : State} (h : Run machine machine.init as s)
    {c : InvocationId} {q : GetServiceInfoReq} {start : ℕ} {phase : Phase}
    (hc : s.invocations c = some ⟨.getServiceInfo q,start,phase⟩)
    (declared : q.getSvrType.Declared) {i : BitVec 32} (stays : ∀ n, start ≤ n →
      n ≤ s.until phase → s.registeredAt n q.getSvrType i ≠ none) :
    (phase.Running ∧ (own c as).length ≤ 4 ∧ ∃ a, a.invocation = c ∧ (step s a).isSome) ∨
    ∃ resp finish n j r, phase = .returned (.ok (some resp)) finish ∧
      resp.getSvrType = q.getSvrType ∧ resp.svrId = q.svrId ∧ start ≤ n ∧ n ≤ finish ∧
      s.registeredAt n q.getSvrType j = some r ∧ resp.host = r.host ∧ resp.port = r.port ∧
      (i = q.svrId → j = i) := by
  have hi := inv_run h
  have running : phase.Running →
      phase.Running ∧ (own c as).length ≤ 4 ∧ ∃ a, a.invocation = c ∧ (step s a).isSome :=
    fun running => ⟨running,own_running h hc running,running_enabled hi hc running⟩
  cases hi.known c _ hc with
  | started | fetched | missed | iterating => exact .inl (running trivial)
  | answered _ _ outcome =>
    obtain ⟨resp,n,j,r,rfl,rest⟩ := steady_outcome outcome declared stays
    exact .inr ⟨resp,_,n,j,r,rfl,rest⟩

def accessFive : Register := { accessOne with svrId := 5, port := 9005 }

/-- The server 5 registers between two accesses of a query for it. -/
def overlapping : List Action :=
  [.invoke 0 (.change (.register accessOne)),.getMap 0,.access 0,
    .invoke 1 (.getServiceInfo ⟨2,5⟩),.getMap 1,.access 1,
    .invoke 2 (.change (.register accessFive)),.getMap 2,.access 2,
    .iterator 1,.next 1 (some accessOne)]

def overlapped : State := endOf machine machine.init overlapping rfl

theorem overlapping_answered : ∃ (resp : GetServiceInfoResp) (finish n : ℕ) (j : BitVec 32)
    (r : Register), Phase.returned (.ok (some ⟨2,5,accessOne.host,9000⟩)) 2 =
      .returned (.ok (some resp)) finish ∧ resp.getSvrType = .access ∧ resp.svrId = 5 ∧ 1 ≤ n ∧
      n ≤ finish ∧ overlapped.registeredAt n .access j = some r ∧ resp.host = r.host ∧
      resp.port = r.port ∧ ((1 : BitVec 32) = 5 → j = 1) := by
  have run : Run machine machine.init overlapping overlapped := run_endOf rfl
  have answered := steady_server_answered run (c := 1) (q := ⟨2,5⟩) rfl (by decide) (i := 1)
    (by decide)
  exact answered.resolve_left (fun still => still.1)

end SeeU.DiscoverConcurrent
