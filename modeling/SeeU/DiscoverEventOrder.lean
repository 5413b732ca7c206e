import SeeU.DiscoverEventLoops
import SeeU.RequestNetwork

set_option autoImplicit false

/-!
# The changes of one connection

A connection is read by one event loop, so the changes that its requests make take effect
in the order of the messages, whatever the other event loops do meanwhile.
-/
namespace SeeU.DiscoverNetwork
open WireFormat DiscoverMsg DiscoverConcurrent RequestNetwork
open DiscoverHandler (Call)

/-- The messages that a step takes. -/
def Event.taken {C : Type} : Event C → List (C × Bytes)
  | read c buf => [(c,buf)]
  | access | write _ _ => []

def changes (log : List Bytes) : List Call :=
  log.filterMap (fun buf => (received buf).bind (fun message => callOf message.2))

theorem changes_append (log log' : List Bytes) :
    changes (log ++ log') = changes log ++ changes log' :=
  List.filterMap_append

theorem changes_singleton (buf : Bytes) : changes [buf] =
    ((received buf).bind (fun message => callOf message.2)).toList := by
  unfold changes
  cases h : (received buf).bind (fun message => callOf message.2) <;> simp [h]

section Order
variable {C : Type} {s t : EventLoops C} {e : Event C} {log : List (C × Bytes)}

namespace EventLoops

/-- The changes that the requests of a connection have made, in this order. -/
def effects [DecidableEq C] (s : EventLoops C) (c : C) : List Call :=
  (s.handler.history.filter (fun e => (s.source e.1).map Prod.fst = some c)).map Prod.snd

/-- The change that the event loop of a connection is about to make. -/
def underWay (s : EventLoops C) (c : C) : List Call :=
  (s.handling c).elim [] (fun handled => (s.handler.invocations handled.1).elim [] pending)

end EventLoops

theorem underWay_idle {c : C} (h : s.handling c = none) : s.underWay c = [] := by
  rw [EventLoops.underWay,h]
  rfl

theorem underWay_handling {c : C} {i : InvocationId} {req : Request} {inv : Invocation}
    (h : s.handling c = some (i,req)) (hi : s.handler.invocations i = some inv) :
    s.underWay c = pending inv := by
  rw [EventLoops.underWay,h]
  change (s.handler.invocations i).elim [] pending = _
  rw [hi]
  rfl

theorem underWay_congr {c : C} (handling : t.handling c = s.handling c)
    (same : ∀ i req, s.handling c = some (i,req) →
      t.handler.invocations i = s.handler.invocations i) : t.underWay c = s.underWay c := by
  unfold EventLoops.underWay
  rw [handling]
  cases h : s.handling c with
  | none => rfl
  | some handled =>
    change (t.handler.invocations handled.1).elim [] pending = _
    rw [same handled.1 handled.2 h]
    rfl

variable [DecidableEq C]

/-- The changes of a connection are made in the order of its messages. -/
def InOrder (s : EventLoops C) (log : List (C × Bytes)) : Prop :=
  ∀ c, s.effects c ++ s.underWay c = changes (on c log)

theorem inOrder_start : InOrder (EventLoops.start : EventLoops C) [] := fun _ => rfl

theorem effects_congr (history : t.handler.history = s.handler.history)
    (source : ∀ i call, (i,call) ∈ s.handler.history → t.source i = s.source i) (c : C) :
    t.effects c = s.effects c := by
  unfold EventLoops.effects
  rw [history]
  congr 1
  apply List.filter_congr
  rintro ⟨i,call⟩ he
  rw [source i call he]

theorem InOrder.ignore (h : InOrder s log) {c : C} {buf : Bytes} (hb : received buf = none) :
    InOrder s (log ++ [(c,buf)]) := by
  intro d
  rw [on_append,changes_append,h d]
  have silent : changes (on d [(c,buf)]) = [] := by
    by_cases hd : c = d
    · subst hd
      rw [on_self,changes_singleton,hb]
      rfl
    · rw [on_of_ne d hd]
      rfl
  rw [silent,List.append_nil]

theorem InOrder.invoke (h : InOrder s log) (hi : s.Inv) {c : C} {buf : Bytes} {i : InvocationId}
    {req : Request} {operation : Operation} (idle : s.handling c = none)
    (hb : received buf = some (req,operation)) (new : s.handler.invocations i = none) :
    InOrder (s.enter c i req
      (s.handler.setInvocation i ⟨operation,s.handler.history.length,.started⟩))
      (log ++ [(c,buf)]) := by
  have known {j : InvocationId} {x : C × Request} (hj : s.source j = some x) : j ≠ i := by
    rintro rfl
    rw [hi.new j new] at hj
    cases hj
  intro d
  rw [on_append,changes_append,←h d,List.append_assoc]
  congr 1
  · apply effects_congr
    · rfl
    intro j call hj
    obtain ⟨d',req',source,_⟩ := hi.history j call hj
    exact Function.update_of_ne (known source) _ _
  · by_cases hd : d = c
    · subst hd
      rw [underWay_idle idle,underWay_handling (Function.update_self ..) (Function.update_self ..),
        on_self,List.nil_append,changes_singleton,hb]
      rfl
    · rw [on_of_ne d (Ne.symm hd)]
      refine (underWay_congr (Function.update_of_ne hd _ _) ?_).trans (List.append_nil _).symm
      intro j req' hj
      exact Function.update_of_ne (known (hi.handled d j req' hj)) _ _

/-- A call takes effect on the connection of its request. -/
theorem effects_access {handler : State} {i : InvocationId} {inv new : Invocation}
    (ha : Accessed s.handler handler i inv new) {d : C} {req : Request}
    (source : s.source i = some (d,req)) (c : C) :
    (s.setHandler handler).effects c = s.effects c ++ if d = c then made new else [] := by
  unfold EventLoops.effects EventLoops.setHandler
  dsimp only
  rw [ha.history,List.filter_append,List.map_append]
  congr 1
  split_ifs with hd
  · subst hd
    rw [List.filter_eq_self.mpr]
    · rw [List.map_map]
      exact List.map_id _
    · rintro e he
      obtain ⟨call,_,rfl⟩ := List.mem_map.mp he
      simp [source]
  · rw [List.filter_eq_nil_iff.mpr]
    · rfl
    · rintro e he
      obtain ⟨call,_,rfl⟩ := List.mem_map.mp he
      simpa [source] using hd

theorem InOrder.access (h : InOrder s log) (hi : s.Inv) {handler : State} {i : InvocationId}
    {inv new : Invocation} (ha : Accessed s.handler handler i inv new) :
    InOrder (s.setHandler handler) log := by
  obtain ⟨d,req,source,_⟩ := hi.traced i inv ha.before
  have handling := hi.running i inv d req ha.before ha.running source
  intro c
  rw [←h c,effects_access ha source,List.append_assoc]
  congr 1
  by_cases hd : d = c
  · subst hd
    have now : (s.setHandler handler).underWay d = pending new := underWay_handling handling ha.self
    rw [if_pos rfl,now,made_pending,underWay_handling handling ha.before,
      pending_running ha.running,ha.operation]
  · rw [if_neg hd,List.nil_append]
    refine underWay_congr rfl ?_
    intro j req' hj
    apply ha.of_ne
    rintro rfl
    have own := hi.handled c j req' hj
    rw [source] at own
    cases own
    exact hd rfl

theorem InOrder.write (h : InOrder s log) {c : C} {i : InvocationId} {req : Request}
    {inv : Invocation} (handled : s.handling c = some (i,req))
    (hj : s.handler.invocations i = some inv) (ended : pending inv = []) :
    InOrder (s.leave c) log := by
  intro d
  rw [←h d]
  congr 1
  by_cases hd : d = c
  · subst hd
    rw [underWay_idle (Function.update_self ..),underWay_handling handled hj,ended]
  · exact underWay_congr (Function.update_of_ne hd _ _) (fun _ _ _ => rfl)

theorem Turn.inOrder (hi : s.Inv) (h : Turn s e t) (ho : InOrder s log) :
    InOrder t (log ++ e.taken) := by
  cases h with
  | ignore idle hb => exact ho.ignore hb
  | invoke idle hb new => exact ho.invoke hi idle hb new
  | access _ ha =>
    rw [Event.taken,List.append_nil]
    exact ho.access hi ha
  | write handled hj ended =>
    rw [Event.taken,List.append_nil]
    refine ho.write handled hj ?_
    rw [pending,ended]

end Order

end SeeU.DiscoverNetwork
