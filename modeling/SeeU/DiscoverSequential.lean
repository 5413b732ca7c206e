import SeeU.DiscoverLinearizable

set_option autoImplicit false

/-!
# `DiscoverHandler` on one thread

A call that no other overlaps is a call of the method. So whatever one thread can do and
see with the handler, the threads can as well, with one call after the other.
-/
namespace SeeU.DiscoverConcurrent
open WireFormat DiscoverMsg DiscoverHandler TransitionSystem Linearizability

/-! ### A call on its own -/

def State.ended (s : State) (c : InvocationId) (operation : Operation) (start : ℕ)
    (handler : Handler) (history : List (InvocationId × Call))
    (result : Except Throwable (Option GetServiceInfoResp)) : State :=
  ⟨handler,history,
    Function.update s.invocations c (some ⟨operation,start,.returned result history.length⟩)⟩

/-- The steps of the call alone bring it to its end. -/
def Completes (s : State) (c : InvocationId) (operation : Operation) (start : ℕ)
    (handler : Handler) (history : List (InvocationId × Call))
    (result : Except Throwable (Option GetServiceInfoResp)) : Prop :=
  ∃ as, Run machine s as (s.ended c operation start handler history result)

section Accesses
variable {s u : State} {c : InvocationId} {operation : Operation} {start : ℕ}
  {handler : Handler} {history : List (InvocationId × Call)}
  {result : Except Throwable (Option GetServiceInfoResp)}

theorem Completes.cons {a : Action} {inv : Invocation} (hs : step s a = some u)
    (own : u.invocations = Function.update s.invocations c (some inv))
    (h : Completes u c operation start handler history result) :
    Completes s c operation start handler history result := by
  obtain ⟨as,run⟩ := h
  rw [State.ended,own,Function.update_idem] at run
  exact ⟨a :: as,.cons hs run⟩

theorem Completes.last {a : Action}
    (hs : step s a = some (s.ended c operation start handler history result)) :
    Completes s c operation start handler history result :=
  ⟨[a],.cons hs (.nil _)⟩

theorem invocations_own (s : State) (c : InvocationId) (inv : Invocation) :
    (s.setInvocation c inv).invocations c = some inv := Function.update_self ..

theorem step_getMap {inv : Invocation} (hc : s.invocations c = some inv) :
    step s (.getMap c) = s.getMap c inv := by
  rw [step,hc,Option.bind_some]

theorem step_access {inv : Invocation} (hc : s.invocations c = some inv) :
    step s (.access c) = s.access c inv := by
  rw [step,hc,Option.bind_some]

theorem step_iterator {inv : Invocation} (hc : s.invocations c = some inv) :
    step s (.iterator c) = s.iterator c inv := by
  rw [step,hc,Option.bind_some]

theorem step_next {inv : Invocation} (hc : s.invocations c = some inv)
    (register : Option Register) : step s (.next c register) = s.next c inv register := by
  rw [step,hc,Option.bind_some]

end Accesses

section Changes
variable {s : State} {c : InvocationId} {start : ℕ}

theorem fetched_completes {call : Call}
    (hc : s.invocations c = some ⟨.change call,start,.fetched⟩) : Completes s c (.change call)
      start (modify s.handler call) (s.history ++ [(c,call)]) (.ok none) :=
  .last (step_access hc)

theorem register_completes {r : Register}
    (hc : s.invocations c = some ⟨.change (.register r),start,.started⟩) :
    Completes s c (.change (.register r)) start (s.handler.register r)
      (s.history ++ [(c,.register r)]) (.ok none) := by
  refine .cons (step_getMap hc) rfl ?_
  rw [←modify_register]
  exact fetched_completes (invocations_own ..)

theorem unregister_completes {u : Unregister}
    (hc : s.invocations c = some ⟨.change (.unregister u),start,.started⟩) :
    Completes s c (.change (.unregister u)) start (s.handler.unregister u)
      (s.history ++ [(c,.unregister u)]) (.ok none) := by
  have getMap := step_getMap hc
  cases hm : s.handler.serverTypeSetMap u.getSvrType with
  | none =>
    simp only [State.getMap,hm] at getMap
    rw [unregister_of_none hm]
    exact .last getMap
  | some serverMap =>
    simp only [State.getMap,hm] at getMap
    rw [←modify_unregister]
    exact .cons getMap rfl (fetched_completes (invocations_own ..))

theorem change_completes {call : Call}
    (hc : s.invocations c = some ⟨.change call,start,.started⟩) : Completes s c (.change call)
      start (object.apply s.handler call) (s.history ++ [(c,call)]) (.ok none) := by
  cases call with
  | register r => exact register_completes hc
  | unregister u => exact unregister_completes hc

end Changes

section Queries
variable {s : State} {c : InvocationId} {q : GetServiceInfoReq} {start : ℕ}

theorem iterating_substitute {since : ℕ} {r : Register}
    (hc : s.invocations c = some ⟨.getServiceInfo q,start,.iterating since⟩)
    (h : since ≤ s.history.length) (hr : registered s.calls q.getSvrType r.svrId = some r) :
    Completes s c (.getServiceInfo q) start s.handler s.history ((foundInfo q r).map some) := by
  have next := step_next hc (some r)
  simp only [State.next] at next
  rw [if_pos (held_now s h hr)] at next
  exact .last next

theorem missed_substitute {r : Register}
    (hc : s.invocations c = some ⟨.getServiceInfo q,start,.missed⟩)
    (hr : registered s.calls q.getSvrType r.svrId = some r) :
    Completes s c (.getServiceInfo q) start s.handler s.history ((foundInfo q r).map some) :=
  .cons (step_iterator hc) rfl (iterating_substitute (invocations_own ..) le_rfl hr)

/-- The answer of the method while the maps are those of the history; a query that
    throws has no answer. -/
theorem fetched_answers {it : Iteration} {serverMap : ServerMap} {number : BitVec 32}
    {resp : GetServiceInfoResp} (hc : s.invocations c = some ⟨.getServiceInfo q,start,.fetched⟩)
    (current : ∀ t i, s.handler.lookup t i = registered s.calls t i)
    (hm : s.handler.serverTypeSetMap q.getSvrType = some serverMap)
    (hn : q.getSvrType.getNumber = .ok number)
    (answer : s.handler.getServiceInfo it q = .ok resp) :
    Completes s c (.getServiceInfo q) start s.handler s.history (.ok (some resp)) := by
  have access := step_access hc
  rcases findRegister_eq it serverMap q.svrId with
    ⟨r,found,requested | ⟨missing,i,other⟩⟩ | ⟨found,_⟩
  · simp only [State.access,hm,requested,Option.map_some,foundInfo_eq hn] at access
    rw [getServiceInfo_found hm hn found] at answer
    cases answer
    exact .last access
  · simp only [State.access,hm,missing,Option.map_some] at access
    rw [←lookup_eq hm,current] at other
    obtain ⟨_,_,rfl⟩ := registered_labels other
    rw [getServiceInfo_found hm hn found] at answer
    cases answer
    rw [←foundInfo_eq hn]
    exact .cons access rfl (missed_substitute (invocations_own ..) other)
  · obtain ⟨e,throws⟩ := getServiceInfo_emptied hm found
    rw [throws] at answer
    cases answer

theorem query_completes {it : Iteration} {resp : GetServiceInfoResp}
    (hc : s.invocations c = some ⟨.getServiceInfo q,start,.started⟩)
    (current : ∀ t i, s.handler.lookup t i = registered s.calls t i)
    (answer : s.handler.getServiceInfo it q = .ok resp) :
    Completes s c (.getServiceInfo q) start s.handler s.history (.ok (some resp)) := by
  have getMap := step_getMap hc
  cases hm : s.handler.serverTypeSetMap q.getSvrType with
  | none =>
    simp only [State.getMap,hm] at getMap
    rw [getServiceInfo_absent hm] at answer
    cases answer
    exact .last getMap
  | some serverMap =>
    cases hn : q.getSvrType.getNumber with
    | error e =>
      simp only [Handler.getServiceInfo,hm,hn] at answer
      cases answer
    | ok number =>
      simp only [State.getMap,hm,hn] at getMap
      exact .cons getMap rfl (fetched_answers (invocations_own ..) current hm hn answer)

end Queries

/-! ### One call after the other -/

/-- The run has made the calls of the order one after the other, and nothing else. -/
structure Realizes (as : List Action) (s : State) (order : List Completion) : Prop where
  run : Run machine machine.init as s
  handler : s.handler = object.after object.init ((changes order).map Prod.snd)
  history : s.history = changes order
  invocations : ∀ c, s.invocations c = none ↔ c ∉ order.map Entry.call
  completed : ∀ e, e ∈ order ↔ Completed s e
  apart : order.Pairwise (fun e e' => Precedes as e.call e'.call)

section Order
variable {as : List Action} {s : State} {order : List Completion} {c : InvocationId}

theorem Extends.trans {t u : State} (h : Extends s t) (h' : Extends t u) : Extends s u :=
  ⟨h.history.trans h'.history,fun type present => h'.maps type (h.maps type present)⟩

theorem extends_run {bs : List Action} {t : State} (hi : Inv s) (h : Run machine s bs t) :
    Extends s t := by
  induction h with
  | nil s => exact ⟨List.prefix_rfl,fun _ => id⟩
  | cons hs _ ih =>
    have move := step_move hi hs
    exact move.extends.trans (ih (move.inv hi))

theorem Precedes.append {b : InvocationId} (h : Precedes as b c) (bs : List Action) :
    Precedes (as ++ bs) b c := by
  obtain ⟨cs,ds,u,rfl,run,returned,new⟩ := h
  exact ⟨cs,ds ++ bs,u,List.append_assoc ..,run,returned,new⟩

theorem Realizes.nil : Realizes [] machine.init [] where
  run := .nil _
  handler := rfl
  history := rfl
  invocations c := iff_of_true rfl List.not_mem_nil
  completed e := by
    refine iff_of_false List.not_mem_nil ?_
    rintro ⟨_,none,_⟩
    cases none
  apart := .nil

/-- One more call that runs on its own. -/
theorem Realizes.snoc (h : Realizes as s order) {operation : Operation} {e : Completion}
    {handler : Handler} {history : List (InvocationId × Call)}
    {result : Except Throwable (Option GetServiceInfoResp)}
    (new : e.call ∉ order.map Entry.call)
    (completes : Completes (s.setInvocation e.call ⟨operation,s.history.length,.started⟩) e.call
      operation s.history.length handler history result)
    (heq : handler = object.after object.init ((changes (order ++ [e])).map Prod.snd))
    (log : history = changes (order ++ [e]))
    (describes : ∀ t e', t.history = history → (e'.call = e.call ∧
      Describes t e' ⟨operation,s.history.length,.returned result history.length⟩ ↔ e' = e)) :
    ∃ bs t, Realizes (as ++ bs) t (order ++ [e]) := by
  have absent := (h.invocations e.call).mpr new
  have invoked : step s (.invoke e.call operation) =
      some (s.setInvocation e.call ⟨operation,s.history.length,.started⟩) := by
    rw [step,absent]
  obtain ⟨bs,run⟩ := Completes.cons invoked rfl completes
  let last : Invocation := ⟨operation,s.history.length,.returned result history.length⟩
  have whole := h.run.append run
  have focus : Focus s (s.ended e.call operation s.history.length handler history result) e.call
      last := by
    refine ⟨?_,?_,fun _ => rfl,rfl⟩
    · rintro ⟨inv,hinv,_⟩
      rw [absent] at hinv
      cases hinv
    · intro inv hinv
      rw [absent] at hinv
      cases hinv
  have hi := inv_run h.run
  refine ⟨bs,_,whole,heq,log,?_,?_,?_⟩
  · intro d
    rw [List.map_append,List.map_singleton,List.mem_append,List.mem_singleton,not_or,
      ←h.invocations]
    by_cases same : d = e.call
    · simp [State.ended,same]
    · simp [State.ended,same]
  · intro e'
    rw [List.mem_append,List.mem_singleton,focus.completed hi (extends_run hi run),h.completed,
      describes _ e' rfl]
  · refine List.pairwise_append.mpr ⟨?_,List.pairwise_singleton _ _,?_⟩
    · exact h.apart.imp (fun before => before.append bs)
    · intro e' he' e'' he''
      cases List.mem_singleton.mp he''
      exact ⟨as,bs,s,rfl,h.run,((h.completed e').mp he').returned,absent⟩

theorem Realizes.change (h : Realizes as s order) (new : c ∉ order.map Entry.call) (call : Call) :
    ∃ bs t, Realizes (as ++ bs) t (order ++ [.change c call]) := by
  have own := invocations_own s c ⟨.change call,s.history.length,.started⟩
  refine h.snoc new (change_completes own) ?_ ?_ ?_
  · change object.apply s.handler call = _
    rw [changes_append,List.map_append,Object.after,List.foldl_append,h.handler]
    rfl
  · change s.history ++ _ = _
    rw [changes_append,h.history]
    rfl
  · intro t e' _
    exact eq_change_iff

theorem Realizes.answer (h : Realizes as s order) (new : c ∉ order.map Entry.call)
    {q : GetServiceInfoReq} {resp : GetServiceInfoResp} (ha : object.Answers s.handler (q,resp)) :
    ∃ bs t, Realizes (as ++ bs) t (order ++ [.answer c (q,resp)]) := by
  obtain ⟨it,answer⟩ := ha
  have own := invocations_own s c ⟨.getServiceInfo q,s.history.length,.started⟩
  have same : changes (order ++ [.answer c (q,resp)]) = changes order := by
    rw [changes_append,changes_answer]
    exact List.append_nil _
  refine h.snoc new (query_completes own (inv_run h.run).lookup answer) ?_ ?_ ?_
  · rw [same]
    exact h.handler
  · rw [same]
    exact h.history
  · intro t e' _
    refine eq_answer_iff ?_
    intro n first last
    exact absurd last (Nat.not_lt.mpr first)

/-- Every history of one thread, with any order of iteration for each query, is one of the
    threads. -/
theorem sequential_realized (nodup : (order.map Entry.call).Nodup)
    (h : object.Sequential object.init order) : ∃ as s, Realizes as s order := by
  induction order using List.reverseRecOn with
  | nil => exact ⟨[],_,.nil⟩
  | append_singleton order e ih =>
    rw [List.map_append,List.map_singleton] at nodup
    obtain ⟨new,nodup⟩ := List.nodup_cons.mp (List.nodup_append_comm.mp nodup)
    obtain ⟨h,last⟩ := Object.sequential_append.mp h
    obtain ⟨as,s,realizes⟩ := ih nodup h
    cases e with
    | change c call =>
      obtain ⟨bs,t,more⟩ := realizes.change new call
      exact ⟨_,t,more⟩
    | answer c a =>
      have answers := last.1
      rw [←realizes.handler] at answers
      obtain ⟨bs,t,more⟩ := realizes.answer new answers
      exact ⟨_,t,more⟩

end Order

/-- A query for the server 5 between the calls of the server 1. -/
def registerAskUnregister : List Completion :=
  [.change 0 (.register accessOne),.answer 1 (⟨2,5⟩,⟨2,5,accessOne.host,9000⟩),
    .change 2 (.unregister ⟨2,1⟩)]

theorem registerAskUnregister_realized : ∃ as s, Realizes as s registerAskUnregister :=
  sequential_realized (by decide) ⟨⟨entryOrder,rfl⟩,trivial⟩

end SeeU.DiscoverConcurrent
