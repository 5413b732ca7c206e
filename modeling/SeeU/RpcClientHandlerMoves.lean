import SeeU.RpcClientHandler

set_option autoImplicit false

/-!
# What a step does to one call, to one read and to the two maps

Every invariant of the handler is derived from these lemmas; none of its proofs
looks at the step function again.
-/
namespace SeeU.RpcClientHandler
open TransitionSystem

namespace State

@[simp] theorem setCall_self (s : State) (c : CallId) (call : Call) :
    (s.setCall c call).calls c = some call := Function.update_self _ _ _

theorem setCall_of_ne (s : State) {c d : CallId} (call : Call) (h : d ≠ c) :
    (s.setCall c call).calls d = s.calls d := Function.update_of_ne h _ _

@[simp] theorem setCall_reads (s : State) (c : CallId) (call : Call) :
    (s.setCall c call).reads = s.reads := rfl
@[simp] theorem setCall_responseMap (s : State) (c : CallId) (call : Call) :
    (s.setCall c call).responseMap = s.responseMap := rfl
@[simp] theorem setCall_threadObjectMap (s : State) (c : CallId) (call : Call) :
    (s.setCall c call).threadObjectMap = s.threadObjectMap := rfl

@[simp] theorem setRead_self (s : State) (k : ReadId) (rd : Read) :
    (s.setRead k rd).reads k = some rd := Function.update_self _ _ _

theorem setRead_of_ne (s : State) {k j : ReadId} (rd : Read) (h : j ≠ k) :
    (s.setRead k rd).reads j = s.reads j := Function.update_of_ne h _ _

@[simp] theorem setRead_calls (s : State) (k : ReadId) (rd : Read) :
    (s.setRead k rd).calls = s.calls := rfl
@[simp] theorem setRead_responseMap (s : State) (k : ReadId) (rd : Read) :
    (s.setRead k rd).responseMap = s.responseMap := rfl

@[simp] theorem setResponse_responseMap (s : State) (q : MsgSeq) (k : Option ReadId) :
    (s.setResponse q k).responseMap = Function.update s.responseMap q k := rfl

@[simp] theorem setThreadObject_threadObjectMap (s : State) (q : MsgSeq) (c : Option CallId) :
    (s.setThreadObject q c).threadObjectMap = Function.update s.threadObjectMap q c := rfl

end State

@[simp] theorem putIfAbsent_calls (s : State) (q : MsgSeq) (c : CallId) :
    (putIfAbsent s q c).calls = s.calls := by
  unfold putIfAbsent
  split_ifs <;> rfl

@[simp] theorem putIfAbsent_reads (s : State) (q : MsgSeq) (c : CallId) :
    (putIfAbsent s q c).reads = s.reads := by
  unfold putIfAbsent
  split_ifs <;> rfl

@[simp] theorem putIfAbsent_responseMap (s : State) (q : MsgSeq) (c : CallId) :
    (putIfAbsent s q c).responseMap = s.responseMap := by
  unfold putIfAbsent
  split_ifs <;> rfl

/-- What the action `a`, taken in `s`, makes of the call `c`. -/
inductive CallMove (s : State) (c : CallId) : Action → Call → Call → Prop where
  | same (a : Action) (call : Call) : CallMove s c a call call
  | start {call : Call} (h : call.worker = .queued) :
      CallMove s c (.start c) call (call.setWorker .sending)
  | synced {call : Call} (h : call.worker = .sending) :
      CallMove s c (.synced c) call (call.setWorker .sent)
  | syncFailed {call : Call} (h : call.worker = .sending) :
      CallMove s c (.syncFailed c) call (call.setWorker .threw)
  | putThreadObject {call : Call} (h : call.worker = .sent) :
      CallMove s c (.putThreadObject c) call (call.setWorker .registered)
  | enterWait {call : Call} (h : call.worker = .registered) :
      CallMove s c (.enterWait c) call (call.setWorker .waiting)
  | spuriousWakeup {call : Call} (h : call.worker = .waiting) :
      CallMove s c (.spuriousWakeup c) call (call.setWorker .woken)
  | getResponse {call : Call} (h : call.worker = .woken) :
      CallMove s c (.getResponse c) call
        (call.setWorker (.returned (s.responseMap call.msg.msgSeq)))
  | notify {call : Call} {k : ReadId} {rd : Read} (hk : s.reads k = some rd)
      (phase : rd.phase = .removed (some c)) :
      CallMove s c (.notify k) call (call.setWorker call.worker.notify)
  | futureGet {call : Call} {r : Caller} (h : call.caller = .waiting)
      (done : call.worker.outcome = some r) :
      CallMove s c (.futureGet c) call (call.setCaller r)
  | timeout {call : Call} (h : call.caller = .waiting) :
      CallMove s c (.timeout c) call (call.setCaller .timedOut)
  | timeoutNotify {call : Call} (h : call.caller = .timedOut) :
      CallMove s c (.timeoutNotify c) call
        ((call.setWorker call.worker.notify).setCaller .notified)
  | timeoutRemove {call : Call} (h : call.caller = .notified) :
      CallMove s c (.timeoutRemove c) call (call.setCaller .expired)

/-- What the action `a`, taken in `s`, makes of the read `k`. -/
inductive ReadMove (s : State) (k : ReadId) : Action → Read → Read → Prop where
  | same (a : Action) (rd : Read) : ReadMove s k a rd rd
  | putResponse {rd : Read} (h : rd.phase = .checked) :
      ReadMove s k (.putResponse k) rd { rd with phase := .stored }
  | removeThreadObject {rd : Read} (h : rd.phase = .stored) :
      ReadMove s k (.removeThreadObject k) rd
        { rd with phase := .removed (s.threadObjectMap rd.rsp.msgSeq) }
  | notifyNull {rd : Read} (h : rd.phase = .removed none) :
      ReadMove s k (.notify k) rd { rd with phase := .threw }
  | notify {rd : Read} {c : CallId} (h : rd.phase = .removed (some c)) :
      ReadMove s k (.notify k) rd { rd with phase := .finished }

theorem call_of_setCall {s : State} {calls : CallId → Option Call} {c d : CallId} {a : Action}
    {call new old : Call} (hd : s.calls d = some old) (move : CallMove s d a old new)
    (hc : s.calls c = some call) (eq : calls = Function.update s.calls d (some new)) :
    ∃ call', calls c = some call' ∧ CallMove s c a call call' := by
  subst eq
  by_cases h : c = d
  · subst h
    rw [hd] at hc
    cases hc
    exact ⟨new,Function.update_self _ _ _,move⟩
  · exact ⟨call,by rw [Function.update_of_ne h,hc],.same a call⟩

theorem read_of_setRead {s : State} {reads : ReadId → Option Read} {k j : ReadId} {a : Action}
    {rd new old : Read} (hj : s.reads j = some old) (move : ReadMove s j a old new)
    (hk : s.reads k = some rd) (eq : reads = Function.update s.reads j (some new)) :
    ∃ rd', reads k = some rd' ∧ ReadMove s k a rd rd' := by
  subst eq
  by_cases h : k = j
  · subst h
    rw [hj] at hk
    cases hk
    exact ⟨new,Function.update_self _ _ _,move⟩
  · exact ⟨rd,by rw [Function.update_of_ne h,hk],.same a rd⟩

theorem Step.call {s t : State} {a : Action} (h : Step s a t) {c : CallId} {call : Call}
    (hc : s.calls c = some call) : ∃ call', t.calls c = some call' ∧ CallMove s c a call call' := by
  cases h with
  | push _ => exact ⟨call,hc,.same _ call⟩
  | submit _ new =>
    refine ⟨call,?_,.same _ call⟩
    rw [←hc]
    apply State.setCall_of_ne
    intro eq
    rw [eq,new] at hc
    cases hc
  | start hd phase _ _ => exact call_of_setCall hd (.start phase) hc rfl
  | synced hd phase => exact call_of_setCall hd (.synced phase) hc rfl
  | syncFailed hd phase => exact call_of_setCall hd (.syncFailed phase) hc rfl
  | putThreadObject hd phase =>
    exact call_of_setCall hd (.putThreadObject phase) hc (by simp [State.setCall])
  | enterWait hd phase => exact call_of_setCall hd (.enterWait phase) hc rfl
  | spuriousWakeup hd phase => exact call_of_setCall hd (.spuriousWakeup phase) hc rfl
  | getResponse hd phase => exact call_of_setCall hd (.getResponse phase) hc rfl
  | channelRead _ => exact ⟨call,hc,.same _ call⟩
  | putResponse _ _ => exact ⟨call,hc,.same _ call⟩
  | removeThreadObject _ _ => exact ⟨call,hc,.same _ call⟩
  | notifyNull _ _ => exact ⟨call,hc,.same _ call⟩
  | notify hk phase hd => exact call_of_setCall hd (.notify hk phase) hc rfl
  | futureGet hd phase done => exact call_of_setCall hd (.futureGet phase done) hc rfl
  | timeout hd phase => exact call_of_setCall hd (.timeout phase) hc rfl
  | timeoutNotify hd phase => exact call_of_setCall hd (.timeoutNotify phase) hc rfl
  | timeoutRemove hd phase => exact call_of_setCall hd (.timeoutRemove phase) hc rfl

theorem Step.read {s t : State} {a : Action} (h : Step s a t) {k : ReadId} {rd : Read}
    (hk : s.reads k = some rd) : ∃ rd', t.reads k = some rd' ∧ ReadMove s k a rd rd' := by
  cases h with
  | channelRead new =>
    refine ⟨rd,?_,.same _ rd⟩
    rw [←hk]
    apply State.setRead_of_ne
    intro eq
    rw [eq,new] at hk
    cases hk
  | putResponse hj phase => exact read_of_setRead hj (.putResponse phase) hk rfl
  | removeThreadObject hj phase => exact read_of_setRead hj (.removeThreadObject phase) hk rfl
  | notifyNull hj phase => exact read_of_setRead hj (.notifyNull phase) hk rfl
  | notify hj phase _ => exact read_of_setRead hj (.notify phase) hk rfl
  | putThreadObject _ _ => exact ⟨rd,by simpa using hk,.same _ rd⟩
  | push | submit | start | synced | syncFailed | enterWait | spuriousWakeup | getResponse
  | futureGet | timeout | timeoutNotify | timeoutRemove => exact ⟨rd,hk,.same _ rd⟩

theorem Step.new_call {s t : State} {a : Action} (h : Step s a t) {c : CallId} {call : Call}
    (hs : s.calls c = none) (ht : t.calls c = some call) :
    ∃ msg, a = .write c msg ∧ msg.needResponse = true ∧ call = ⟨msg,.queued,.waiting⟩ := by
  have other : ∀ {d : CallId} {old new : Call}, s.calls d = some old →
      Function.update s.calls d (some new) c ≠ some call := by
    intro d old new hd eq
    have ne : c ≠ d := by
      intro cd
      rw [cd,hd] at hs
      cases hs
    rw [Function.update_of_ne ne,hs] at eq
    cases eq
  cases h with
  | @submit d msg need new =>
    by_cases hd : c = d
    · subst hd
      rw [State.setCall_self] at ht
      cases ht
      exact ⟨msg,rfl,need,rfl⟩
    · rw [State.setCall_of_ne _ _ hd,hs] at ht
      cases ht
  | putThreadObject hd _ => exact absurd (by simpa [State.setCall] using ht) (other hd)
  | start hd | synced hd | syncFailed hd | enterWait hd | spuriousWakeup hd | getResponse hd
  | futureGet hd | timeout hd | timeoutNotify hd | timeoutRemove hd => exact absurd ht (other hd)
  | notify _ _ hd => exact absurd ht (other hd)
  | push | channelRead | putResponse | removeThreadObject | notifyNull =>
    have eq := hs.symm.trans ht
    cases eq

theorem Step.new_read {s t : State} {a : Action} (h : Step s a t) {k : ReadId} {rd : Read}
    (hs : s.reads k = none) (ht : t.reads k = some rd) :
    ∃ rsp, a = .channelRead k rsp ∧
      rd = ⟨rsp,if (s.threadObjectMap rsp.msgSeq).isSome then .checked else .dropped⟩ := by
  have other : ∀ {j : ReadId} {old new : Read}, s.reads j = some old →
      Function.update s.reads j (some new) k ≠ some rd := by
    intro j old new hj eq
    have ne : k ≠ j := by
      intro kj
      rw [kj,hj] at hs
      cases hs
    rw [Function.update_of_ne ne,hs] at eq
    cases eq
  cases h with
  | @channelRead j rsp new =>
    by_cases hj : k = j
    · subst hj
      rw [State.setRead_self] at ht
      cases ht
      exact ⟨rsp,rfl,rfl⟩
    · rw [State.setRead_of_ne _ _ hj,hs] at ht
      cases ht
  | putResponse hj | removeThreadObject hj | notifyNull hj | notify hj => exact absurd ht (other hj)
  | putThreadObject _ _ =>
    have eq : some rd = none := by rw [←ht,←hs]; simp
    cases eq
  | push | submit | start | synced | syncFailed | enterWait | spuriousWakeup | getResponse
  | futureGet | timeout | timeoutNotify | timeoutRemove =>
    have eq := hs.symm.trans ht
    cases eq

theorem Step.threadObject {s t : State} {a : Action} (h : Step s a t) {q : MsgSeq} {c : CallId}
    (ht : t.threadObjectMap q = some c) : s.threadObjectMap q = some c ∨
      ∃ call, a = .putThreadObject c ∧ s.calls c = some call ∧ call.worker = .sent ∧
        call.msg.msgSeq = q := by
  have erased : ∀ {p : MsgSeq}, Function.update s.threadObjectMap p none q = some c →
      s.threadObjectMap q = some c := by
    intro p hp
    by_cases e : q = p
    · rw [e,Function.update_self] at hp
      cases hp
    · rwa [Function.update_of_ne e] at hp
  cases h with
  | @putThreadObject d call hd phase =>
    rw [State.setCall_threadObjectMap,putIfAbsent] at ht
    split_ifs at ht
    · exact .inl ht
    · rw [State.setThreadObject_threadObjectMap] at ht
      by_cases e : q = call.msg.msgSeq
      · subst e
        rw [Function.update_self] at ht
        cases ht
        exact .inr ⟨call,rfl,hd,phase,rfl⟩
      · rw [Function.update_of_ne e] at ht
        exact .inl ht
  | removeThreadObject | timeoutRemove => exact .inl (erased ht)
  | push | submit | start | synced | syncFailed | enterWait | spuriousWakeup | getResponse
  | channelRead | putResponse | notifyNull | notify | futureGet | timeout | timeoutNotify =>
    exact .inl ht

/-- A thread object disappears only through the two removals of its key. -/
theorem Step.threadObject_gone {s t : State} {a : Action} (h : Step s a t) {q : MsgSeq}
    {c : CallId} (hs : s.threadObjectMap q = some c) (ht : t.threadObjectMap q = none) :
    (∃ k rd, a = .removeThreadObject k ∧ s.reads k = some rd ∧ rd.phase = .stored ∧
      rd.rsp.msgSeq = q) ∨
    ∃ d call, a = .timeoutRemove d ∧ s.calls d = some call ∧ call.caller = .notified ∧
      call.msg.msgSeq = q := by
  have kept : ∀ {p : MsgSeq}, Function.update s.threadObjectMap p none q = none → q = p := by
    intro p hp
    by_contra e
    rw [Function.update_of_ne e,hs] at hp
    cases hp
  have same : ∀ {m : MsgSeq → Option CallId}, m = s.threadObjectMap → m q ≠ none := by
    intro m hm
    rw [hm,hs]
    exact Option.some_ne_none c
  cases h with
  | @putThreadObject d call hd phase =>
    rw [State.setCall_threadObjectMap,putIfAbsent] at ht
    split_ifs at ht with absent
    · exact absurd ht (same rfl)
    · rw [State.setThreadObject_threadObjectMap] at ht
      by_cases e : q = call.msg.msgSeq
      · rw [e,Function.update_self] at ht
        cases ht
      · rw [Function.update_of_ne e] at ht
        exact absurd ht (same rfl)
  | removeThreadObject hk phase => exact .inl ⟨_,_,rfl,hk,phase,(kept ht).symm⟩
  | timeoutRemove hd phase => exact .inr ⟨_,_,rfl,hd,phase,(kept ht).symm⟩
  | push | submit | start | synced | syncFailed | enterWait | spuriousWakeup | getResponse
  | channelRead | putResponse | notifyNull | notify | futureGet | timeout | timeoutNotify =>
    exact absurd ht (same rfl)

theorem Step.response {s t : State} {a : Action} (h : Step s a t) {q : MsgSeq} {k : ReadId}
    (ht : t.responseMap q = some k) : s.responseMap q = some k ∨
      ∃ rd, a = .putResponse k ∧ s.reads k = some rd ∧ rd.phase = .checked ∧
        rd.rsp.msgSeq = q := by
  cases h with
  | @putResponse j rd hj phase =>
    rw [State.setRead_responseMap,State.setResponse_responseMap] at ht
    by_cases e : q = rd.rsp.msgSeq
    · subst e
      rw [Function.update_self] at ht
      cases ht
      exact .inr ⟨rd,rfl,hj,phase,rfl⟩
    · rw [Function.update_of_ne e] at ht
      exact .inl ht
  | @getResponse c call hc phase =>
    change Function.update s.responseMap call.msg.msgSeq none q = some k at ht
    by_cases e : q = call.msg.msgSeq
    · rw [e,Function.update_self] at ht
      cases ht
    · rw [Function.update_of_ne e] at ht
      exact .inl ht
  | putThreadObject _ _ => exact .inl (by simpa using ht)
  | push | submit | start | synced | syncFailed | enterWait | spuriousWakeup
  | channelRead | removeThreadObject | notifyNull | notify | futureGet | timeout | timeoutNotify
  | timeoutRemove => exact .inl ht

/-- A response disappears only through the `getResponse` of its key. -/
theorem Step.response_gone {s t : State} {a : Action} (h : Step s a t) {q : MsgSeq}
    {k : ReadId} (hs : s.responseMap q = some k) (ht : t.responseMap q = none) :
    ∃ c call, a = .getResponse c ∧ s.calls c = some call ∧ call.worker = .woken ∧
      call.msg.msgSeq = q ∧ t.calls c = some (call.setWorker (.returned (some k))) := by
  have same : ∀ {m : MsgSeq → Option ReadId}, m = s.responseMap → m q ≠ none := by
    intro m hm
    rw [hm,hs]
    exact Option.some_ne_none k
  cases h with
  | @putResponse j rd hj phase =>
    rw [State.setRead_responseMap,State.setResponse_responseMap] at ht
    by_cases e : q = rd.rsp.msgSeq
    · rw [e,Function.update_self] at ht
      cases ht
    · rw [Function.update_of_ne e] at ht
      exact absurd ht (same rfl)
  | @getResponse c call hc phase =>
    change Function.update s.responseMap call.msg.msgSeq none q = none at ht
    by_cases e : q = call.msg.msgSeq
    · refine ⟨c,call,rfl,hc,phase,e.symm,?_⟩
      rw [e] at hs
      rw [←hs]
      exact Function.update_self _ _ _
    · rw [Function.update_of_ne e] at ht
      exact absurd ht (same rfl)
  | putThreadObject _ _ => exact absurd ht (same (by simp))
  | push | submit | start | synced | syncFailed | enterWait | spuriousWakeup
  | channelRead | removeThreadObject | notifyNull | notify | futureGet | timeout | timeoutNotify
  | timeoutRemove => exact absurd ht (same rfl)

theorem Worker.notify_ne_waiting (w : Worker) : w.notify ≠ .waiting := by
  cases w <;> intro h <;> cases h

/-- A notify that is still to come for a worker in the wait set stays so until it
    wakes that worker. -/
theorem Step.still_pending {s t : State} {a : Action} (h : Step s a t) {k : ReadId} {rd : Read}
    {c : CallId} {call : Call} (hk : s.reads k = some rd) (phase : rd.phase = .removed (some c))
    (hc : t.calls c = some call) (waits : call.worker = .waiting) : t.reads k = some rd := by
  obtain ⟨rd',hk',move⟩ := h.read hk
  cases move with
  | same => exact hk'
  | putResponse h | removeThreadObject h | notifyNull h =>
    rw [phase] at h
    cases h
  | notify _ =>
    exfalso
    cases h with
    | notifyNull hj removed =>
      rw [hk] at hj
      cases hj
      rw [phase] at removed
      cases removed
    | @notify _ _ d old hj removed hd =>
      rw [hk] at hj
      cases hj
      rw [phase] at removed
      cases removed
      rw [State.setRead_calls,State.setCall_self] at hc
      cases hc
      exact Worker.notify_ne_waiting _ waits

end SeeU.RpcClientHandler
