import SeeU.RpcClientHandlerCorrelation

set_option autoImplicit false

/-!
# When an answer reaches the caller that waits for it

An answer is lost in two windows of `write`: before `putThreadObject`, where
`channelRead0` drops it, and between `putThreadObject` and `wait`, where its
`notify` finds no waiter. Outside them it stays on its way.
-/
namespace SeeU.RpcClientHandler
open TransitionSystem

/-- The `get` of the caller has thrown `TimeoutException`. -/
def Caller.TimedOut : Caller → Prop
  | .timedOut | .notified | .expired => True
  | _ => False

/-- The worker has handed its message to the channel. -/
def Worker.Written (w : Worker) : Prop := w ≠ .queued ∧ w ≠ .threw

def ReadPhase.Left : ReadPhase → Prop
  | .finished | .dropped | .threw => True
  | _ => False

/-- A response to the call was taken by its worker, or waits in `responseMap` for a
    worker that is awake or will be notified. -/
def OnItsWay (s : State) (c : CallId) (call : Call) : Prop :=
  ∃ k rd, s.reads k = some rd ∧ rd.rsp.msgSeq = call.msg.msgSeq ∧
    (call.worker = .returned (some k) ∨
      s.responseMap call.msg.msgSeq = some k ∧ (call.worker = .waiting → NotifyPending s c))

/-- Once `channelRead0` has left with an answer that came after the message was
    written, the answer is on its way to a caller that has not timed out. -/
def NoLostResponse (threads : ℕ) (as : List Action) (s : State) : Prop :=
  ∀ c call k rd, s.calls c = some call → ¬call.caller.TimedOut → s.reads k = some rd →
    rd.rsp.msgSeq = call.msg.msgSeq → rd.phase.Left →
    ReceivedWhen (fun old => old.worker.Written) threads as c k → OnItsWay s c call

/-- No answer arrives between the send and `putThreadObject`, and no worker enters
    `wait` after the notify of its answer, unless its caller has timed out. -/
def Timely (s : State) : Action → Prop
  | .channelRead _ rsp => ∀ c call, s.calls c = some call → call.msg.msgSeq = rsp.msgSeq →
      ¬call.caller.TimedOut → call.worker ≠ .sending ∧ call.worker ≠ .sent
  | .enterWait c => ∀ call, s.calls c = some call → ¬call.caller.TimedOut →
      ∀ k rd, s.reads k = some rd → rd.rsp.msgSeq = call.msg.msgSeq → rd.phase ≠ .finished
  | _ => True

/-! ### The invariant of timely runs -/

/-- A response of this sequence number is stored or was taken. -/
def Arrived (s : State) (q : MsgSeq) : Prop :=
  (∃ k, s.responseMap q = some k) ∨
    ∃ c call k, s.calls c = some call ∧ call.msg.msgSeq = q ∧ call.worker = .returned (some k)

/-- Some `channelRead0` took the entry of the call and has notified its worker or will. -/
def Handled (s : State) (c : CallId) (call : Call) : Prop :=
  ∃ k rd, s.reads k = some rd ∧ rd.rsp.msgSeq = call.msg.msgSeq ∧
    (rd.phase = .removed (some c) ∨ rd.phase = .finished ∧ call.worker ≠ .waiting)

structure Delivering (s : State) : Prop where
  stored : ∀ {k : ReadId} {rd : Read}, s.reads k = some rd → rd.phase = .stored →
    Arrived s rd.rsp.msgSeq
  taken : ∀ {c : CallId} {call : Call}, s.calls c = some call → call.worker.Registered →
    ¬call.caller.TimedOut → s.threadObjectMap call.msg.msgSeq = none →
    Arrived s call.msg.msgSeq ∧ Handled s c call

theorem CallMove.in_time {s : State} {c : CallId} {a : Action} {call call' : Call}
    (h : CallMove s c a call call') (hn : ¬call'.caller.TimedOut) : ¬call.caller.TimedOut := by
  cases h with
  | @futureGet _ r phase _ =>
    rw [phase]
    exact id
  | timeout | timeoutNotify | timeoutRemove => exact absurd trivial hn
  | same | start | synced | syncFailed | putThreadObject | enterWait | spuriousWakeup
  | getResponse | notify => exact hn

section Preservation
variable {s t : State} {a : Action}

theorem Step.arrived (h : Step s a t) {q : MsgSeq} (hs : Arrived s q) : Arrived t q := by
  rcases hs with ⟨k,hk⟩ | ⟨c,call,k,hc,hq,hw⟩
  · cases ht : t.responseMap q with
    | some j => exact .inl ⟨j,ht⟩
    | none =>
      obtain ⟨c,call,_,_,_,hq,hc⟩ := h.response_gone hk ht
      exact .inr ⟨c,_,k,hc,hq,rfl⟩
  · obtain ⟨call',hc',move⟩ := h.call hc
    exact .inr ⟨c,call',k,hc',by rw [move.msg_eq,hq],move.returned hw⟩

theorem delivering_stored (hd : Delivering s) (h : Step s a t) {k : ReadId} {rd : Read}
    (hk : t.reads k = some rd) (phase : rd.phase = .stored) : Arrived t rd.rsp.msgSeq := by
  rcases h.read_back hk with ⟨rd0,hk0,move⟩ | ⟨_,rsp,_,rfl⟩
  · cases move with
    | same => exact h.arrived (hd.stored hk0 phase)
    | putResponse checked =>
      cases h with
      | putResponse hj _ =>
        rw [hk0] at hj
        cases hj
        exact .inl ⟨k,Function.update_self _ _ _⟩
    | removeThreadObject | notifyNull | notify => cases phase
  · exfalso
    change (if _ then _ else _) = _ at phase
    split_ifs at phase

theorem handled_step (timely : Timely s a) (h : Step s a t) {c : CallId} {call call' : Call}
    (hc : s.calls c = some call) (hc' : t.calls c = some call') (move : CallMove s c a call call')
    (inTime : ¬call.caller.TimedOut) (hs : Handled s c call) : Handled t c call' := by
  obtain ⟨k,rd,hk,seq,phase⟩ := hs
  obtain ⟨rd',hk',rmove⟩ := h.read hk
  refine ⟨k,rd',hk',by rw [rmove.rsp_eq,move.msg_eq,seq],?_⟩
  rcases phase with removed | ⟨finished,awake⟩
  · by_cases waits : call'.worker = .waiting
    · have still := h.still_pending hk removed hc' waits
      rw [hk'] at still
      cases still
      exact .inl removed
    · cases rmove with
      | same => exact .inl removed
      | notify _ => exact .inr ⟨rfl,waits⟩
      | putResponse p | removeThreadObject p | notifyNull p =>
        rw [removed] at p
        cases p
  · right
    constructor
    · cases rmove with
      | same => exact finished
      | notify _ => rfl
      | putResponse p | removeThreadObject p | notifyNull p =>
        rw [finished] at p
        cases p
    · intro waits
      rcases move.waits waits with waits0 | ⟨rfl,_⟩
      · exact awake waits0
      · exact timely call hc inTime k rd hk seq finished

theorem delivering_taken (hi : Inv s) (hd : Delivering s) (timely : Timely s a) (h : Step s a t)
    {c : CallId} {call' : Call} (hc' : t.calls c = some call') (hr : call'.worker.Registered)
    (inTime : ¬call'.caller.TimedOut) (ht : t.threadObjectMap call'.msg.msgSeq = none) :
    Arrived t call'.msg.msgSeq ∧ Handled t c call' := by
  rcases h.call_back hc' with ⟨call,hc,move⟩ | ⟨_,msg,_,_,rfl⟩
  · rw [move.msg_eq] at ht ⊢
    rcases move.registers hr with hr0 | ⟨rfl,sent⟩
    · cases hs : s.threadObjectMap call.msg.msgSeq with
      | none =>
        obtain ⟨arrived,handled⟩ := hd.taken hc hr0 (move.in_time inTime) hs
        exact ⟨h.arrived arrived,
          handled_step timely h hc hc' move (move.in_time inTime) handled⟩
      | some d =>
        have early : call.caller ≠ .notified := fun e => move.in_time inTime (by rw [e]; trivial)
        obtain ⟨k,rd,hk,phase,seq,hk'⟩ := entry_taken hi h hc early hs ht
        have arrived := h.arrived (hd.stored hk phase)
        rw [seq] at arrived
        exact ⟨arrived,k,_,hk',by rw [move.msg_eq,←seq],.inl rfl⟩
    · exfalso
      cases h with
      | putThreadObject hd _ =>
        rw [hc] at hd
        cases hd
        rw [State.setCall_threadObjectMap,putIfAbsent] at ht
        split_ifs at ht with absent
        · rw [ht] at absent
          cases absent
        · rw [State.setThreadObject_threadObjectMap,Function.update_self] at ht
          cases ht
  · cases hr

theorem delivering_step (hi : Inv s) (hd : Delivering s) (timely : Timely s a) (h : Step s a t) :
    Delivering t where
  stored := delivering_stored hd h
  taken := delivering_taken hi hd timely h

theorem no_entry_step (hi : Inv s) (h : Step s a t) {q : MsgSeq} {c : CallId}
    (hc : ∃ call, s.calls c = some call ∧ call.msg.msgSeq = q ∧ call.worker.Registered)
    (hs : s.threadObjectMap q = none) : t.threadObjectMap q = none := by
  by_contra ne
  obtain ⟨d,hd⟩ := Option.ne_none_iff_exists'.mp ne
  rcases h.threadObject hd with hs' | ⟨calld,_,hd',sent,hq⟩
  · rw [hs] at hs'
    cases hs'
  · obtain ⟨call,hc,hq',hr⟩ := hc
    have cd := hi.distinct hc hd' (by rw [hq,hq'])
    subst cd
    rw [hc] at hd'
    cases hd'
    rw [sent] at hr
    cases hr

end Preservation

theorem delivering_init (n : ℕ) : Delivering (init n) := by
  constructor <;> intros <;> simp_all [init]

theorem delivering_run {n : ℕ} {as : List Action} {s : State}
    (h : Run (machine n) (init n) as s) (fresh : Guarded (machine n) FreshSeq (init n) as)
    (timely : Guarded (machine n) Timely (init n) as) : Inv s ∧ Delivering s := by
  apply h.guarded_invariant (I := fun s => Inv s ∧ Delivering s) _ (fresh.and timely)
    ⟨inv_init n,delivering_init n⟩
  rintro s a t ⟨hi,hd⟩ ⟨hf,ht⟩ hs
  have step := step_cases hs
  exact ⟨inv_step hi hf step,delivering_step hi hd ht step⟩

/-! ### A call and a read along a run -/

theorem call_run {n : ℕ} {as : List Action} {s t : State} (h : Run (machine n) s as t)
    {c : CallId} {call call' : Call} (hc : s.calls c = some call) (hc' : t.calls c = some call') :
    call'.msg = call.msg ∧ (¬call'.caller.TimedOut → ¬call.caller.TimedOut) := by
  have later := h.invariant (I := fun s => ∃ new, s.calls c = some new ∧ new.msg = call.msg ∧
    (¬new.caller.TimedOut → ¬call.caller.TimedOut)) (by
      rintro s a t ⟨new,hn,msg,inTime⟩ hs
      obtain ⟨new',hn',move⟩ := (step_cases hs).call hn
      exact ⟨new',hn',by rw [move.msg_eq,msg],fun hn => inTime (move.in_time hn)⟩)
    ⟨call,hc,rfl,id⟩
  obtain ⟨new,hn,msg,inTime⟩ := later
  rw [hc'] at hn
  cases hn
  exact ⟨msg,inTime⟩

theorem read_run {n : ℕ} {as : List Action} {s t : State} (h : Run (machine n) s as t)
    {k : ReadId} {rd rd' : Read} (hk : s.reads k = some rd) (hk' : t.reads k = some rd') :
    rd'.rsp = rd.rsp ∧ (rd'.phase = .dropped ↔ rd.phase = .dropped) := by
  have later := h.invariant (I := fun s => ∃ new, s.reads k = some new ∧ new.rsp = rd.rsp ∧
    (new.phase = .dropped ↔ rd.phase = .dropped)) (by
      rintro s a t ⟨new,hn,rsp,dropped⟩ hs
      obtain ⟨new',hn',move⟩ := (step_cases hs).read hn
      exact ⟨new',hn',by rw [move.rsp_eq,rsp],move.dropped_iff.trans dropped⟩)
    ⟨rd,hk,rfl,Iff.rfl⟩
  obtain ⟨new,hn,rsp,dropped⟩ := later
  rw [hk'] at hn
  cases hn
  exact ⟨rsp,dropped⟩

theorem no_entry_run {n : ℕ} {as : List Action} {s t : State} (h : Run (machine n) s as t)
    (fresh : Guarded (machine n) FreshSeq s as) (hi : Inv s) {q : MsgSeq} {c : CallId}
    (hc : ∃ call, s.calls c = some call ∧ call.msg.msgSeq = q ∧ call.worker.Registered)
    (hs : s.threadObjectMap q = none) :
    (∃ call, t.calls c = some call ∧ call.msg.msgSeq = q ∧ call.worker.Registered) ∧
      t.threadObjectMap q = none := by
  have later := h.guarded_invariant (I := fun s => Inv s ∧
    (∃ call, s.calls c = some call ∧ call.msg.msgSeq = q ∧ call.worker.Registered) ∧
      s.threadObjectMap q = none) (by
      rintro s a t ⟨hi,hc,hs⟩ hf ha
      have step := step_cases ha
      exact ⟨inv_step hi hf step,step.registered hc,no_entry_step hi step hc hs⟩)
    fresh ⟨hi,hc,hs⟩
  exact later.2

theorem Worker.Written.registered {w : Worker} (h : w.Written) (sending : w ≠ .sending)
    (sent : w ≠ .sent) : w.Registered := by
  obtain ⟨queued,threw⟩ := h
  cases w <;> trivial

theorem dropped_entry {n : ℕ} {as : List Action} {s : State}
    (h : Run (machine n) (init n) as s) (fresh : Guarded (machine n) FreshSeq (init n) as)
    (timely : Guarded (machine n) Timely (init n) as) {c : CallId} {call : Call} {k : ReadId}
    {rd : Read} (hc : s.calls c = some call) (inTime : ¬call.caller.TimedOut)
    (hk : s.reads k = some rd) (seq : rd.rsp.msgSeq = call.msg.msgSeq)
    (dropped : rd.phase = .dropped)
    (received : ReceivedWhen (fun old => old.worker.Written) n as c k) :
    call.worker.Registered ∧ s.threadObjectMap call.msg.msgSeq = none := by
  obtain ⟨bs,rsp,cs,s0,old,rfl,before,hold,written⟩ := received
  obtain ⟨s0',before',after⟩ := h.split
  cases before.unique before'
  have timely0 := timely.right before
  have fresh0 := fresh.right before
  have hi0 := inv_run before fresh.left
  cases after with
  | @cons _ s1 _ _ _ hs rest =>
    have arrival : Step s0 (.channelRead k rsp) s1 := step_cases hs
    cases arrival with
    | channelRead new =>
      obtain ⟨rspeq,droppediff⟩ := read_run rest (State.setRead_self _ _ _) hk
      obtain ⟨msgeq,inTime0⟩ := call_run rest (c := c) (by exact hold) hc
      rw [rspeq,msgeq] at seq
      have phase := timely0.1 c old hold seq.symm (inTime0 inTime)
      have registered := written.registered phase.1 phase.2
      have absent : s0.threadObjectMap old.msg.msgSeq = none := by
        have d := droppediff.mp dropped
        change (if _ then _ else _) = _ at d
        split_ifs at d with present
        rw [←seq]
        simpa using present
      have later := no_entry_run rest (fresh0.2 _ hs)
        (inv_step hi0 fresh0.1 (.channelRead new)) (c := c) ⟨old,hold,rfl,registered⟩ absent
      obtain ⟨⟨new,hnew,_,hr⟩,none⟩ := later
      rw [hc] at hnew
      cases hnew
      rw [msgeq]
      exact ⟨hr,none⟩

theorem answered_entry {n : ℕ} {as : List Action} {s : State}
    (h : Run (machine n) (init n) as s) (fresh : Guarded (machine n) FreshSeq (init n) as)
    (timely : Guarded (machine n) Timely (init n) as) {c : CallId} {call : Call} {k : ReadId}
    {rd : Read} (hc : s.calls c = some call) (inTime : ¬call.caller.TimedOut)
    (hk : s.reads k = some rd) (seq : rd.rsp.msgSeq = call.msg.msgSeq) (left : rd.phase.Left)
    (received : ReceivedWhen (fun old => old.worker.Written) n as c k) :
    call.worker.Registered ∧ s.threadObjectMap call.msg.msgSeq = none := by
  by_cases dropped : rd.phase = .dropped
  · exact dropped_entry h fresh timely hc inTime hk seq dropped received
  · have hi := inv_run h fresh
    have removed : rd.phase.Removed := by
      cases hp : rd.phase <;> rw [hp] at left dropped <;> trivial
    obtain ⟨d,calld,hd,hq,hr⟩ := hi.accepted hk dropped
    have dc := hi.distinct hd hc (by rw [hq,seq])
    subst dc
    rw [hc] at hd
    cases hd
    rw [←seq]
    exact ⟨hr,hi.removed hk removed⟩

/-- In a timely run of calls with distinct sequence numbers no response is lost. -/
theorem timely_no_lost_response {n : ℕ} {as : List Action} {s : State}
    (h : Run (machine n) (init n) as s) (fresh : Guarded (machine n) FreshSeq (init n) as)
    (timely : Guarded (machine n) Timely (init n) as) : NoLostResponse n as s := by
  intro c call k rd hc inTime hk seq left received
  obtain ⟨hi,hd⟩ := delivering_run h fresh timely
  obtain ⟨hr,entry⟩ := answered_entry h fresh timely hc inTime hk seq left received
  obtain ⟨arrived,handled⟩ := hd.taken hc hr inTime entry
  have pending : call.worker = .waiting → NotifyPending s c := by
    intro waits
    obtain ⟨j,rdj,hj,_,removed | ⟨_,awake⟩⟩ := handled
    · exact ⟨j,rdj,hj,removed⟩
    · exact absurd waits awake
  rcases arrived with ⟨j,hj⟩ | ⟨d,calld,j,hd,hq,hw⟩
  · obtain ⟨rdj,hrj,hq,_⟩ := hi.responses hj
    exact ⟨j,rdj,hrj,hq,.inr ⟨hj,pending⟩⟩
  · have dc := hi.distinct hd hc hq
    subst dc
    rw [hc] at hd
    cases hd
    obtain ⟨rdj,hrj,hq,_⟩ := hi.taken hc hw
    exact ⟨j,rdj,hrj,hq,.inl hw⟩

end SeeU.RpcClientHandler
