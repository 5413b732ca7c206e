import SeeU.RpcMsg
import SeeU.TransitionSystem
import Mathlib.Logic.Function.Basic

set_option autoImplicit false

/-!
# `RpcClientHandler` as a step machine

`write` hands its message to a bounded pool and waits 100 ms for the pool's
worker. The worker sends, registers the message in `threadObjectMap`, waits on
the message's monitor and takes the answer from `responseMap`. `channelRead0`
runs on the I/O threads of the channels that share the handler. Every atomic step
of these parties is an action.
-/
namespace SeeU.RpcClientHandler
open TransitionSystem

/-- One invocation of `write`, and the request object it locks. -/
abbrev CallId := ℕ
/-- One invocation of `channelRead0`, and the response object it was given. -/
abbrev ReadId := ℕ
abbrev MsgSeq := BitVec 32

/-- How far the task that `write` submitted has come. -/
inductive Worker where
  | queued | sending | sent | registered | waiting | woken
  | returned (result : Option ReadId)
  | threw
  deriving DecidableEq

/-- How far the thread that called `write` has come. -/
inductive Caller where
  | waiting | timedOut | notified | expired
  | returned (result : Option ReadId)
  | threw
  deriving DecidableEq

structure Call where
  msg : Request
  worker : Worker
  caller : Caller
  deriving DecidableEq

inductive ReadPhase where
  | checked | stored
  | removed (obj : Option CallId)
  | finished | dropped | threw
  deriving DecidableEq

structure Read where
  rsp : Response
  phase : ReadPhase
  deriving DecidableEq

structure State where
  /-- Idle threads of `service`. -/
  idle : ℕ
  /-- The tasks that wait for a thread, in the order they were submitted. -/
  queue : List CallId
  calls : CallId → Option Call
  reads : ReadId → Option Read
  responseMap : MsgSeq → Option ReadId
  threadObjectMap : MsgSeq → Option CallId

inductive Action where
  | write (c : CallId) (msg : Request)
  | start (c : CallId)
  | synced (c : CallId)
  | syncFailed (c : CallId)
  | putThreadObject (c : CallId)
  | enterWait (c : CallId)
  | spuriousWakeup (c : CallId)
  | getResponse (c : CallId)
  | channelRead (k : ReadId) (rsp : Response)
  | putResponse (k : ReadId)
  | removeThreadObject (k : ReadId)
  | notify (k : ReadId)
  | futureGet (c : CallId)
  | timeout (c : CallId)
  | timeoutNotify (c : CallId)
  | timeoutRemove (c : CallId)

def init (threads : ℕ) : State :=
  ⟨threads,[],fun _ => none,fun _ => none,fun _ => none,fun _ => none⟩

namespace State

def setCall (s : State) (c : CallId) (call : Call) : State :=
  { s with calls := Function.update s.calls c (some call) }

def setRead (s : State) (k : ReadId) (rd : Read) : State :=
  { s with reads := Function.update s.reads k (some rd) }

def setResponse (s : State) (q : MsgSeq) (k : Option ReadId) : State :=
  { s with responseMap := Function.update s.responseMap q k }

def setThreadObject (s : State) (q : MsgSeq) (c : Option CallId) : State :=
  { s with threadObjectMap := Function.update s.threadObjectMap q c }

end State

/-- `Object.notify` on a request: its worker leaves the wait set, if it is in it. -/
def Worker.notify : Worker → Worker
  | .waiting => .woken
  | w => w

def Call.setWorker (call : Call) (w : Worker) : Call := { call with worker := w }
def Call.setCaller (call : Call) (r : Caller) : Call := { call with caller := r }

/-- `putThreadObject` keeps an entry that is already there. -/
def putIfAbsent (s : State) (q : MsgSeq) (c : CallId) : State :=
  if (s.threadObjectMap q).isSome then s else s.setThreadObject q (some c)

def workerStep (s : State) (c : CallId) (before : Worker) (after : Call → State) : Option State :=
  (s.calls c).bind (fun call => if call.worker = before then some (after call) else none)

def callerStep (s : State) (c : CallId) (before : Caller) (after : Call → State) : Option State :=
  (s.calls c).bind (fun call => if call.caller = before then some (after call) else none)

def readStep (s : State) (k : ReadId) (before : ReadPhase) (after : Read → State) :
    Option State :=
  (s.reads k).bind (fun rd => if rd.phase = before then some (after rd) else none)

/-- What `Future.get` hands to the caller once the task has ended. -/
def Worker.outcome : Worker → Option Caller
  | .returned r => some (.returned r)
  | .threw => some .threw
  | _ => none

/-- Any queued task may get a thread, since those that are the first of a new thread do not
    start in the order they were submitted. The future publishes a result after the task
    has ended, so that a timeout can still come first. -/
def step (s : State) : Action → Option State
  | .write c msg =>
    if msg.needResponse then
      match s.calls c with
      | none => some { s.setCall c ⟨msg,.queued,.waiting⟩ with queue := s.queue ++ [c] }
      | some _ => none
    else some s
  | .start c =>
    match s.idle with
    | n + 1 =>
      if c ∈ s.queue then
        workerStep s c .queued (fun call =>
          { s.setCall c (call.setWorker .sending) with idle := n, queue := s.queue.erase c })
      else none
    | 0 => none
  | .synced c => workerStep s c .sending (fun call => s.setCall c (call.setWorker .sent))
  | .syncFailed c => workerStep s c .sending (fun call =>
      { s.setCall c (call.setWorker .threw) with idle := s.idle + 1 })
  | .putThreadObject c => workerStep s c .sent (fun call =>
      (putIfAbsent s call.msg.msgSeq c).setCall c (call.setWorker .registered))
  | .enterWait c => workerStep s c .registered (fun call =>
      s.setCall c (call.setWorker .waiting))
  | .spuriousWakeup c => workerStep s c .waiting (fun call =>
      s.setCall c (call.setWorker .woken))
  | .getResponse c => workerStep s c .woken (fun call =>
      { (s.setResponse call.msg.msgSeq none).setCall c
          (call.setWorker (.returned (s.responseMap call.msg.msgSeq))) with idle := s.idle + 1 })
  | .channelRead k rsp =>
    match s.reads k with
    | none => some (s.setRead k
        ⟨rsp,if (s.threadObjectMap rsp.msgSeq).isSome then .checked else .dropped⟩)
    | some _ => none
  | .putResponse k => readStep s k .checked (fun rd =>
      (s.setResponse rd.rsp.msgSeq (some k)).setRead k { rd with phase := .stored })
  | .removeThreadObject k => readStep s k .stored (fun rd =>
      (s.setThreadObject rd.rsp.msgSeq none).setRead k
        { rd with phase := .removed (s.threadObjectMap rd.rsp.msgSeq) })
  | .notify k =>
    (s.reads k).bind (fun rd =>
      match rd.phase with
      | .removed none => some (s.setRead k { rd with phase := .threw })
      | .removed (some c) => (s.calls c).map (fun call =>
          (s.setCall c (call.setWorker call.worker.notify)).setRead k { rd with phase := .finished })
      | _ => none)
  | .futureGet c =>
    (s.calls c).bind (fun call =>
      if call.caller = .waiting then
        call.worker.outcome.map (fun r => s.setCall c (call.setCaller r))
      else none)
  | .timeout c => callerStep s c .waiting (fun call => s.setCall c (call.setCaller .timedOut))
  | .timeoutNotify c => callerStep s c .timedOut (fun call =>
      s.setCall c ((call.setWorker call.worker.notify).setCaller .notified))
  | .timeoutRemove c => callerStep s c .notified (fun call =>
      (s.setThreadObject call.msg.msgSeq none).setCall c (call.setCaller .expired))

def machine (threads : ℕ) : Machine State Action := ⟨init threads,step⟩

/-! ### What each step can do -/

inductive Step (s : State) : Action → State → Prop where
  | push {c : CallId} {msg : Request} (h : msg.needResponse = false) : Step s (.write c msg) s
  | submit {c : CallId} {msg : Request} (h : msg.needResponse = true) (new : s.calls c = none) :
      Step s (.write c msg) { s.setCall c ⟨msg,.queued,.waiting⟩ with queue := s.queue ++ [c] }
  | start {c : CallId} {call : Call} {n : ℕ} (hc : s.calls c = some call)
      (phase : call.worker = .queued) (free : s.idle = n + 1) (mem : c ∈ s.queue) :
      Step s (.start c)
        { s.setCall c (call.setWorker .sending) with idle := n, queue := s.queue.erase c }
  | synced {c : CallId} {call : Call} (hc : s.calls c = some call) (phase : call.worker = .sending) :
      Step s (.synced c) (s.setCall c (call.setWorker .sent))
  | syncFailed {c : CallId} {call : Call} (hc : s.calls c = some call)
      (phase : call.worker = .sending) :
      Step s (.syncFailed c) { s.setCall c (call.setWorker .threw) with idle := s.idle + 1 }
  | putThreadObject {c : CallId} {call : Call} (hc : s.calls c = some call)
      (phase : call.worker = .sent) :
      Step s (.putThreadObject c)
        ((putIfAbsent s call.msg.msgSeq c).setCall c (call.setWorker .registered))
  | enterWait {c : CallId} {call : Call} (hc : s.calls c = some call)
      (phase : call.worker = .registered) :
      Step s (.enterWait c) (s.setCall c (call.setWorker .waiting))
  | spuriousWakeup {c : CallId} {call : Call} (hc : s.calls c = some call)
      (phase : call.worker = .waiting) :
      Step s (.spuriousWakeup c) (s.setCall c (call.setWorker .woken))
  | getResponse {c : CallId} {call : Call} (hc : s.calls c = some call)
      (phase : call.worker = .woken) :
      Step s (.getResponse c)
        { (s.setResponse call.msg.msgSeq none).setCall c
            (call.setWorker (.returned (s.responseMap call.msg.msgSeq))) with idle := s.idle + 1 }
  | channelRead {k : ReadId} {rsp : Response} (new : s.reads k = none) :
      Step s (.channelRead k rsp) (s.setRead k
        ⟨rsp,if (s.threadObjectMap rsp.msgSeq).isSome then .checked else .dropped⟩)
  | putResponse {k : ReadId} {rd : Read} (hk : s.reads k = some rd) (phase : rd.phase = .checked) :
      Step s (.putResponse k)
        ((s.setResponse rd.rsp.msgSeq (some k)).setRead k { rd with phase := .stored })
  | removeThreadObject {k : ReadId} {rd : Read} (hk : s.reads k = some rd)
      (phase : rd.phase = .stored) :
      Step s (.removeThreadObject k) ((s.setThreadObject rd.rsp.msgSeq none).setRead k
        { rd with phase := .removed (s.threadObjectMap rd.rsp.msgSeq) })
  | notifyNull {k : ReadId} {rd : Read} (hk : s.reads k = some rd)
      (phase : rd.phase = .removed none) :
      Step s (.notify k) (s.setRead k { rd with phase := .threw })
  | notify {k : ReadId} {rd : Read} {c : CallId} {call : Call} (hk : s.reads k = some rd)
      (phase : rd.phase = .removed (some c)) (hc : s.calls c = some call) :
      Step s (.notify k)
        ((s.setCall c (call.setWorker call.worker.notify)).setRead k { rd with phase := .finished })
  | futureGet {c : CallId} {call : Call} {r : Caller} (hc : s.calls c = some call)
      (phase : call.caller = .waiting) (done : call.worker.outcome = some r) :
      Step s (.futureGet c) (s.setCall c (call.setCaller r))
  | timeout {c : CallId} {call : Call} (hc : s.calls c = some call)
      (phase : call.caller = .waiting) :
      Step s (.timeout c) (s.setCall c (call.setCaller .timedOut))
  | timeoutNotify {c : CallId} {call : Call} (hc : s.calls c = some call)
      (phase : call.caller = .timedOut) :
      Step s (.timeoutNotify c)
        (s.setCall c ((call.setWorker call.worker.notify).setCaller .notified))
  | timeoutRemove {c : CallId} {call : Call} (hc : s.calls c = some call)
      (phase : call.caller = .notified) :
      Step s (.timeoutRemove c)
        ((s.setThreadObject call.msg.msgSeq none).setCall c (call.setCaller .expired))

theorem workerStep_eq_some {s t : State} {c : CallId} {before : Worker} {after : Call → State}
    (h : workerStep s c before after = some t) :
    ∃ call, s.calls c = some call ∧ call.worker = before ∧ t = after call := by
  obtain ⟨call,hc,h⟩ := Option.bind_eq_some_iff.mp h
  split_ifs at h with phase
  exact ⟨call,hc,phase,by simpa using h.symm⟩

theorem callerStep_eq_some {s t : State} {c : CallId} {before : Caller} {after : Call → State}
    (h : callerStep s c before after = some t) :
    ∃ call, s.calls c = some call ∧ call.caller = before ∧ t = after call := by
  obtain ⟨call,hc,h⟩ := Option.bind_eq_some_iff.mp h
  split_ifs at h with phase
  exact ⟨call,hc,phase,by simpa using h.symm⟩

theorem readStep_eq_some {s t : State} {k : ReadId} {before : ReadPhase} {after : Read → State}
    (h : readStep s k before after = some t) :
    ∃ rd, s.reads k = some rd ∧ rd.phase = before ∧ t = after rd := by
  obtain ⟨rd,hk,h⟩ := Option.bind_eq_some_iff.mp h
  split_ifs at h with phase
  exact ⟨rd,hk,phase,by simpa using h.symm⟩

theorem step_cases {s t : State} {a : Action} (h : step s a = some t) : Step s a t := by
  cases a with
  | write c msg =>
    simp only [step] at h
    split_ifs at h with need
    · split at h
      · cases h
        exact .submit need ‹_›
      · cases h
    · cases h
      exact .push (by simpa using need)
  | start c =>
    simp only [step] at h
    split at h
    · split_ifs at h with mem
      obtain ⟨call,hc,phase,rfl⟩ := workerStep_eq_some h
      exact .start hc phase ‹_› mem
    · cases h
  | synced c =>
    obtain ⟨call,hc,phase,rfl⟩ := workerStep_eq_some h
    exact .synced hc phase
  | syncFailed c =>
    obtain ⟨call,hc,phase,rfl⟩ := workerStep_eq_some h
    exact .syncFailed hc phase
  | putThreadObject c =>
    obtain ⟨call,hc,phase,rfl⟩ := workerStep_eq_some h
    exact .putThreadObject hc phase
  | enterWait c =>
    obtain ⟨call,hc,phase,rfl⟩ := workerStep_eq_some h
    exact .enterWait hc phase
  | spuriousWakeup c =>
    obtain ⟨call,hc,phase,rfl⟩ := workerStep_eq_some h
    exact .spuriousWakeup hc phase
  | getResponse c =>
    obtain ⟨call,hc,phase,rfl⟩ := workerStep_eq_some h
    exact .getResponse hc phase
  | channelRead k rsp =>
    simp only [step] at h
    split at h
    · cases h
      exact .channelRead ‹_›
    · cases h
  | putResponse k =>
    obtain ⟨rd,hk,phase,rfl⟩ := readStep_eq_some h
    exact .putResponse hk phase
  | removeThreadObject k =>
    obtain ⟨rd,hk,phase,rfl⟩ := readStep_eq_some h
    exact .removeThreadObject hk phase
  | notify k =>
    obtain ⟨rd,hk,h⟩ := Option.bind_eq_some_iff.mp h
    split at h
    · cases h
      exact .notifyNull hk ‹_›
    · obtain ⟨call,hc,rfl⟩ := Option.map_eq_some_iff.mp h
      exact .notify hk ‹_› hc
    · cases h
  | futureGet c =>
    obtain ⟨call,hc,h⟩ := Option.bind_eq_some_iff.mp h
    split_ifs at h with phase
    obtain ⟨r,done,rfl⟩ := Option.map_eq_some_iff.mp h
    exact .futureGet hc phase done
  | timeout c =>
    obtain ⟨call,hc,phase,rfl⟩ := callerStep_eq_some h
    exact .timeout hc phase
  | timeoutNotify c =>
    obtain ⟨call,hc,phase,rfl⟩ := callerStep_eq_some h
    exact .timeoutNotify hc phase
  | timeoutRemove c =>
    obtain ⟨call,hc,phase,rfl⟩ := callerStep_eq_some h
    exact .timeoutRemove hc phase

end SeeU.RpcClientHandler
