import SeeU.RpcClientHandlerCorrelation

set_option autoImplicit false

/-!
# The thread pool of `RpcClientHandler`

`service` runs the submitted tasks on a fixed number of threads. A task whose caller times
out before it waits keeps its thread for ever, so that a pool can be used up.
-/
namespace SeeU.RpcClientHandler
open TransitionSystem

/-- A thread of the pool runs the task. -/
def Worker.Busy : Worker → Prop
  | .sending | .sent | .registered | .waiting | .woken => True
  | _ => False

def Busy (s : State) (c : CallId) : Prop := ∃ call, s.calls c = some call ∧ call.worker.Busy

/-- The task that an action submits to the pool. -/
def Action.submits : Action → Option CallId
  | .write c msg => if msg.needResponse then some c else none
  | _ => none

/-- The task that an action starts on a thread. -/
def Action.starts : Action → Option CallId
  | .start c => some c
  | _ => none

/-- The task that an action ends. -/
def Action.ends : Action → Option CallId
  | .syncFailed c | .getResponse c => some c
  | _ => none

/-! ### What a step does to the pool -/

theorem Worker.busy_notify (w : Worker) : w.notify.Busy ↔ w.Busy := by cases w <;> rfl

theorem busy_update {s t : State} {d : CallId} {new : Call}
    (eq : t.calls = Function.update s.calls d (some new)) (c : CallId) :
    Busy t c ↔ if c = d then new.worker.Busy else Busy s c := by
  unfold Busy
  rw [eq]
  split_ifs with h
  · rw [h,Function.update_self]
    constructor
    · rintro ⟨call,hc,hb⟩
      cases hc
      exact hb
    · exact fun hb => ⟨new,rfl,hb⟩
  · rw [Function.update_of_ne h]

theorem busy_of_some {s : State} {c : CallId} {call : Call} (hc : s.calls c = some call) :
    Busy s c ↔ call.worker.Busy := by
  constructor
  · rintro ⟨call',hc',hb⟩
    rw [hc] at hc'
    cases hc'
    exact hb
  · exact fun hb => ⟨call,hc,hb⟩

theorem busy_kept {s t : State} {d : CallId} {old new : Call} (hd : s.calls d = some old)
    (eq : t.calls = Function.update s.calls d (some new))
    (same : new.worker.Busy ↔ old.worker.Busy) (c : CallId) : Busy t c ↔ Busy s c := by
  rw [busy_update eq c]
  split_ifs with h
  · rw [h,busy_of_some hd]
    exact same
  · rfl

/-- Only the start of a task takes a thread, and only the end of that task frees it. -/
theorem Step.busy_iff {s t : State} {a : Action} (h : Step s a t) (c : CallId) :
    Busy t c ↔ Busy s c ∧ a.ends ≠ some c ∨ a.starts = some c := by
  have kept : a.ends = none → a.starts = none → (Busy t c ↔ Busy s c) →
      (Busy t c ↔ Busy s c ∧ a.ends ≠ some c ∨ a.starts = some c) := by
    intro ends starts iff
    simp [ends,starts,iff]
  have freed : ∀ {d : CallId} {old new : Call}, s.calls d = some old →
      t.calls = Function.update s.calls d (some new) → a.ends = some d → a.starts = none →
      ¬new.worker.Busy → (Busy t c ↔ Busy s c ∧ a.ends ≠ some c ∨ a.starts = some c) := by
    intro d old new hd eq ends starts idle
    rw [busy_update eq c,ends,starts]
    split_ifs with hc
    · simp [hc,idle]
    · simp [Ne.symm hc]
  cases h with
  | push => exact kept rfl rfl .rfl
  | @submit d msg need new =>
    refine kept rfl (by simp [Action.starts]) ?_
    rw [busy_update (d := d) rfl c]
    split_ifs with hc
    · constructor
      · exact False.elim
      · rintro ⟨call,hs,_⟩
        rw [hc,new] at hs
        cases hs
    · rfl
  | @start d call n hd phase free mem =>
    rw [busy_update (d := d) rfl c]
    split_ifs with hc
    · simp [Action.starts,hc,Call.setWorker,Worker.Busy]
    · simp [Action.starts,Action.ends,Ne.symm hc]
  | syncFailed hd phase => exact freed hd rfl rfl rfl id
  | getResponse hd phase => exact freed hd rfl rfl rfl id
  | synced hd phase | enterWait hd phase | spuriousWakeup hd phase =>
    refine kept rfl rfl (busy_kept hd rfl ?_ c)
    rw [phase]
    rfl
  | @putThreadObject d call hd phase =>
    have calls : ((putIfAbsent s call.msg.msgSeq d).setCall d
        (call.setWorker .registered)).calls =
          Function.update s.calls d (some (call.setWorker .registered)) := by simp [State.setCall]
    refine kept rfl rfl (busy_kept hd calls ?_ c)
    rw [phase]
    rfl
  | channelRead | putResponse | removeThreadObject | notifyNull => exact kept rfl rfl .rfl
  | notify _ _ hd | timeoutNotify hd =>
    exact kept rfl rfl (busy_kept hd rfl (Worker.busy_notify _) c)
  | futureGet hd | timeout hd | timeoutRemove hd =>
    refine kept rfl rfl (busy_kept hd rfl ?_ c)
    rfl

theorem Step.idle {s t : State} {a : Action} (h : Step s a t) :
    t.idle + a.starts.toList.length = s.idle + a.ends.toList.length := by
  cases h with
  | start _ _ free => rw [free]; rfl
  | putThreadObject =>
    unfold putIfAbsent
    split_ifs <;> rfl
  | _ => rfl

/-- Only the start of a task takes it out of the queue. -/
theorem Step.queue {s t : State} {a : Action} (h : Step s a t) (starts : a.starts = none) :
    t.queue = s.queue ++ a.submits.toList := by
  cases h with
  | push need => simp [Action.submits,need]
  | submit need => simp [Action.submits,need]
  | start => cases starts
  | putThreadObject =>
    unfold putIfAbsent
    split_ifs <;> simp [Action.submits,State.setCall,State.setThreadObject]
  | _ => simp [Action.submits,State.setCall,State.setRead,State.setResponse,State.setThreadObject]

theorem Step.ends_busy {s t : State} {a : Action} (h : Step s a t) {c : CallId}
    (ha : a.ends = some c) : Busy s c := by
  cases h with
  | syncFailed hc phase | getResponse hc phase =>
    cases ha
    rw [busy_of_some hc,phase]
    trivial
  | _ => cases ha

/-! ### Workers that nobody wakes -/

def Action.isSpuriousWakeup : Action → Bool
  | .spuriousWakeup _ => true
  | _ => false

/-- The worker waits, its caller has notified it before, and neither an entry nor a
    `channelRead0` leads to it. -/
structure Stranded (s : State) (c : CallId) (call : Call) : Prop where
  waiting : call.worker = .waiting
  late : call.caller = .notified ∨ call.caller = .expired
  unlisted : ∀ q, s.threadObjectMap q ≠ some c
  unheld : ¬NotifyPending s c

theorem CallMove.stranded {s : State} {c : CallId} {a : Action} {call call' : Call}
    (h : CallMove s c a call call') (hs : Stranded s c call) (awake : a.isSpuriousWakeup = false) :
    call'.worker = .waiting ∧ (call'.caller = .notified ∨ call'.caller = .expired) := by
  have waiting := hs.waiting
  have late := hs.late
  cases h with
  | same => exact ⟨waiting,late⟩
  | start h | synced h | syncFailed h | putThreadObject h | enterWait h | getResponse h =>
    rw [waiting] at h
    cases h
  | spuriousWakeup => cases awake
  | notify hk phase => exact absurd ⟨_,_,hk,phase⟩ hs.unheld
  | futureGet h | timeout h | timeoutNotify h =>
    rw [h] at late
    rcases late with l | l <;> cases l
  | timeoutRemove => exact ⟨waiting,.inr rfl⟩

theorem Stranded.step {s t : State} {a : Action} {c : CallId} {call : Call}
    (hs : Stranded s c call) (hc : s.calls c = some call) (h : Step s a t)
    (awake : a.isSpuriousWakeup = false) :
    ∃ call', t.calls c = some call' ∧ Stranded t c call' := by
  obtain ⟨call',hc',move⟩ := h.call hc
  obtain ⟨waiting,late⟩ := move.stranded hs awake
  refine ⟨call',hc',waiting,late,?_,?_⟩
  · intro q ht
    rcases h.threadObject ht with old | ⟨other,_,ho,phase,_⟩
    · exact hs.unlisted q old
    · rw [hc] at ho
      cases ho
      rw [hs.waiting] at phase
      cases phase
  · rintro ⟨k,rd',hk',phase⟩
    cases hk : s.reads k with
    | none =>
      obtain ⟨rsp,_,rfl⟩ := h.new_read hk hk'
      dsimp only at phase
      split_ifs at phase
    | some rd =>
      obtain ⟨rd2,hk2,moved⟩ := h.read hk
      rw [hk'] at hk2
      cases hk2
      cases moved with
      | same => exact hs.unheld ⟨k,rd',hk,phase⟩
      | removeThreadObject => exact hs.unlisted _ (ReadPhase.removed.inj phase)
      | putResponse | notifyNull | notify => cases phase

/-! ### A pool that is used up -/

structure Exhausted (s : State) : Prop where
  idle : s.idle = 0
  stranded : ∀ c call, s.calls c = some call → call.worker.Busy → Stranded s c call

theorem Exhausted.no_start {s t : State} {a : Action} (hx : Exhausted s) (h : Step s a t) :
    a.starts = none := by
  cases h with
  | start _ _ free => exact absurd (free.symm.trans hx.idle) (Nat.succ_ne_zero _)
  | _ => rfl

theorem Exhausted.step {s t : State} {a : Action} (hx : Exhausted s) (h : Step s a t)
    (awake : a.isSpuriousWakeup = false) : Exhausted t := by
  have idle := h.idle
  have starts := hx.no_start h
  have ends : a.ends = none := by
    cases he : a.ends with
    | none => rfl
    | some c =>
      obtain ⟨call,hc,busy⟩ := h.ends_busy he
      have waiting := (hx.stranded c call hc busy).waiting
      cases h with
      | syncFailed hd phase | getResponse hd phase =>
        cases he
        rw [hc] at hd
        cases hd
        rw [waiting] at phase
        cases phase
      | _ => cases he
  rw [starts,ends,hx.idle] at idle
  refine ⟨idle,fun c call' hc' busy => ?_⟩
  have old : Busy s c := by
    rcases (h.busy_iff c).mp ⟨call',hc',busy⟩ with ⟨old,_⟩ | new
    · exact old
    · rw [starts] at new
      cases new
  obtain ⟨call,hc,hb⟩ := old
  obtain ⟨call2,hc2,hs⟩ := (hx.stranded c call hc hb).step hc h awake
  rw [hc'] at hc2
  cases hc2
  exact hs

/-- The task of the call has not been started. -/
def Unstarted (s : State) (c : CallId) : Prop :=
  ∀ call, s.calls c = some call → call.worker = .queued

theorem Unstarted.step {s t : State} {a : Action} {c : CallId} (hu : Unstarted s c)
    (hx : Exhausted s) (h : Step s a t) : Unstarted t c := by
  intro call' hc'
  cases hc : s.calls c with
  | none =>
    obtain ⟨msg,_,_,rfl⟩ := h.new_call hc hc'
    rfl
  | some call =>
    have queued := hu call hc
    obtain ⟨call2,hc2,move⟩ := h.call hc
    rw [hc'] at hc2
    cases hc2
    cases move with
    | same | futureGet | timeout | timeoutRemove => exact queued
    | start =>
      cases h with
      | start _ _ free => exact absurd (free.symm.trans hx.idle) (Nat.succ_ne_zero _)
    | synced h | syncFailed h | putThreadObject h | enterWait h | spuriousWakeup h
    | getResponse h =>
      rw [queued] at h
      cases h
    | notify | timeoutNotify =>
      change call.worker.notify = _
      rw [queued]
      rfl

/-- `write` has returned a result or thrown what the task threw. -/
def Caller.Ended : Caller → Prop
  | .returned _ | .threw => True
  | _ => False

theorem CallMove.outcome {s : State} {c : CallId} {a : Action} {call call' : Call} {r : Caller}
    (h : CallMove s c a call call') (hw : call.worker.outcome = some r) :
    call'.worker.outcome = some r := by
  cases h with
  | same | futureGet | timeout | timeoutRemove => exact hw
  | start h | synced h | syncFailed h | putThreadObject h | enterWait h | spuriousWakeup h
  | getResponse h =>
    rw [h] at hw
    cases hw
  | notify | timeoutNotify =>
    change call.worker.notify.outcome = _
    cases hc : call.worker <;> rw [hc] at hw <;> exact hw

theorem CallMove.ended {s : State} {c : CallId} {a : Action} {call call' : Call}
    (h : CallMove s c a call call') (he : call'.caller.Ended) :
    call.caller = call'.caller ∨ call.worker.outcome = some call'.caller := by
  cases h with
  | futureGet _ done => exact .inr done
  | timeout | timeoutNotify | timeoutRemove => cases he
  | same | start | synced | syncFailed | putThreadObject | enterWait | spuriousWakeup
  | getResponse | notify => exact .inl rfl

/-- A caller that has ended has its result from the worker. -/
theorem ended_run {n : ℕ} {as : List Action} {s : State} (h : Run (machine n) (init n) as s)
    {c : CallId} {call : Call} (hc : s.calls c = some call) (he : call.caller.Ended) :
    call.worker.outcome = some call.caller := by
  refine h.invariant (I := fun s => ∀ c call, s.calls c = some call → call.caller.Ended →
    call.worker.outcome = some call.caller) ?_ ?_ c call hc he
  · intro s a t hi hs c call' hc' he
    rcases (step_cases hs).call_back hc' with ⟨call,hc,move⟩ | ⟨_,msg,_,_,rfl⟩
    · rcases move.ended he with eq | done
      · rw [←eq] at he ⊢
        exact move.outcome (hi c call hc he)
      · exact move.outcome done
    · cases he
  · intro c call hc
    cases hc

theorem Exhausted.run {n : ℕ} {bs : List Action} {s t : State} (hx : Exhausted s)
    (run : Run (machine n) s bs t) (awake : ∀ a ∈ bs, a.isSpuriousWakeup = false) :
    Exhausted t ∧ t.queue = s.queue ++ bs.filterMap Action.submits ∧
      ∀ c, Unstarted s c → Unstarted t c := by
  induction run with
  | nil s => exact ⟨hx,(List.append_nil _).symm,fun _ hu => hu⟩
  | @cons s t u a bs hs tail ih =>
    have step := step_cases hs
    obtain ⟨hx',queue,unstarted⟩ := ih (hx.step step (awake a (by simp)))
      (fun b hb => awake b (by simp [hb]))
    refine ⟨hx',?_,fun c hu => unstarted c (hu.step hx step)⟩
    have submits : (a :: bs).filterMap Action.submits =
        a.submits.toList ++ bs.filterMap Action.submits := by cases h : a.submits <;> simp [h]
    rw [queue,step.queue (hx.no_start step),submits,List.append_assoc]

/-- Once every thread is held by a worker that nobody wakes, every later task stays in the
    queue: its `write` can only time out. -/
theorem exhausted_never_answers {n : ℕ} {as bs : List Action} {s t : State}
    (h : Run (machine n) (init n) as s) (hx : Exhausted s) (run : Run (machine n) s bs t)
    (awake : ∀ a ∈ bs, a.isSpuriousWakeup = false) :
    Exhausted t ∧ t.queue = s.queue ++ bs.filterMap Action.submits ∧
      ∀ c call, Unstarted s c → t.calls c = some call →
        call.worker = .queued ∧ ¬call.caller.Ended := by
  obtain ⟨hx',queue,unstarted⟩ := hx.run run awake
  refine ⟨hx',queue,fun c call hu hc => ?_⟩
  have queued := unstarted c hu call hc
  refine ⟨queued,fun he => ?_⟩
  have outcome := ended_run (h.append run) hc he
  rw [queued] at outcome
  cases outcome

/-! ### Every pool can be used up -/

/-- The caller of `c` times out between `putThreadObject` and `wait`. -/
def strand (msg : Request) (c : CallId) : List Action :=
  [.write c msg,.start c,.synced c,.putThreadObject c,.timeout c,.timeoutNotify c,
    .timeoutRemove c,.enterWait c]

/-- The first `k` calls have been stranded, and nothing else has happened. -/
structure StrandedBelow (n k : ℕ) (s : State) : Prop where
  idle : s.idle + k = n
  queue : s.queue = []
  reads : ∀ j, s.reads j = none
  entries : ∀ q, s.threadObjectMap q = none
  new : ∀ c, k ≤ c → s.calls c = none
  old : ∀ c call, s.calls c = some call → call.worker = .waiting ∧ call.caller = .expired

theorem strand_run {n k : ℕ} {s : State} {msg : Request} (need : msg.needResponse = true)
    (hs : StrandedBelow n k s) (hk : k < n) :
    ∃ t, Run (machine n) s (strand msg k) t ∧ StrandedBelow n (k + 1) t := by
  obtain ⟨m,hm⟩ : ∃ m, s.idle = m + 1 := ⟨s.idle - 1,by have := hs.idle; omega⟩
  have new := hs.new k le_rfl
  have run : exec (machine n) s (strand msg k) = some
      { s.setCall k ⟨msg,.waiting,.expired⟩ with idle := m } := by
    simp [strand,exec,machine,step,workerStep,callerStep,putIfAbsent,State.setCall,
      State.setThreadObject,Call.setWorker,Call.setCaller,Worker.notify,need,new,hm,hs.queue,
      hs.entries]
  refine ⟨_,run_of_exec run,?_,hs.queue,hs.reads,hs.entries,?_,?_⟩
  · have total := hs.idle
    change m + (k + 1) = n
    omega
  · intro c hc
    have ne : c ≠ k := by omega
    exact (State.setCall_of_ne s _ ne).trans (hs.new c (by omega))
  · intro c call hc
    change (s.setCall k _).calls c = some call at hc
    by_cases e : c = k
    · rw [e,State.setCall_self] at hc
      cases hc
      exact ⟨rfl,rfl⟩
    · rw [State.setCall_of_ne _ _ e] at hc
      exact hs.old c call hc

theorem StrandedBelow.exhausted {n : ℕ} {s : State} (hs : StrandedBelow n n s) : Exhausted s := by
  refine ⟨by have := hs.idle; omega,fun c call hc _ => ?_⟩
  obtain ⟨waiting,expired⟩ := hs.old c call hc
  refine ⟨waiting,.inr expired,fun q hq => ?_,?_⟩
  · rw [hs.entries] at hq
    cases hq
  · rintro ⟨k,rd,hk,_⟩
    rw [hs.reads] at hk
    cases hk

theorem strandedBelow_init (n : ℕ) : StrandedBelow n 0 (init n) :=
  ⟨rfl,rfl,fun _ => rfl,fun _ => rfl,fun _ _ => rfl,nofun⟩

/-- With any messages, a pool of any size can be brought into a state in which it serves
    no further call. -/
theorem pool_exhaustible (n : ℕ) (msgs : CallId → Request)
    (need : ∀ c, (msgs c).needResponse = true) :
    ∃ s, Run (machine n) (init n) ((List.range n).flatMap (fun c => strand (msgs c) c)) s ∧
      Exhausted s := by
  have below : ∀ k ≤ n, ∃ s, Run (machine n) (init n)
      ((List.range k).flatMap (fun c => strand (msgs c) c)) s ∧ StrandedBelow n k s := by
    intro k hk
    induction k with
    | zero => exact ⟨init n,.nil _,strandedBelow_init n⟩
    | succ k ih =>
      obtain ⟨s,run,hs⟩ := ih (by omega)
      obtain ⟨t,last,ht⟩ := strand_run (need k) hs (by omega)
      refine ⟨t,?_,ht⟩
      rw [List.range_succ,List.flatMap_append,List.flatMap_singleton]
      exact run.append last
  obtain ⟨s,run,hs⟩ := below n le_rfl
  exact ⟨s,run,hs.exhausted⟩

theorem pool_of_three_exhaustible :
    ∃ s, Run (machine 3) (init 3) ((List.range 3).flatMap (fun c => strand sampleRequest c)) s ∧
      Exhausted s :=
  pool_exhaustible 3 (fun _ => sampleRequest) (fun _ => rfl)

theorem single_thread_exhausted : ∃ s t, Run (machine 1) (init 1) (strand sampleRequest 0) s ∧
    Run (machine 1) s [.write 1 sampleRequest] t ∧ Exhausted t ∧ t.queue = [1] ∧
      ∀ call, t.calls 1 = some call → call.worker = .queued ∧ ¬call.caller.Ended := by
  have need : sampleRequest.needResponse = true := rfl
  obtain ⟨s,run,hs⟩ := strand_run need (strandedBelow_init 1) Nat.one_pos
  have new := hs.new 1 le_rfl
  have last : Run (machine 1) s [.write 1 sampleRequest]
      { s.setCall 1 ⟨sampleRequest,.queued,.waiting⟩ with queue := s.queue ++ [1] } :=
    .cons (by simp [machine,step,new,sampleRequest]) (.nil _)
  obtain ⟨hx,queue,queued⟩ :=
    exhausted_never_answers run hs.exhausted last (by simp [Action.isSpuriousWakeup])
  refine ⟨s,_,run,last,hx,?_,fun call hc => queued 1 call ?_ hc⟩
  · rw [queue,hs.queue]
    rfl
  · intro call' hc'
    rw [new] at hc'
    cases hc'

end SeeU.RpcClientHandler
