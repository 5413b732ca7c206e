import SeeU.RpcClientHandlerCorrelation

set_option autoImplicit false

/-!
# What a finished call leaves behind

The timeout of `write` notifies and removes without regard to where the worker and
the I/O thread are. The condition below is what it would have to rule out.
-/
namespace SeeU.RpcClientHandler
open TransitionSystem

/-- `write` has returned or thrown. -/
def Caller.Finished : Caller → Prop
  | .expired | .returned _ | .threw => True
  | _ => False

def workerActions (c : CallId) : List Action :=
  [.start c,.synced c,.syncFailed c,.putThreadObject c,.enterWait c,.getResponse c]

def readActions (k : ReadId) : List Action :=
  [.putResponse k,.removeThreadObject k,.notify k]

/-- Neither the worker of `c` nor a `channelRead0` of a response with its sequence
    number `q` can take a further step. -/
structure Quiet (s : State) (c : CallId) (q : MsgSeq) : Prop where
  worker : ∀ a ∈ workerActions c, step s a = none
  reads : ∀ k rd, s.reads k = some rd → rd.rsp.msgSeq = q → ∀ a ∈ readActions k, step s a = none

def LeavesNothing (s : State) : Prop :=
  ∀ c call, s.calls c = some call → call.caller.Finished → Quiet s c call.msg.msgSeq →
    s.threadObjectMap call.msg.msgSeq = none ∧ s.responseMap call.msg.msgSeq = none ∧
      call.worker ≠ .waiting

/-- A `channelRead0` that accepted a response with sequence number `q` has yet to
    remove the entry of `q`. -/
def RemovalPending (s : State) (q : MsgSeq) : Prop :=
  ∃ k rd, s.reads k = some rd ∧ rd.rsp.msgSeq = q ∧ (rd.phase = .checked ∨ rd.phase = .stored)

/-- No response is stored for a worker that has returned, no worker is left in the wait
    set without a notify to come, and no entry is left that nobody will remove. -/
def Tidy (s : State) : Action → Prop
  | .putResponse k => ∀ rd c call r, s.reads k = some rd → s.calls c = some call →
      call.msg.msgSeq = rd.rsp.msgSeq → call.worker ≠ .returned r
  | .enterWait c => ∀ call, s.calls c = some call → call.caller = .expired →
      NotifyPending s c ∨
        s.threadObjectMap call.msg.msgSeq ≠ none ∧ RemovalPending s call.msg.msgSeq
  | .timeoutRemove c => ∀ call, s.calls c = some call → call.worker = .waiting →
      NotifyPending s c
  | .futureGet c => ∀ call, s.calls c = some call →
      s.threadObjectMap call.msg.msgSeq ≠ none → RemovalPending s call.msg.msgSeq
  | _ => True

/-! ### The invariant of tidy runs -/

structure Clean (s : State) : Prop where
  threw : ∀ {c : CallId} {call : Call}, s.calls c = some call → call.caller = .threw →
    call.worker = .threw
  unstored : ∀ {c : CallId} {call : Call} {k : ReadId} {r : Option ReadId},
    s.calls c = some call → s.responseMap call.msg.msgSeq = some k → call.worker ≠ .returned r
  entries : ∀ {c : CallId} {call : Call}, s.calls c = some call → call.caller.Finished →
    s.threadObjectMap call.msg.msgSeq ≠ none →
    call.worker = .registered ∨ RemovalPending s call.msg.msgSeq
  waiting : ∀ {c : CallId} {call : Call}, s.calls c = some call → call.caller = .expired →
    call.worker = .waiting → NotifyPending s c ∨
      s.threadObjectMap call.msg.msgSeq ≠ none ∧ RemovalPending s call.msg.msgSeq

section Moves
variable {s : State} {c : CallId} {a : Action} {call call' : Call}

theorem CallMove.threw (h : CallMove s c a call call') (hw : call.worker = .threw) :
    call'.worker = .threw := by
  cases h with
  | same | futureGet | timeout | timeoutRemove => exact hw
  | start h | synced h | syncFailed h | putThreadObject h | enterWait h | spuriousWakeup h
  | getResponse h =>
    rw [h] at hw
    cases hw
  | notify | timeoutNotify =>
    change call.worker.notify = _
    rw [hw]
    rfl

theorem CallMove.throws (h : CallMove s c a call call') (hr : call'.caller = .threw) :
    call.caller = .threw ∨ call.worker = .threw := by
  cases h with
  | @futureGet _ res phase done =>
    change res = .threw at hr
    subst hr
    cases hw : call.worker <;> rw [hw] at done <;> cases done
    exact .inr rfl
  | timeout | timeoutNotify | timeoutRemove => cases hr
  | same | start | synced | syncFailed | putThreadObject | enterWait | spuriousWakeup
  | getResponse | notify => exact .inl hr

theorem CallMove.finishes (h : CallMove s c a call call') (hf : call'.caller.Finished) :
    call.caller.Finished ∨ a = .futureGet c ∨ a = .timeoutRemove c := by
  cases h with
  | futureGet => exact .inr (.inl rfl)
  | timeoutRemove => exact .inr (.inr rfl)
  | timeout | timeoutNotify => cases hf
  | same | start | synced | syncFailed | putThreadObject | enterWait | spuriousWakeup
  | getResponse | notify => exact .inl hf

theorem CallMove.expires (h : CallMove s c a call call') (he : call'.caller = .expired) :
    call.caller = .expired ∨ a = .timeoutRemove c := by
  cases h with
  | @futureGet _ res phase done =>
    change res = .expired at he
    subst he
    cases hw : call.worker <;> rw [hw] at done <;> cases done
  | timeoutRemove => exact .inr rfl
  | timeout | timeoutNotify => cases he
  | same | start | synced | syncFailed | putThreadObject | enterWait | spuriousWakeup
  | getResponse | notify => exact .inl he

theorem CallMove.from_registered (h : CallMove s c a call call')
    (hw : call.worker = .registered) : call'.worker = .registered ∨ a = .enterWait c := by
  cases h with
  | same | futureGet | timeout | timeoutRemove => exact .inl hw
  | enterWait => exact .inr rfl
  | start h | synced h | syncFailed h | putThreadObject h | spuriousWakeup h | getResponse h =>
    rw [h] at hw
    cases hw
  | notify | timeoutNotify =>
    left
    change call.worker.notify = _
    rw [hw]
    rfl

end Moves

section Preservation
variable {s t : State} {a : Action}

theorem Step.removal_pending (h : Step s a t) {q : MsgSeq} (hs : RemovalPending s q)
    (ht : t.threadObjectMap q ≠ none) : RemovalPending t q := by
  obtain ⟨k,rd,hk,seq,phase⟩ := hs
  obtain ⟨rd',hk',move⟩ := h.read hk
  refine ⟨k,rd',hk',by rw [move.rsp_eq,seq],?_⟩
  cases move with
  | same => exact phase
  | putResponse => exact .inr rfl
  | removeThreadObject _ =>
    cases h with
    | removeThreadObject hj _ =>
      rw [hk] at hj
      cases hj
      rw [←seq] at ht
      exact absurd (Function.update_self _ _ _) ht
  | notifyNull p | notify p =>
    rw [p] at phase
    rcases phase with phase | phase <;> cases phase

theorem clean_unstored (hd : Clean s) (tidy : Tidy s a) (h : Step s a t) {c : CallId}
    {call' : Call} {k : ReadId} {r : Option ReadId} (hc' : t.calls c = some call')
    (ht : t.responseMap call'.msg.msgSeq = some k) : call'.worker ≠ .returned r := by
  intro hw
  rcases h.call_back hc' with ⟨call,hc,move⟩ | ⟨_,msg,_,_,rfl⟩
  · rw [move.msg_eq] at ht
    rcases h.response ht with hs | ⟨rd,rfl,hk,_,seq⟩
    · rcases move.returns hw with hw0 | ⟨rfl,_⟩
      · exact hd.unstored hc hs hw0
      · cases h with
        | getResponse hc0 _ =>
          rw [hc] at hc0
          cases hc0
          change Function.update _ _ _ _ = _ at ht
          rw [Function.update_self] at ht
          cases ht
    · rcases move.returns hw with hw0 | ⟨e,_⟩
      · exact tidy rd c call r hk hc seq.symm hw0
      · cases e
  · cases hw

theorem expired_of_registered (hi : Inv s) (hd : Clean s) {c : CallId} {call : Call}
    (hc : s.calls c = some call) (fin : call.caller.Finished)
    (registered : call.worker = .registered ∨ call.worker = .waiting) :
    call.caller = .expired := by
  cases hr : call.caller with
  | expired => rfl
  | returned r =>
    rw [hi.result hc hr] at registered
    rcases registered with w | w <;> cases w
  | threw =>
    rw [hd.threw hc hr] at registered
    rcases registered with w | w <;> cases w
  | waiting | timedOut | notified =>
    rw [hr] at fin
    cases fin

theorem NotifyPending.no_entry (hi : Inv s) {c : CallId} {call : Call}
    (pending : NotifyPending s c) (hc : s.calls c = some call) :
    s.threadObjectMap call.msg.msgSeq = none := by
  obtain ⟨k,rd,hk,removed⟩ := pending
  obtain ⟨calld,hcd,seq⟩ := hi.held hk removed
  rw [hc] at hcd
  cases hcd
  rw [seq]
  exact hi.removed hk (by rw [removed]; trivial)

theorem clean_entries (hi : Inv s) (hd : Clean s) (tidy : Tidy s a) (h : Step s a t)
    {c : CallId} {call' : Call} (hc' : t.calls c = some call') (fin : call'.caller.Finished)
    (ht : t.threadObjectMap call'.msg.msgSeq ≠ none) :
    call'.worker = .registered ∨ RemovalPending t call'.msg.msgSeq := by
  rcases h.call_back hc' with ⟨call,hc,move⟩ | ⟨_,msg,_,_,rfl⟩
  · rw [move.msg_eq] at ht ⊢
    obtain ⟨d,hd'⟩ := Option.ne_none_iff_exists'.mp ht
    rcases h.threadObject hd' with hs | ⟨calld,rfl,hcd,_,seq⟩
    · have present : s.threadObjectMap call.msg.msgSeq ≠ none := by simp [hs]
      rcases move.finishes fin with fin0 | rfl | rfl
      · rcases hd.entries hc fin0 present with reg | pending
        · rcases move.from_registered reg with reg' | rfl
          · exact .inl reg'
          · have expired := expired_of_registered hi hd hc fin0 (.inl reg)
            rcases tidy call hc expired with pending | ⟨_,pending⟩
            · exact absurd (pending.no_entry hi hc) present
            · exact .inr (h.removal_pending pending ht)
        · exact .inr (h.removal_pending pending ht)
      · exact .inr (h.removal_pending (tidy call hc present) ht)
      · cases h with
        | timeoutRemove hc0 _ =>
          rw [hc] at hc0
          cases hc0
          exact absurd (Function.update_self _ _ _) ht
    · have dc := hi.distinct hcd hc seq
      subst dc
      cases h with
      | putThreadObject _ _ =>
        rw [State.setCall_self] at hc'
        cases hc'
        exact .inl rfl
  · cases fin

theorem clean_waiting (hi : Inv s) (hd : Clean s) (tidy : Tidy s a) (h : Step s a t)
    {c : CallId} {call' : Call} (hc' : t.calls c = some call') (expired : call'.caller = .expired)
    (waits : call'.worker = .waiting) : NotifyPending t c ∨
      t.threadObjectMap call'.msg.msgSeq ≠ none ∧ RemovalPending t call'.msg.msgSeq := by
  have keep : NotifyPending s c → NotifyPending t c := by
    rintro ⟨k,rd,hk,removed⟩
    exact ⟨k,rd,h.still_pending hk removed hc' waits,removed⟩
  rcases h.call_back hc' with ⟨call,hc,move⟩ | ⟨_,msg,_,_,rfl⟩
  · rw [move.msg_eq]
    have carry : call.caller ≠ .notified → NotifyPending s c ∨
        s.threadObjectMap call.msg.msgSeq ≠ none ∧ RemovalPending s call.msg.msgSeq →
        NotifyPending t c ∨
          t.threadObjectMap call.msg.msgSeq ≠ none ∧ RemovalPending t call.msg.msgSeq := by
      rintro early (pending | ⟨present,pending⟩)
      · exact .inl (keep pending)
      · by_cases ht : t.threadObjectMap call.msg.msgSeq = none
        · obtain ⟨d,hs⟩ := Option.ne_none_iff_exists'.mp present
          obtain ⟨k,rd,_,_,_,hk⟩ := entry_taken hi h hc early hs ht
          exact .inl ⟨k,_,hk,rfl⟩
        · exact .inr ⟨ht,h.removal_pending pending ht⟩
    rcases move.expires expired with expired0 | rfl
    · have early : call.caller ≠ .notified := by
        rw [expired0]
        exact Caller.noConfusion
      rcases move.waits waits with waits0 | ⟨rfl,_⟩
      · exact carry early (hd.waiting hc expired0 waits0)
      · exact carry early (tidy call hc expired0)
    · rcases move.waits waits with waits0 | ⟨e,_⟩
      · exact .inl (keep (tidy call hc waits0))
      · cases e
  · cases expired

theorem clean_threw (hd : Clean s) (h : Step s a t) {c : CallId} {call' : Call}
    (hc' : t.calls c = some call') (threw : call'.caller = .threw) : call'.worker = .threw := by
  rcases h.call_back hc' with ⟨call,hc,move⟩ | ⟨_,msg,_,_,rfl⟩
  · rcases move.throws threw with threw0 | hw
    · exact move.threw (hd.threw hc threw0)
    · exact move.threw hw
  · cases threw

theorem clean_step (hi : Inv s) (hd : Clean s) (tidy : Tidy s a) (h : Step s a t) : Clean t where
  threw := clean_threw hd h
  unstored := clean_unstored hd tidy h
  entries := clean_entries hi hd tidy h
  waiting := clean_waiting hi hd tidy h

end Preservation

theorem clean_init (n : ℕ) : Clean (init n) := by
  constructor <;> intros <;> simp_all [init]

theorem clean_run {n : ℕ} {as : List Action} {s : State}
    (h : Run (machine n) (init n) as s) (fresh : Guarded (machine n) FreshSeq (init n) as)
    (tidy : Guarded (machine n) Tidy (init n) as) : Inv s ∧ Clean s := by
  apply h.guarded_invariant (I := fun s => Inv s ∧ Clean s) _ (fresh.and tidy)
    ⟨inv_init n,clean_init n⟩
  rintro s a t ⟨hi,hd⟩ ⟨hf,ht⟩ hs
  have step := step_cases hs
  exact ⟨inv_step hi hf step,clean_step hi hd ht step⟩

/-! ### States in which a call has come to rest -/

section Rest
variable {s : State} {c : CallId} {call : Call}

theorem Quiet.worker_rests (quiet : Quiet s c call.msg.msgSeq) (hc : s.calls c = some call) :
    call.worker ≠ .registered ∧ call.worker ≠ .woken := by
  constructor
  · intro phase
    have stuck := quiet.worker (.enterWait c) (by simp [workerActions])
    simp [step,workerStep,hc,phase] at stuck
  · intro phase
    have stuck := quiet.worker (.getResponse c) (by simp [workerActions])
    simp [step,workerStep,hc,phase] at stuck

theorem Quiet.no_removal {q : MsgSeq} (quiet : Quiet s c q) : ¬RemovalPending s q := by
  rintro ⟨k,rd,hk,seq,phase | phase⟩
  · have stuck := quiet.reads k rd hk seq (.putResponse k) (by simp [readActions])
    simp [step,readStep,hk,phase] at stuck
  · have stuck := quiet.reads k rd hk seq (.removeThreadObject k) (by simp [readActions])
    simp [step,readStep,hk,phase] at stuck

theorem Quiet.no_notify (hi : Inv s) (quiet : Quiet s c call.msg.msgSeq)
    (hc : s.calls c = some call) : ¬NotifyPending s c := by
  rintro ⟨k,rd,hk,removed⟩
  obtain ⟨call',hc',seq⟩ := hi.held hk removed
  rw [hc] at hc'
  cases hc'
  have stuck := quiet.reads k rd hk seq.symm (.notify k) (by simp [readActions])
  simp [step,hk,removed,hc] at stuck

theorem not_waiting_at_rest (hi : Inv s) (hd : Clean s) (hc : s.calls c = some call)
    (fin : call.caller.Finished) (quiet : Quiet s c call.msg.msgSeq) : call.worker ≠ .waiting := by
  intro waits
  have expired := expired_of_registered hi hd hc fin (.inr waits)
  rcases hd.waiting hc expired waits with pending | ⟨_,pending⟩
  · exact quiet.no_notify hi hc pending
  · exact quiet.no_removal pending

theorem no_entry_at_rest (hd : Clean s) (hc : s.calls c = some call)
    (fin : call.caller.Finished) (quiet : Quiet s c call.msg.msgSeq) :
    s.threadObjectMap call.msg.msgSeq = none := by
  by_contra present
  rcases hd.entries hc fin present with registered | pending
  · exact (quiet.worker_rests hc).1 registered
  · exact quiet.no_removal pending

theorem no_response_at_rest (hi : Inv s) (hd : Clean s) (hc : s.calls c = some call)
    (fin : call.caller.Finished) (quiet : Quiet s c call.msg.msgSeq) :
    s.responseMap call.msg.msgSeq = none := by
  by_contra present
  obtain ⟨k,hk⟩ := Option.ne_none_iff_exists'.mp present
  obtain ⟨rd,hrd,seq,accepted⟩ := hi.responses hk
  obtain ⟨d,calld,hcd,hq,registered⟩ := hi.accepted hrd accepted
  have dc := hi.distinct hcd hc (by rw [hq,seq])
  subst dc
  rw [hc] at hcd
  cases hcd
  cases hw : call.worker with
  | returned r => exact hd.unstored hc hk hw
  | waiting => exact not_waiting_at_rest hi hd hc fin quiet hw
  | registered => exact (quiet.worker_rests hc).1 hw
  | woken => exact (quiet.worker_rests hc).2 hw
  | queued | sending | sent | threw =>
    rw [hw] at registered
    cases registered

end Rest

/-- In a tidy run of calls with distinct sequence numbers a finished call leaves
    nothing behind. -/
theorem tidy_leaves_nothing {n : ℕ} {as : List Action} {s : State}
    (h : Run (machine n) (init n) as s) (fresh : Guarded (machine n) FreshSeq (init n) as)
    (tidy : Guarded (machine n) Tidy (init n) as) : LeavesNothing s := by
  intro c call hc fin quiet
  obtain ⟨hi,hd⟩ := clean_run h fresh tidy
  exact ⟨no_entry_at_rest hd hc fin quiet,no_response_at_rest hi hd hc fin quiet,
    not_waiting_at_rest hi hd hc fin quiet⟩

theorem answeredRun_tidy : Guarded (machine 12) Tidy (init 12) answeredRun := by
  refine .cons rfl trivial (.cons rfl trivial (.cons rfl trivial (.cons rfl trivial
    (.cons rfl ?_ (.cons rfl trivial (.cons rfl ?_ (.cons rfl trivial (.cons rfl trivial
      (.cons rfl trivial (.cons rfl ?_ trivial))))))))))
  · intro call hc expired
    cases hc
    cases expired
  · intro rd c call r _ hc
    by_cases h : c = 0
    · subst h
      cases hc
      exact fun _ => Worker.noConfusion
    · simp [State.setCall_of_ne,h,init] at hc
  · intro call hc present
    cases hc
    exact absurd rfl present

theorem answered_leaves_nothing :
    LeavesNothing (endOf (machine 12) (init 12) answeredRun (by decide)) :=
  tidy_leaves_nothing (run_endOf _) (fresh_single 12 0 sampleRequest _ (by decide))
    answeredRun_tidy

/-! ### Runs that leave something behind -/

/-- The timeout comes while the task is still in the queue of the pool. -/
def timeoutInQueue : List Action :=
  [.write 0 sampleRequest,.timeout 0,.timeoutNotify 0,.timeoutRemove 0,.start 0,.synced 0,
    .putThreadObject 0,.enterWait 0]

/-- The timeout comes between `containsKey` and `put` of `channelRead0`. -/
def timeoutBeforePut : List Action :=
  [.write 0 sampleRequest,.start 0,.synced 0,.putThreadObject 0,.enterWait 0,
    .channelRead 0 sampleResponse,.timeout 0,.timeoutNotify 0,.getResponse 0,.timeoutRemove 0,
    .putResponse 0,.removeThreadObject 0,.notify 0]

theorem calls_left_behind :
    (∃ s, Run (machine 12) (init 12) timeoutInQueue s ∧
      Guarded (machine 12) FreshSeq (init 12) timeoutInQueue ∧ ¬LeavesNothing s) ∧
    (∃ s, Run (machine 12) (init 12) timeoutBeforePut s ∧
      Guarded (machine 12) FreshSeq (init 12) timeoutBeforePut ∧ ¬LeavesNothing s) := by
  constructor
  · have run : Run (machine 12) (init 12) timeoutInQueue _ := run_endOf (by decide)
    refine ⟨_,run,fresh_single 12 0 sampleRequest _ (by decide),?_⟩
    intro nothing
    refine (nothing 0 _ rfl trivial ⟨?_,?_⟩).2.2 rfl
    · intro a ha
      simp only [workerActions,List.mem_cons,List.not_mem_nil,or_false] at ha
      rcases ha with rfl | rfl | rfl | rfl | rfl | rfl <;> rfl
    · intro k rd hk
      cases hk
  · have run : Run (machine 12) (init 12) timeoutBeforePut _ := run_endOf (by decide)
    refine ⟨_,run,fresh_single 12 0 sampleRequest _ (by decide),?_⟩
    intro nothing
    refine Option.some_ne_none 0 (nothing 0 _ rfl trivial ⟨?_,?_⟩).2.1
    · intro a ha
      simp only [workerActions,List.mem_cons,List.not_mem_nil,or_false] at ha
      rcases ha with rfl | rfl | rfl | rfl | rfl | rfl <;> rfl
    · intro k rd hk _ a ha
      obtain ⟨rsp,mem⟩ := read_entered run hk
      obtain ⟨rfl,_⟩ : k = 0 ∧ rsp = sampleResponse := by simpa [timeoutBeforePut] using mem
      simp only [readActions,List.mem_cons,List.not_mem_nil,or_false] at ha
      rcases ha with rfl | rfl | rfl <;> rfl

end SeeU.RpcClientHandler
