import SeeU.RpcClientHandlerMoves

set_option autoImplicit false

/-!
# Every entry of the two maps belongs to one call

The invariant ties the entries of `threadObjectMap` and `responseMap` to the
phases of the calls and reads, for runs whose calls use distinct sequence numbers.
-/
namespace SeeU.RpcClientHandler
open TransitionSystem

/-- The worker has executed `putThreadObject`. -/
def Worker.Registered : Worker → Prop
  | .registered | .waiting | .woken | .returned _ => True
  | _ => False

/-- `channelRead0` has executed `threadObjectMap.remove`. -/
def ReadPhase.Removed : ReadPhase → Prop
  | .removed _ | .finished | .threw => True
  | _ => False

/-- A `channelRead0` holds the request object of `c` and has yet to notify it. -/
def NotifyPending (s : State) (c : CallId) : Prop :=
  ∃ k rd, s.reads k = some rd ∧ rd.phase = .removed (some c)

/-- A `write` that waits for a response uses a sequence number no earlier one used. -/
def FreshSeq (s : State) : Action → Prop
  | .write _ msg => msg.needResponse = true →
      ∀ d call, s.calls d = some call → call.msg.msgSeq ≠ msg.msgSeq
  | _ => True

structure Inv (s : State) : Prop where
  distinct : ∀ {c d : CallId} {callc calld : Call}, s.calls c = some callc →
    s.calls d = some calld → callc.msg.msgSeq = calld.msg.msgSeq → c = d
  objects : ∀ {q : MsgSeq} {c : CallId}, s.threadObjectMap q = some c →
    ∃ call, s.calls c = some call ∧ call.msg.msgSeq = q ∧ call.worker.Registered
  accepted : ∀ {k : ReadId} {rd : Read}, s.reads k = some rd → rd.phase ≠ .dropped →
    ∃ c call, s.calls c = some call ∧ call.msg.msgSeq = rd.rsp.msgSeq ∧ call.worker.Registered
  removed : ∀ {k : ReadId} {rd : Read}, s.reads k = some rd → rd.phase.Removed →
    s.threadObjectMap rd.rsp.msgSeq = none
  held : ∀ {k : ReadId} {rd : Read} {c : CallId}, s.reads k = some rd →
    rd.phase = .removed (some c) → ∃ call, s.calls c = some call ∧
      call.msg.msgSeq = rd.rsp.msgSeq
  responses : ∀ {q : MsgSeq} {k : ReadId}, s.responseMap q = some k →
    ∃ rd, s.reads k = some rd ∧ rd.rsp.msgSeq = q ∧ rd.phase ≠ .dropped
  taken : ∀ {c : CallId} {call : Call} {k : ReadId}, s.calls c = some call →
    call.worker = .returned (some k) →
    ∃ rd, s.reads k = some rd ∧ rd.rsp.msgSeq = call.msg.msgSeq ∧ rd.phase ≠ .dropped
  result : ∀ {c : CallId} {call : Call} {r : Option ReadId}, s.calls c = some call →
    call.caller = .returned r → call.worker = .returned r

/-! ### Moves of calls and reads -/

section Moves
variable {s : State} {c : CallId} {a : Action} {call call' : Call}

theorem CallMove.msg_eq (h : CallMove s c a call call') : call'.msg = call.msg := by
  cases h <;> rfl

theorem Worker.Registered.notify {w : Worker} (h : w.Registered) : w.notify.Registered := by
  cases w <;> trivial

theorem CallMove.registered (h : CallMove s c a call call') (hr : call.worker.Registered) :
    call'.worker.Registered := by
  cases h with
  | same | futureGet | timeout | timeoutRemove => exact hr
  | start h | synced h | syncFailed h | putThreadObject h =>
    rw [h] at hr
    cases hr
  | enterWait | spuriousWakeup | getResponse => trivial
  | notify | timeoutNotify => exact hr.notify

theorem CallMove.returned (h : CallMove s c a call call') {r : Option ReadId}
    (hr : call.worker = .returned r) : call'.worker = .returned r := by
  cases h with
  | same | futureGet | timeout | timeoutRemove => exact hr
  | start h | synced h | syncFailed h | putThreadObject h | enterWait h | spuriousWakeup h
  | getResponse h =>
    rw [h] at hr
    cases hr
  | notify | timeoutNotify =>
    change call.worker.notify = _
    rw [hr]
    rfl

theorem CallMove.returns (h : CallMove s c a call call') {r : Option ReadId}
    (hr : call'.worker = .returned r) : call.worker = .returned r ∨
      (a = .getResponse c ∧ s.responseMap call.msg.msgSeq = r) := by
  have notify : call.worker.notify = .returned r → call.worker = .returned r := by
    intro hn
    cases hw : call.worker <;> rw [hw] at hn <;> cases hn
    rfl
  cases h with
  | same | futureGet | timeout | timeoutRemove => exact .inl hr
  | start | synced | syncFailed | putThreadObject | enterWait | spuriousWakeup => cases hr
  | getResponse h => exact .inr ⟨rfl,Worker.returned.inj hr⟩
  | notify | timeoutNotify => exact .inl (notify hr)

theorem CallMove.result (h : CallMove s c a call call') {r : Option ReadId}
    (hr : call'.caller = .returned r) : call.caller = .returned r ∨
      call.worker = .returned r := by
  cases h with
  | @futureGet _ res phase done =>
    change res = .returned r at hr
    subst hr
    cases hw : call.worker <;> rw [hw] at done <;> cases done
    exact .inr rfl
  | timeout | timeoutNotify | timeoutRemove => cases hr
  | same | start | synced | syncFailed | putThreadObject | enterWait | spuriousWakeup
  | getResponse | notify => exact .inl hr

theorem CallMove.registers (h : CallMove s c a call call') (hr : call'.worker.Registered) :
    call.worker.Registered ∨ (a = .putThreadObject c ∧ call.worker = .sent) := by
  have notify : call.worker.notify.Registered → call.worker.Registered := by
    intro hn
    cases hw : call.worker <;> rw [hw] at hn <;> trivial
  cases h with
  | same | futureGet | timeout | timeoutRemove => exact .inl hr
  | start | synced | syncFailed => cases hr
  | putThreadObject h => exact .inr ⟨rfl,h⟩
  | enterWait h | spuriousWakeup h | getResponse h =>
    left
    rw [h]
    trivial
  | notify | timeoutNotify => exact .inl (notify hr)

theorem CallMove.waits (h : CallMove s c a call call') (hw : call'.worker = .waiting) :
    call.worker = .waiting ∨ (a = .enterWait c ∧ call.worker = .registered) := by
  cases h with
  | same | futureGet | timeout | timeoutRemove => exact .inl hw
  | enterWait h => exact .inr ⟨rfl,h⟩
  | start | synced | syncFailed | putThreadObject | spuriousWakeup | getResponse => cases hw
  | notify | timeoutNotify => exact absurd hw (Worker.notify_ne_waiting _)

variable {k : ReadId} {rd rd' : Read}

theorem ReadMove.rsp_eq (h : ReadMove s k a rd rd') : rd'.rsp = rd.rsp := by
  cases h <;> rfl

theorem ReadMove.dropped_iff (h : ReadMove s k a rd rd') :
    rd'.phase = .dropped ↔ rd.phase = .dropped := by
  cases h with
  | same => rfl
  | putResponse h | removeThreadObject h | notifyNull h | notify h => simp [h]

theorem ReadMove.removed (h : ReadMove s k a rd rd') (hr : rd'.phase.Removed) :
    rd.phase.Removed ∨ (a = .removeThreadObject k ∧ rd.phase = .stored) := by
  cases h with
  | same => exact .inl hr
  | putResponse => cases hr
  | removeThreadObject h => exact .inr ⟨rfl,h⟩
  | notifyNull h | notify h =>
    left
    rw [h]
    trivial

theorem ReadMove.holds (h : ReadMove s k a rd rd') {d : CallId}
    (hr : rd'.phase = .removed (some d)) :
    rd.phase = .removed (some d) ∨ s.threadObjectMap rd.rsp.msgSeq = some d := by
  cases h with
  | same => exact .inl hr
  | removeThreadObject h => exact .inr (ReadPhase.removed.inj hr)
  | putResponse | notifyNull | notify => cases hr

end Moves

/-! ### The invariant is kept -/

theorem inv_init (n : ℕ) : Inv (init n) := by
  constructor <;> intros <;> simp_all [init]

section Preservation
variable {s t : State} {a : Action}

theorem Step.call_back (h : Step s a t) {c : CallId} {call' : Call}
    (ht : t.calls c = some call') :
    (∃ call, s.calls c = some call ∧ CallMove s c a call call') ∨
      s.calls c = none ∧ ∃ msg, a = .write c msg ∧ msg.needResponse = true ∧
        call' = ⟨msg,.queued,.waiting⟩ := by
  cases hs : s.calls c with
  | none => exact .inr ⟨rfl,h.new_call hs ht⟩
  | some call =>
    obtain ⟨call'',hc,move⟩ := h.call hs
    rw [ht] at hc
    cases hc
    exact .inl ⟨call,rfl,move⟩

theorem Step.read_back (h : Step s a t) {k : ReadId} {rd' : Read} (ht : t.reads k = some rd') :
    (∃ rd, s.reads k = some rd ∧ ReadMove s k a rd rd') ∨
      s.reads k = none ∧ ∃ rsp, a = .channelRead k rsp ∧
        rd' = ⟨rsp,if (s.threadObjectMap rsp.msgSeq).isSome then .checked else .dropped⟩ := by
  cases hs : s.reads k with
  | none => exact .inr ⟨rfl,h.new_read hs ht⟩
  | some rd =>
    obtain ⟨rd'',hk,move⟩ := h.read hs
    rw [ht] at hk
    cases hk
    exact .inl ⟨rd,rfl,move⟩

theorem Step.registered (h : Step s a t) {q : MsgSeq} {c : CallId}
    (hs : ∃ call, s.calls c = some call ∧ call.msg.msgSeq = q ∧ call.worker.Registered) :
    ∃ call, t.calls c = some call ∧ call.msg.msgSeq = q ∧ call.worker.Registered := by
  obtain ⟨call,hc,hq,hr⟩ := hs
  obtain ⟨call',hc',move⟩ := h.call hc
  exact ⟨call',hc',by rw [move.msg_eq,hq],move.registered hr⟩

theorem Step.accepted (h : Step s a t) {q : MsgSeq} {k : ReadId}
    (hs : ∃ rd, s.reads k = some rd ∧ rd.rsp.msgSeq = q ∧ rd.phase ≠ .dropped) :
    ∃ rd, t.reads k = some rd ∧ rd.rsp.msgSeq = q ∧ rd.phase ≠ .dropped := by
  obtain ⟨rd,hk,hq,hd⟩ := hs
  obtain ⟨rd',hk',move⟩ := h.read hk
  exact ⟨rd',hk',by rw [move.rsp_eq,hq],fun e => hd (move.dropped_iff.mp e)⟩

theorem inv_distinct (hi : Inv s) (fresh : FreshSeq s a) (h : Step s a t) {c d : CallId}
    {callc calld : Call} (hc : t.calls c = some callc) (hd : t.calls d = some calld)
    (eq : callc.msg.msgSeq = calld.msg.msgSeq) : c = d := by
  rcases h.call_back hc with ⟨c0,hc0,mc⟩ | ⟨hc0,msgc,ha,need,rfl⟩
  · rcases h.call_back hd with ⟨d0,hd0,md⟩ | ⟨_,msgd,ha,need,rfl⟩
    · rw [mc.msg_eq,md.msg_eq] at eq
      exact hi.distinct hc0 hd0 eq
    · subst ha
      rw [mc.msg_eq] at eq
      exact absurd eq (fresh need c c0 hc0)
  · rcases h.call_back hd with ⟨d0,hd0,md⟩ | ⟨_,msgd,ha',_,_⟩
    · subst ha
      rw [md.msg_eq] at eq
      exact absurd eq.symm (fresh need d d0 hd0)
    · rw [ha] at ha'
      cases ha'
      rfl

theorem inv_objects (hi : Inv s) (h : Step s a t) {q : MsgSeq} {c : CallId}
    (ht : t.threadObjectMap q = some c) :
    ∃ call, t.calls c = some call ∧ call.msg.msgSeq = q ∧ call.worker.Registered := by
  rcases h.threadObject ht with hs | ⟨call,rfl,hc,phase,hq⟩
  · exact h.registered (hi.objects hs)
  · cases h with
    | putThreadObject hd _ =>
      rw [hc] at hd
      cases hd
      exact ⟨_,State.setCall_self _ _ _,hq,trivial⟩

theorem inv_accepted (hi : Inv s) (h : Step s a t) {k : ReadId} {rd : Read}
    (hk : t.reads k = some rd) (hd : rd.phase ≠ .dropped) :
    ∃ c call, t.calls c = some call ∧ call.msg.msgSeq = rd.rsp.msgSeq ∧
      call.worker.Registered := by
  rcases h.read_back hk with ⟨rd0,hk0,move⟩ | ⟨_,rsp,_,rfl⟩
  · obtain ⟨c,hc⟩ := hi.accepted hk0 (fun e => hd (move.dropped_iff.mpr e))
    rw [move.rsp_eq]
    exact ⟨c,h.registered hc⟩
  · cases ho : s.threadObjectMap rsp.msgSeq with
    | none =>
      rw [ho] at hd
      exact absurd rfl hd
    | some c => exact ⟨c,h.registered (hi.objects ho)⟩

theorem not_put (hi : Inv s) {k : ReadId} {rd : Read} (hk : s.reads k = some rd)
    (hd : rd.phase ≠ .dropped) {c : CallId} {call : Call} (hc : s.calls c = some call)
    (phase : call.worker = .sent) : call.msg.msgSeq ≠ rd.rsp.msgSeq := by
  intro eq
  obtain ⟨d,call',hd',hq,hr⟩ := hi.accepted hk hd
  have cd := hi.distinct hc hd' (by rw [eq,hq])
  subst cd
  rw [hc] at hd'
  cases hd'
  rw [phase] at hr
  cases hr

theorem ReadPhase.Removed.accepted {p : ReadPhase} (h : p.Removed) : p ≠ .dropped := by
  intro e
  rw [e] at h
  cases h

theorem inv_removed (hi : Inv s) (h : Step s a t) {k : ReadId} {rd : Read}
    (hk : t.reads k = some rd) (hr : rd.phase.Removed) :
    t.threadObjectMap rd.rsp.msgSeq = none := by
  rcases h.read_back hk with ⟨rd0,hk0,move⟩ | ⟨_,rsp,_,rfl⟩
  · rw [move.rsp_eq]
    have accepted := fun e => hr.accepted (move.dropped_iff.mpr e)
    rcases move.removed hr with hr0 | ⟨rfl,hs⟩
    · by_contra ne
      obtain ⟨c,hc⟩ := Option.ne_none_iff_exists'.mp ne
      rcases h.threadObject hc with hs | ⟨call,_,hcall,phase,hq⟩
      · rw [hi.removed hk0 hr0] at hs
        cases hs
      · exact not_put hi hk0 accepted hcall phase hq
    · cases h with
      | removeThreadObject hj _ =>
        rw [hk0] at hj
        cases hj
        exact Function.update_self _ _ _
  · exfalso
    change ReadPhase.Removed (if _ then _ else _) at hr
    split_ifs at hr <;> cases hr

theorem inv_held (hi : Inv s) (h : Step s a t) {k : ReadId} {rd : Read} {c : CallId}
    (hk : t.reads k = some rd) (hp : rd.phase = .removed (some c)) :
    ∃ call, t.calls c = some call ∧ call.msg.msgSeq = rd.rsp.msgSeq := by
  have keep : (∃ call, s.calls c = some call ∧ call.msg.msgSeq = rd.rsp.msgSeq) →
      ∃ call, t.calls c = some call ∧ call.msg.msgSeq = rd.rsp.msgSeq := by
    rintro ⟨call,hc,hq⟩
    obtain ⟨call',hc',move⟩ := h.call hc
    exact ⟨call',hc',by rw [move.msg_eq,hq]⟩
  rcases h.read_back hk with ⟨rd0,hk0,move⟩ | ⟨_,rsp,_,rfl⟩
  · apply keep
    rw [move.rsp_eq]
    rcases move.holds hp with hp0 | ho
    · exact hi.held hk0 hp0
    · obtain ⟨call,hc,hq,_⟩ := hi.objects ho
      exact ⟨call,hc,hq⟩
  · exfalso
    change (if _ then _ else _) = _ at hp
    split_ifs at hp

theorem inv_responses (hi : Inv s) (h : Step s a t) {q : MsgSeq} {k : ReadId}
    (ht : t.responseMap q = some k) :
    ∃ rd, t.reads k = some rd ∧ rd.rsp.msgSeq = q ∧ rd.phase ≠ .dropped := by
  rcases h.response ht with hs | ⟨rd,_,hk,phase,hq⟩
  · exact h.accepted (hi.responses hs)
  · exact h.accepted ⟨rd,hk,hq,by rw [phase]; exact ReadPhase.noConfusion⟩

theorem inv_taken (hi : Inv s) (h : Step s a t) {c : CallId} {call : Call} {k : ReadId}
    (hc : t.calls c = some call) (hw : call.worker = .returned (some k)) :
    ∃ rd, t.reads k = some rd ∧ rd.rsp.msgSeq = call.msg.msgSeq ∧ rd.phase ≠ .dropped := by
  rcases h.call_back hc with ⟨c0,hc0,move⟩ | ⟨_,msg,_,_,rfl⟩
  · rw [move.msg_eq]
    rcases move.returns hw with hw0 | ⟨_,hr⟩
    · exact h.accepted (hi.taken hc0 hw0)
    · exact h.accepted (hi.responses hr)
  · cases hw

theorem inv_result (hi : Inv s) (h : Step s a t) {c : CallId} {call : Call}
    {r : Option ReadId} (hc : t.calls c = some call) (hr : call.caller = .returned r) :
    call.worker = .returned r := by
  rcases h.call_back hc with ⟨c0,hc0,move⟩ | ⟨_,msg,_,_,rfl⟩
  · rcases move.result hr with hr0 | hw
    · exact move.returned (hi.result hc0 hr0)
    · exact move.returned hw
  · cases hr

theorem inv_step (hi : Inv s) (fresh : FreshSeq s a) (h : Step s a t) : Inv t where
  distinct := inv_distinct hi fresh h
  objects := inv_objects hi h
  accepted := inv_accepted hi h
  removed := inv_removed hi h
  held := inv_held hi h
  responses := inv_responses hi h
  taken := inv_taken hi h
  result := inv_result hi h

/-- The entry of a call whose caller is not about to remove it disappears in the hands
    of a `channelRead0`. -/
theorem entry_taken (hi : Inv s) (h : Step s a t) {c : CallId} {call : Call}
    (hc : s.calls c = some call) (early : call.caller ≠ .notified) {d : CallId}
    (hs : s.threadObjectMap call.msg.msgSeq = some d)
    (ht : t.threadObjectMap call.msg.msgSeq = none) :
    ∃ k rd, s.reads k = some rd ∧ rd.phase = .stored ∧ rd.rsp.msgSeq = call.msg.msgSeq ∧
      t.reads k = some { rd with phase := .removed (some c) } := by
  obtain ⟨calld,hcd,hq,_⟩ := hi.objects hs
  have dc := hi.distinct hcd hc hq
  subst dc
  rcases h.threadObject_gone hs ht with ⟨k,rd,rfl,hk,phase,seq⟩ | ⟨e,calle,_,he,phase,seq⟩
  · refine ⟨k,rd,hk,phase,seq,?_⟩
    cases h with
    | removeThreadObject hj _ =>
      rw [hk] at hj
      cases hj
      rw [seq,hs]
      exact State.setRead_self _ _ _
  · have ed := hi.distinct he hc seq
    subst ed
    rw [hc] at he
    cases he
    exact absurd phase early

end Preservation

theorem inv_run {n : ℕ} {as : List Action} {s : State} (h : Run (machine n) (init n) as s)
    (fresh : Guarded (machine n) FreshSeq (init n) as) : Inv s := by
  apply h.guarded_invariant (G := FreshSeq) _ fresh (inv_init n)
  intro s a t hi hf hs
  exact inv_step hi hf (step_cases hs)

end SeeU.RpcClientHandler
