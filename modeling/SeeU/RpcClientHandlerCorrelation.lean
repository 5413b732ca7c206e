import SeeU.RpcClientHandlerInvariant

set_option autoImplicit false

/-!
# A returned response answers the call that returns it

Runs with any number of calls of distinct sequence numbers, late and duplicated
responses, unsolicited ones, timeouts and spurious wakeups.
-/
namespace SeeU.RpcClientHandler
open TransitionSystem

/-- The read `k` of the run `as` was entered in a state where the call `c` met `P`. -/
def ReceivedWhen (P : Call → Prop) (threads : ℕ) (as : List Action) (c : CallId)
    (k : ReadId) : Prop :=
  ∃ bs rsp cs t call, as = bs ++ .channelRead k rsp :: cs ∧
    Run (machine threads) (init threads) bs t ∧ t.calls c = some call ∧ P call

/-- `channelRead0` received `k` after the worker of `c` had executed `putThreadObject`. -/
def ReceivedAfterRegistered : ℕ → List Action → CallId → ReadId → Prop :=
  ReceivedWhen (fun call => call.worker.Registered)

theorem ReceivedWhen.snoc {P : Call → Prop} {n : ℕ} {as : List Action} {c : CallId} {k : ReadId}
    (h : ReceivedWhen P n as c k) (a : Action) : ReceivedWhen P n (as ++ [a]) c k := by
  obtain ⟨bs,rsp,cs,t,call,rfl,run,hc,hp⟩ := h
  exact ⟨bs,rsp,cs ++ [a],t,call,by simp,run,hc,hp⟩

theorem accepted_received {n : ℕ} {as : List Action} {s : State}
    (h : Run (machine n) (init n) as s) (fresh : Guarded (machine n) FreshSeq (init n) as)
    {k : ReadId} {rd : Read} (hk : s.reads k = some rd) (accepted : rd.phase ≠ .dropped) :
    ∃ c call, s.calls c = some call ∧ call.msg.msgSeq = rd.rsp.msgSeq ∧
      ReceivedAfterRegistered n as c k := by
  revert fresh rd
  refine h.rec_last (P := fun as s => Guarded (machine n) FreshSeq (init n) as → ∀ {rd : Read},
    s.reads k = some rd → rd.phase ≠ .dropped → ∃ c call, s.calls c = some call ∧
      call.msg.msgSeq = rd.rsp.msgSeq ∧ ReceivedAfterRegistered n as c k) ?_ ?_
  · intro _ rd hk _
    cases hk
  · intro as t a u run ih hs fresh rd hk accepted
    have hi := inv_run run fresh.left
    have step := step_cases hs
    rcases step.read_back hk with ⟨rd0,hk0,move⟩ | ⟨_,rsp,rfl,rfl⟩
    · obtain ⟨c,call,hc,hq,hrec⟩ := ih fresh.left hk0 (fun e => accepted (move.dropped_iff.mpr e))
      obtain ⟨call',hc',cmove⟩ := step.call hc
      exact ⟨c,call',hc',by rw [cmove.msg_eq,move.rsp_eq,hq],hrec.snoc a⟩
    · cases ho : t.threadObjectMap rsp.msgSeq with
      | none =>
        rw [ho] at accepted
        exact absurd rfl accepted
      | some c =>
        obtain ⟨call,hc,hq,hr⟩ := hi.objects ho
        obtain ⟨call',hc',cmove⟩ := step.call hc
        exact ⟨c,call',hc',by rw [cmove.msg_eq,hq],as,rsp,[],t,call,rfl,run,hc,hr⟩

/-- A non-null response that `write` returns carries the sequence number of its
    message, was received after the message was registered, and is returned by no
    other call. -/
theorem returned_response_correlated {n : ℕ} {as : List Action} {s : State} {c : CallId}
    {call : Call} {k : ReadId} (h : Run (machine n) (init n) as s)
    (fresh : Guarded (machine n) FreshSeq (init n) as) (hc : s.calls c = some call)
    (ret : call.caller = .returned (some k)) :
    (∃ rd, s.reads k = some rd ∧ rd.rsp.msgSeq = call.msg.msgSeq) ∧
      ReceivedAfterRegistered n as c k ∧
      ∀ d call', s.calls d = some call' → call'.caller = .returned (some k) → d = c := by
  have hi := inv_run h fresh
  obtain ⟨rd,hk,hq,accepted⟩ := hi.taken hc (hi.result hc ret)
  refine ⟨⟨rd,hk,hq⟩,?_,?_⟩
  · obtain ⟨d,calld,hd,hdq,hrec⟩ := accepted_received h fresh hk accepted
    have dc := hi.distinct hd hc (by rw [hdq,hq])
    rw [←dc]
    exact hrec
  · intro d call' hd ret'
    obtain ⟨rd',hk',hq',_⟩ := hi.taken hd (hi.result hd ret')
    rw [hk] at hk'
    cases hk'
    exact hi.distinct hd hc (by rw [←hq',hq])

theorem read_entered {n : ℕ} {as : List Action} {s : State} (h : Run (machine n) (init n) as s)
    {k : ReadId} {rd : Read} (hk : s.reads k = some rd) : ∃ rsp, .channelRead k rsp ∈ as := by
  revert rd
  refine h.rec_last (P := fun as s => ∀ {rd : Read}, s.reads k = some rd →
    ∃ rsp, .channelRead k rsp ∈ as) ?_ ?_
  · intro rd hk
    cases hk
  · intro as t a u run ih hs rd hk
    rcases (step_cases hs).read_back hk with ⟨rd0,hk0,_⟩ | ⟨_,rsp,rfl,_⟩
    · obtain ⟨rsp,mem⟩ := ih hk0
      exact ⟨rsp,List.mem_append_left _ mem⟩
    · exact ⟨rsp,List.mem_append_right _ (List.mem_singleton_self _)⟩

def Action.isWrite : Action → Bool
  | .write _ _ => true
  | _ => false

theorem freshSeq_of_not_write {a : Action} (h : a.isWrite = false) (s : State) : FreshSeq s a := by
  cases a with
  | write c msg => cases h
  | _ => trivial

theorem fresh_single (n : ℕ) (c : CallId) (msg : Request) (as : List Action)
    (h : ∀ a ∈ as, a.isWrite = false) :
    Guarded (machine n) FreshSeq (init n) (.write c msg :: as) := by
  refine ⟨?_,fun t _ => Guarded.of_forall (fun a ha s => freshSeq_of_not_write (h a ha) s) t⟩
  intro _ d call hd
  cases hd

def sampleRequest : Request := { Request.schema.defaultInstance with
  msgSeq := 7, needResponse := true }

def sampleResponse : Response := { Response.schema.defaultInstance with msgSeq := 7 }

def answeredRun : List Action :=
  [.write 0 sampleRequest,.start 0,.synced 0,.putThreadObject 0,.enterWait 0,
    .channelRead 0 sampleResponse,.putResponse 0,.removeThreadObject 0,.notify 0,
    .getResponse 0,.futureGet 0]

theorem answered_correlated :
    let s := endOf (machine 12) (init 12) answeredRun (by decide)
    (∃ rd, s.reads 0 = some rd ∧ rd.rsp.msgSeq = 7) ∧
      ReceivedAfterRegistered 12 answeredRun 0 0 ∧
      ∀ d call', s.calls d = some call' → call'.caller = .returned (some 0) → d = 0 := by
  have hc : (endOf (machine 12) (init 12) answeredRun (by decide)).calls 0 =
    some ⟨sampleRequest,.returned (some 0),.returned (some 0)⟩ := rfl
  exact returned_response_correlated (run_endOf _) (fresh_single 12 0 sampleRequest _ (by decide))
    hc rfl

end SeeU.RpcClientHandler
