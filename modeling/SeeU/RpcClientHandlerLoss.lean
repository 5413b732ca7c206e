import SeeU.RpcClientHandlerDelivery

set_option autoImplicit false

/-!
# When a response is lost

A step that is not timely loses a response at once, so the runs that lose none are
exactly the timely ones.
-/
namespace SeeU.RpcClientHandler
open TransitionSystem

/-- `channelRead0` got the request object out of `threadObjectMap`. -/
def ReadPhase.Took : ReadPhase → Prop
  | .removed (some _) | .finished => True
  | _ => False

theorem ReadPhase.Took.removed {p : ReadPhase} (h : p.Took) : p.Removed := by
  cases p <;> trivial

theorem ReadMove.took {s : State} {k : ReadId} {a : Action} {rd rd' : Read}
    (h : ReadMove s k a rd rd') (took : rd'.phase.Took) : rd.phase.Took ∨
      (a = .removeThreadObject k ∧ s.threadObjectMap rd.rsp.msgSeq ≠ none) := by
  cases h with
  | same => exact .inl took
  | putResponse | notifyNull => cases took
  | removeThreadObject _ =>
    right
    refine ⟨rfl,?_⟩
    intro absent
    rw [absent] at took
    cases took
  | notify h =>
    left
    rw [h]
    trivial

/-- At most one `channelRead0` takes the entry of a sequence number. -/
def TakenOnce (s : State) : Prop :=
  ∀ k j rd rd', s.reads k = some rd → s.reads j = some rd' →
    rd.rsp.msgSeq = rd'.rsp.msgSeq → rd.phase.Took → rd'.phase.Took → k = j

theorem takenOnce_step {s t : State} {a : Action} (hi : Inv s) (once : TakenOnce s)
    (h : Step s a t) : TakenOnce t := by
  intro k j rdk rdj hk hj seq tookk tookj
  have back : ∀ {i : ReadId} {rd : Read}, t.reads i = some rd → rd.phase.Took → ∃ old,
      s.reads i = some old ∧ old.rsp = rd.rsp ∧ (old.phase.Took ∨
        (a = .removeThreadObject i ∧ s.threadObjectMap old.rsp.msgSeq ≠ none)) := by
    intro i rd hi took
    rcases h.read_back hi with ⟨old,hold,move⟩ | ⟨_,rsp,_,rfl⟩
    · exact ⟨old,hold,move.rsp_eq.symm,move.took took⟩
    · exfalso
      change ReadPhase.Took (if _ then _ else _) at took
      split_ifs at took <;> cases took
  obtain ⟨oldk,hok,rspk,wask⟩ := back hk tookk
  obtain ⟨oldj,hoj,rspj,wasj⟩ := back hj tookj
  rw [←rspk,←rspj] at seq
  rcases wask with wask | ⟨ak,present⟩
  · rcases wasj with wasj | ⟨_,present⟩
    · exact once _ _ _ _ hok hoj seq wask wasj
    · rw [←seq,hi.removed hok wask.removed] at present
      exact absurd rfl present
  · rcases wasj with wasj | ⟨aj,_⟩
    · rw [seq,hi.removed hoj wasj.removed] at present
      exact absurd rfl present
    · rw [ak] at aj
      cases aj
      rfl

theorem takenOnce_run {n : ℕ} {as : List Action} {s : State} (h : Run (machine n) (init n) as s)
    (fresh : Guarded (machine n) FreshSeq (init n) as) : TakenOnce s := by
  have both := h.guarded_invariant (I := fun s => Inv s ∧ TakenOnce s) (by
    rintro s a t ⟨hi,once⟩ hf hs
    have step := step_cases hs
    exact ⟨inv_step hi hf step,takenOnce_step hi once step⟩)
    fresh ⟨inv_init n,fun _ _ _ _ hk => by cases hk⟩
  exact both.2

theorem not_arrived {s : State} (hi : Inv s) {c : CallId} {call : Call}
    (hc : s.calls c = some call) (unregistered : ¬call.worker.Registered) :
    ¬Arrived s call.msg.msgSeq := by
  have registered : ∀ {d : CallId} {calld : Call}, s.calls d = some calld →
      calld.msg.msgSeq = call.msg.msgSeq → calld.worker.Registered → False := by
    intro d calld hd seq hr
    have dc := hi.distinct hd hc seq
    subst dc
    rw [hc] at hd
    cases hd
    exact unregistered hr
  rintro (⟨k,hk⟩ | ⟨d,calld,k,hd,seq,hw⟩)
  · obtain ⟨rd,hrd,seq,accepted⟩ := hi.responses hk
    obtain ⟨d,calld,hd,hq,hr⟩ := hi.accepted hrd accepted
    exact registered hd (by rw [hq,seq]) hr
  · exact registered hd seq (by rw [hw]; trivial)

theorem OnItsWay.arrived {s : State} {c : CallId} {call : Call} (h : OnItsWay s c call)
    (hc : s.calls c = some call) : Arrived s call.msg.msgSeq := by
  obtain ⟨k,_,_,_,taken | ⟨stored,_⟩⟩ := h
  · exact .inr ⟨c,call,k,hc,rfl,taken⟩
  · exact .inl ⟨k,stored⟩

/-- An answer that is received before its call registers is dropped. -/
theorem early_answer_lost {n : ℕ} {as : List Action} {s t : State}
    (h : Run (machine n) (init n) as s) (fresh : Guarded (machine n) FreshSeq (init n) as)
    {k : ReadId} {rsp : Response} (hs : step s (.channelRead k rsp) = some t) {c : CallId}
    {call : Call} (hc : s.calls c = some call) (seq : call.msg.msgSeq = rsp.msgSeq)
    (inTime : ¬call.caller.TimedOut) (phase : call.worker = .sending ∨ call.worker = .sent) :
    ¬NoLostResponse n (as ++ [.channelRead k rsp]) t := by
  have hi := inv_run h fresh
  have unregistered : ¬call.worker.Registered := by
    rcases phase with phase | phase <;> rw [phase] <;> exact id
  have written : call.worker.Written := by
    rcases phase with phase | phase <;> rw [phase] <;> exact ⟨nofun,nofun⟩
  have absent : s.threadObjectMap rsp.msgSeq = none := by
    by_contra present
    obtain ⟨d,hd⟩ := Option.ne_none_iff_exists'.mp present
    obtain ⟨calld,hcd,hq,hr⟩ := hi.objects hd
    have dc := hi.distinct hcd hc (by rw [hq,seq])
    subst dc
    rw [hc] at hcd
    cases hcd
    exact unregistered hr
  have arrival : Step s (.channelRead k rsp) t := step_cases hs
  cases arrival with
  | channelRead new =>
    intro no
    have onItsWay := no c call k _ hc inTime (State.setRead_self _ _ _) seq.symm
      (by rw [absent]; trivial) ⟨as,rsp,[],s,call,rfl,h,hc,written⟩
    exact not_arrived hi hc unregistered (onItsWay.arrived hc)

/-- A worker that waits after its notify keeps the answer from its caller. -/
theorem late_wait_lost {n : ℕ} {as : List Action} {s t : State}
    (h : Run (machine n) (init n) as s) (fresh : Guarded (machine n) FreshSeq (init n) as)
    {c : CallId} (hs : step s (.enterWait c) = some t) {call : Call} (hc : s.calls c = some call)
    (inTime : ¬call.caller.TimedOut) {k : ReadId} {rd : Read} (hk : s.reads k = some rd)
    (seq : rd.rsp.msgSeq = call.msg.msgSeq) (finished : rd.phase = .finished) :
    ¬NoLostResponse n (as ++ [.enterWait c]) t := by
  have hi := inv_run h fresh
  have once := takenOnce_run h fresh
  obtain ⟨d,calld,hd,hq,received⟩ := accepted_received h fresh hk (by rw [finished]; nofun)
  have dc := hi.distinct hd hc (by rw [hq,seq])
  subst dc
  obtain ⟨bs,rsp,cs,u,old,eq,run,hold,hr⟩ := received.snoc (.enterWait d)
  have written : old.worker.Written := by
    constructor <;> intro e <;> rw [e] at hr <;> cases hr
  have step : Step s (.enterWait d) t := step_cases hs
  cases step with
  | enterWait hc' _ =>
    rw [hc] at hc'
    cases hc'
    intro no
    obtain ⟨j,rdj,_,_,taken | ⟨_,pending⟩⟩ := no d _ k rd (State.setCall_self _ _ _) inTime hk seq
      (by rw [finished]; trivial) ⟨bs,rsp,cs,u,old,eq,run,hold,written⟩
    · cases taken
    · obtain ⟨i,rdi,hrdi,removed⟩ := pending rfl
      obtain ⟨calli,hci,seqi⟩ := hi.held hrdi removed
      rw [hc] at hci
      cases hci
      have ik := once _ _ _ _ hrdi hk (by rw [seq,seqi]) (by rw [removed]; trivial)
        (by rw [finished]; trivial)
      subst ik
      have same : s.reads i = some rdi := hrdi
      rw [hk] at same
      cases same
      rw [finished] at removed
      cases removed

theorem untimely_step_loses {n : ℕ} {as : List Action} {s t : State} {a : Action}
    (h : Run (machine n) (init n) as s) (fresh : Guarded (machine n) FreshSeq (init n) as)
    (hs : step s a = some t) (untimely : ¬Timely s a) : ¬NoLostResponse n (as ++ [a]) t := by
  cases a with
  | channelRead k rsp =>
    simp only [Timely,not_forall] at untimely
    obtain ⟨c,call,hc,seq,inTime,phase⟩ := untimely
    refine early_answer_lost h fresh hs hc seq inTime ?_
    by_contra neither
    exact phase (not_or.mp neither)
  | enterWait c =>
    simp only [Timely,not_forall,not_not] at untimely
    obtain ⟨call,hc,inTime,k,rd,hk,seq,finished⟩ := untimely
    exact late_wait_lost h fresh hs hc inTime hk seq finished
  | _ => exact absurd trivial untimely

def NeverLoses (threads : ℕ) (as : List Action) : Prop :=
  Along (machine threads) (fun bs s _ => NoLostResponse threads bs s) (init threads) as

/-- A run of calls with distinct sequence numbers loses no response exactly if all its
    steps are timely. -/
theorem neverLoses_iff {n : ℕ} {as : List Action} {s : State}
    (h : Run (machine n) (init n) as s) (fresh : Guarded (machine n) FreshSeq (init n) as) :
    NeverLoses n as ↔ Guarded (machine n) Timely (init n) as := by
  constructor
  · revert fresh
    refine h.rec_last (P := fun as _ => Guarded (machine n) FreshSeq (init n) as →
      NeverLoses n as → Guarded (machine n) Timely (init n) as) (fun _ _ => trivial) ?_
    intro as t a u run ih hs fresh never
    have before : NeverLoses n as := by
      intro bs cs v eq hr
      exact never bs (cs ++ [a]) v (by rw [eq,List.append_assoc]) hr
    refine (ih fresh.left before).snoc run ?_
    by_contra untimely
    exact untimely_step_loses run fresh.left hs untimely
      (never _ [] u (List.append_nil _).symm (run.snoc hs))
  · rintro timely bs cs u rfl hr
    exact timely_no_lost_response hr fresh.left timely.left

theorem answeredRun_timely : Guarded (machine 12) Timely (init 12) answeredRun := by
  refine .cons rfl trivial (.cons rfl trivial (.cons rfl trivial (.cons rfl trivial
    (.cons rfl ?_ (.cons rfl ?_ (.cons rfl trivial (.cons rfl trivial (.cons rfl trivial
      (.cons rfl trivial (.cons rfl trivial trivial))))))))))
  · intro call hc
    cases hc
    intro _ k rd hk
    cases hk
  · intro c call hc
    by_cases h : c = 0
    · subst h
      cases hc
      exact fun _ _ => ⟨Worker.noConfusion,Worker.noConfusion⟩
    · simp [State.setCall_of_ne,h,init] at hc

theorem answeredRun_never_loses : NeverLoses 12 answeredRun := by
  have run : Run (machine 12) (init 12) answeredRun _ := run_endOf (by decide)
  exact (neverLoses_iff run (fresh_single 12 0 sampleRequest _ (by decide))).mpr answeredRun_timely

/-! ### Runs that lose an answer -/

/-- The answer comes before `putThreadObject`. -/
def answerBeforeEntry : List Action :=
  [.write 0 sampleRequest,.start 0,.synced 0,.channelRead 0 sampleResponse,.putThreadObject 0,
    .enterWait 0]

/-- The notify comes between `putThreadObject` and `wait`. -/
def notifyBeforeWait : List Action :=
  [.write 0 sampleRequest,.start 0,.synced 0,.putThreadObject 0,.channelRead 0 sampleResponse,
    .putResponse 0,.removeThreadObject 0,.notify 0,.enterWait 0]

theorem answers_lost :
    (∃ s, Run (machine 12) (init 12) answerBeforeEntry s ∧
      Guarded (machine 12) FreshSeq (init 12) answerBeforeEntry ∧
        ¬NoLostResponse 12 answerBeforeEntry s) ∧
    (∃ s, Run (machine 12) (init 12) notifyBeforeWait s ∧
      Guarded (machine 12) FreshSeq (init 12) notifyBeforeWait ∧
        ¬NoLostResponse 12 notifyBeforeWait s) := by
  constructor
  · refine ⟨_,run_endOf (by decide),fresh_single 12 0 sampleRequest _ (by decide),?_⟩
    intro no
    obtain ⟨k,rd,_,_,taken | ⟨stored,_⟩⟩ := no 0 _ 0 _ rfl id rfl rfl trivial
      ⟨[.write 0 sampleRequest,.start 0,.synced 0],sampleResponse,_,_,_,rfl,
        run_endOf (by decide),rfl,by decide,by decide⟩
    · cases taken
    · cases stored
  · have run : Run (machine 12) (init 12) notifyBeforeWait _ := run_endOf (by decide)
    refine ⟨_,run,fresh_single 12 0 sampleRequest _ (by decide),?_⟩
    intro no
    obtain ⟨k,rd,_,_,taken | ⟨_,pending⟩⟩ := no 0 _ 0 _ rfl id rfl rfl trivial
      ⟨[.write 0 sampleRequest,.start 0,.synced 0,.putThreadObject 0],sampleResponse,_,_,_,rfl,
        run_endOf (by decide),rfl,by decide,by decide⟩
    · cases taken
    · obtain ⟨j,rdj,hj,removed⟩ := pending rfl
      obtain ⟨rsp,mem⟩ := read_entered run hj
      obtain ⟨rfl,_⟩ : j = 0 ∧ rsp = sampleResponse := by simpa [notifyBeforeWait] using mem
      cases hj
      cases removed

end SeeU.RpcClientHandler
