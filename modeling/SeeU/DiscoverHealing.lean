import SeeU.DiscoverLifecycle

set_option autoImplicit false

/-!
# When the connection to discover heals itself

A state is at one stage: either an attempt or a timer is pending, or one channel is not
finished, or nothing is left to happen. The connection stays out of the last stage as long
as the callbacks of each channel come in order.
-/
namespace SeeU.DiscoverLifecycle
open WireFormat TransitionSystem DoubleIndex RpcClientManger

/-! ### Stages -/

/-- A channel of which nothing more is heard. -/
def finished : ChannelState := ⟨false,.ran,true⟩

def NullSeen (s : State) : Prop := ∃ callback, .nullDereference callback ∈ s.log

structure Trying (s : State) : Prop where
  one : s.connecting + s.retries = 1
  done : ∀ k st, s.channels k = some st → st = finished
  free : Free s.manger

/-- Only the channel of `key` may be unfinished. -/
structure Live (s : State) (key : String) (st : ChannelState) : Prop where
  idle : s.connecting + s.retries = 0
  channel : s.channels key = some st
  others : ∀ k st', k ≠ key → s.channels k = some st' → st' = finished

/-- The listener has not run. -/
structure Opened (s : State) (key : String) (st : ChannelState) : Prop extends Live s key st where
  listener : st.listener ≠ .ran
  free : Free s.manger
  inactive : st.notified = true → st.active = false
  null : st.notified = true → NullSeen s

/-- The listener has run and `channelInactive` has not been delivered. -/
structure Running (s : State) (key : String) (st : ChannelState) : Prop extends Live s key st where
  listener : st.listener = .ran
  notified : st.notified = false
  current : s.channel.map getChannelKey = some key

/-- Nothing more happens, and the client has no active channel. -/
structure Dead (s : State) (key : String) : Prop where
  idle : s.connecting + s.retries = 0
  done : ∀ k st, s.channels k = some st → st = finished
  current : s.channel.map getChannelKey = some key
  held : Free s.manger ∨ Holds s.manger key
  null : NullSeen s

inductive Stage (s : State) : Prop where
  | trying (h : Trying s)
  | opened (key : String) (st : ChannelState) (h : Opened s key st)
  | registered (key : String) (st : ChannelState) (h : Running s key st)
      (holds : Holds s.manger key)
  | forgotten (key : String) (st : ChannelState) (h : Running s key st) (free : Free s.manger)
      (null : NullSeen s)
  | dead (key : String) (h : Dead s key)

/-! ### Updates -/

section Updates
variable {s : State} {c : Channel} {key : String} {st st' : ChannelState}

theorem setState_channels (s : State) (c : Channel) (st : ChannelState) (k : String) :
    (s.setState c st).channels k = if k = getChannelKey c then some st else s.channels k :=
  Function.update_apply ..

theorem Live.setState (h : Live s (getChannelKey c) st) (st' : ChannelState) :
    Live (s.setState c st') (getChannelKey c) st' := by
  refine ⟨h.idle,by rw [setState_channels,if_pos rfl],?_⟩
  intro k st'' hk hs
  rw [setState_channels,if_neg hk] at hs
  exact h.others k st'' hk hs

theorem Live.done (h : Live s key finished) : ∀ k st, s.channels k = some st → st = finished := by
  intro k st hs
  by_cases hk : k = key
  · subst hk
    rw [h.channel] at hs
    cases hs
    rfl
  · exact h.others k st hk hs

theorem isConnected_eq_false (h : ∀ k st, s.channel.map getChannelKey = some k →
    s.channels k = some st → st.active = false) : s.isConnected = false := by
  unfold State.isConnected
  cases hc : s.channel with
  | none => rfl
  | some c =>
    dsimp only
    cases hs : s.channels (getChannelKey c) with
    | none => rfl
    | some st => exact h _ st (by rw [hc]; rfl) hs

theorem isConnected_of_done (h : ∀ k st, s.channels k = some st → st = finished) :
    s.isConnected = false :=
  isConnected_eq_false (fun k st _ hs => by rw [h k st hs]; rfl)

theorem doConnect_of_done (h : ∀ k st, s.channels k = some st → st = finished) :
    s.doConnect = { s with connecting := s.connecting + 1 } := by
  unfold State.doConnect
  rw [isConnected_of_done h]
  rfl

theorem nullSeen_emit (s : State) (callback : Callback) :
    NullSeen (s.emit (.nullDereference callback)) := ⟨callback,by simp [State.emit]⟩

theorem setChannelField_channel (s : State) (c : Channel) :
    (s.setChannelField c).channel = some c := by
  simp [State.channel,State.setChannelField]

theorem setChannelField_target (s : State) (c : Channel) :
    Target (s.setChannelField c).manger ↔ Target s.manger := by
  simp [Target,State.setChannelField]

theorem operationComplete_known (s : State) (c : Channel) : s.operationComplete c true =
    { (s.setChannelField c).emit (.register (getChannelKey c)) with
      manger := ((s.setChannelField c).manger.addClient discoverClient).2 } := by
  rw [State.operationComplete,if_pos rfl,State.clientActive,setChannelField_channel]

theorem operationComplete_unknown (s : State) (c : Channel) : s.operationComplete c false =
    (s.setChannelField c).emit (.nullDereference (.operationComplete (getChannelKey c))) :=
  if_neg nofun

theorem channelInactive_of_free (free : Free s.manger) : s.channelInactive c =
    { s with manger := (s.manger.removeChannel c).2 }.emit
      (.nullDereference (.channelInactive (getChannelKey c))) := by
  have none := (removeChannel_of_free (c := c) free).1
  unfold State.channelInactive
  generalize s.manger.removeChannel c = r at none
  obtain ⟨client,manger⟩ := r
  cases none
  rfl

theorem channelInactive_of_holds (holds : Holds s.manger (getChannelKey c)) :
    s.channelInactive c = { s with manger := (s.manger.removeChannel c).2 }.doConnect := by
  have found := (removeChannel_of_holds holds).1
  unfold State.channelInactive
  generalize s.manger.removeChannel c = r at found
  obtain ⟨client,manger⟩ := r
  cases found
  exact if_pos rfl

end Updates

/-! ### The steps between the stages -/

section Stages
variable {s : State} {c : Channel} {key : String} {st : ChannelState}

theorem Stage.of_pending (h : Stage s) (pos : 0 < s.connecting + s.retries) : Trying s := by
  cases h with
  | trying h => exact h
  | opened _ _ h => exact absurd h.idle (Nat.ne_of_gt pos)
  | registered _ _ h => exact absurd h.idle (Nat.ne_of_gt pos)
  | forgotten _ _ h => exact absurd h.idle (Nat.ne_of_gt pos)
  | dead _ h => exact absurd h.idle (Nat.ne_of_gt pos)

theorem Live.eq {key' : String} {st' : ChannelState} (h : Live s key' st')
    (hs : s.channels key = some st) (unfinished : st ≠ finished) : key = key' ∧ st = st' := by
  by_cases same : key = key'
  · subst same
    rw [h.channel] at hs
    exact ⟨rfl,(Option.some.inj hs).symm⟩
  · exact absurd (h.others key st same hs) unfinished

theorem Stage.of_unfinished (h : Stage s) (hs : s.channels key = some st)
    (unfinished : st ≠ finished) : Opened s key st ∨
      Running s key st ∧ (Holds s.manger key ∨ Free s.manger ∧ NullSeen s) := by
  cases h with
  | trying h => exact absurd (h.done key st hs) unfinished
  | opened key' st' h =>
    obtain ⟨rfl,rfl⟩ := h.toLive.eq hs unfinished
    exact .inl h
  | registered key' st' h holds =>
    obtain ⟨rfl,rfl⟩ := h.toLive.eq hs unfinished
    exact .inr ⟨h,.inl holds⟩
  | forgotten key' st' h free null =>
    obtain ⟨rfl,rfl⟩ := h.toLive.eq hs unfinished
    exact .inr ⟨h,.inr ⟨free,null⟩⟩
  | dead key' h => exact absurd (h.done key st hs) unfinished

theorem stage_connectSucceeds (h : Stage s) (pos : 0 < s.connecting) :
    Stage (({ s with connecting := s.connecting - 1 }.setState c ⟨true,.unattached,false⟩).emit
      (.connection (getChannelKey c))) := by
  have trying := h.of_pending (by omega)
  have one := trying.one
  refine .opened (getChannelKey c) ⟨true,.unattached,false⟩
    ⟨⟨?_,?_,?_⟩,nofun,trying.free,nofun,nofun⟩
  · change s.connecting - 1 + s.retries = 0
    omega
  · exact Function.update_self ..
  · intro k st' hk hs
    exact trying.done k st' ((Function.update_of_ne hk ..).symm.trans hs)

theorem stage_connectFails (h : Stage s) (pos : 0 < s.connecting) :
    Stage { s with connecting := s.connecting - 1, retries := s.retries + 1 } := by
  have trying := h.of_pending (by omega)
  have one := trying.one
  refine .trying ⟨?_,trying.done,trying.free⟩
  change s.connecting - 1 + (s.retries + 1) = 1
  omega

theorem stage_retry (h : Stage s) (pos : 0 < s.retries) :
    Stage { s with retries := s.retries - 1 }.doConnect := by
  have trying := h.of_pending (by omega)
  have one := trying.one
  rw [doConnect_of_done (s := { s with retries := s.retries - 1 }) trying.done]
  refine .trying ⟨?_,trying.done,trying.free⟩
  change s.connecting + 1 + (s.retries - 1) = 1
  omega

theorem stage_attachListener (h : Stage s) (hs : s.channels (getChannelKey c) = some st)
    (hl : st.listener = .unattached) :
    Stage ({ s with future := some c }.setState c { st with listener := .attached }) := by
  rcases h.of_unfinished hs (by rintro rfl; cases hl) with opened | ⟨running,_⟩
  · have live : Live { s with future := some c } (getChannelKey c) st :=
      ⟨opened.idle,opened.channel,opened.others⟩
    have waiting : Listener.attached ≠ .ran := nofun
    exact .opened _ _ ⟨live.setState _,waiting,opened.free,opened.inactive,opened.null⟩
  · rw [running.listener] at hl
    cases hl

theorem stage_lose (h : Stage s) (hs : s.channels (getChannelKey c) = some st)
    (active : st.active = true) : Stage (s.setState c { st with active := false }) := by
  rcases h.of_unfinished hs (by rintro rfl; cases active) with opened | ⟨running,held⟩
  · exact .opened _ _ ⟨opened.toLive.setState _,opened.listener,opened.free,fun _ => rfl,
      opened.null⟩
  · have running' : Running (s.setState c { st with active := false }) (getChannelKey c) _ :=
      ⟨running.toLive.setState _,running.listener,running.notified,running.current⟩
    rcases held with holds | ⟨free,null⟩
    · exact .registered _ _ running' holds
    · exact .forgotten _ _ running' free null

/-- What the listener leaves behind, apart from the maps. -/
structure Completed (s t : State) (c : Channel) : Prop where
  connecting : t.connecting = s.connecting
  retries : t.retries = s.retries
  channels : t.channels = s.channels
  channel : t.channel = some c
  log : ∃ e, t.log = s.log ++ [e]

theorem completed_operationComplete (s : State) (c : Channel) (remoteAddress : Bool) :
    Completed s (s.operationComplete c remoteAddress) c := by
  cases remoteAddress with
  | false =>
    rw [operationComplete_unknown]
    exact ⟨rfl,rfl,rfl,setChannelField_channel s c,_,rfl⟩
  | true =>
    rw [operationComplete_known]
    refine ⟨rfl,rfl,rfl,?_,_,rfl⟩
    unfold State.channel
    dsimp only
    rw [Manger.addClient_clients]
    exact setChannelField_channel s c

theorem holds_operationComplete (free : Free s.manger) (target : Target s.manger) :
    Holds (s.operationComplete c true).manger (getChannelKey c) := by
  rw [operationComplete_known]
  exact addClient_holds free ((setChannelField_target s c).mpr target)
    (setChannelField_channel s c)

theorem free_operationComplete (free : Free s.manger) :
    Free (s.operationComplete c false).manger := by
  rw [operationComplete_unknown]
  exact free

theorem Completed.live {t : State} (h : Completed s t c) (live : Live s key st) :
    Live t key st := by
  refine ⟨?_,by rw [h.channels]; exact live.channel,by rw [h.channels]; exact live.others⟩
  rw [h.connecting,h.retries]
  exact live.idle

theorem stage_of_completed (opened : Opened s (getChannelKey c) st) {t : State}
    (completed : Completed (s.setState c { st with listener := .ran }) t c)
    (held : Holds t.manger (getChannelKey c) ∨ Free t.manger ∧ NullSeen t) : Stage t := by
  have live := completed.live (opened.toLive.setState { st with listener := .ran })
  have current := congrArg (Option.map getChannelKey) completed.channel
  by_cases notified : st.notified = true
  · have ended : ({ st with listener := .ran } : ChannelState) = finished := by
      rw [opened.inactive notified,notified]
      rfl
    rw [ended] at live
    obtain ⟨callback,mem⟩ := opened.null notified
    obtain ⟨e,log⟩ := completed.log
    have null : NullSeen t := ⟨callback,by rw [log]; exact List.mem_append_left _ mem⟩
    exact .dead (getChannelKey c) ⟨live.idle,live.done,current,held.symm.imp And.left id,null⟩
  · have running := Running.mk live rfl (Bool.eq_false_iff.mpr notified) current
    rcases held with holds | ⟨free,null⟩
    · exact .registered _ _ running holds
    · exact .forgotten _ _ running free null

theorem stage_operationComplete (h : Stage s) (target : Target s.manger) {remoteAddress : Bool}
    (hs : s.channels (getChannelKey c) = some st) (hl : st.listener = .attached) :
    Stage ((s.setState c { st with listener := .ran }).operationComplete c remoteAddress) := by
  rcases h.of_unfinished hs (by rintro rfl; cases hl) with opened | ⟨running,_⟩
  · refine stage_of_completed opened (completed_operationComplete _ c remoteAddress) ?_
    cases remoteAddress with
    | true => exact .inl (holds_operationComplete opened.free target)
    | false =>
      refine .inr ⟨free_operationComplete opened.free,?_⟩
      rw [operationComplete_unknown]
      exact nullSeen_emit _ _
  · rw [running.listener] at hl
    cases hl

theorem Running.finished (h : Running s key st) (inactive : st.active = false) :
    { st with notified := true } = finished := by
  rw [inactive,h.listener]
  rfl

theorem trying_channelInactive (running : Running s (getChannelKey c) st)
    (holds : Holds s.manger (getChannelKey c)) (inactive : st.active = false) :
    Trying ((s.setState c { st with notified := true }).channelInactive c) := by
  have live := running.toLive.setState { st with notified := true }
  rw [running.finished inactive] at live ⊢
  rw [channelInactive_of_holds (s := s.setState c _) holds,
    doConnect_of_done (s := { s.setState c finished with
      manger := ((s.setState c finished).manger.removeChannel c).2 }) live.done]
  have idle := live.idle
  refine ⟨?_,live.done,(removeChannel_of_holds holds).2⟩
  change s.connecting + 1 + s.retries = 1
  change s.connecting + s.retries = 0 at idle
  omega

theorem stage_channelInactive (h : Stage s) (hs : s.channels (getChannelKey c) = some st)
    (inactive : st.active = false) (first : st.notified = false) :
    Stage ((s.setState c { st with notified := true }).channelInactive c) := by
  rcases h.of_unfinished hs (by rintro rfl; cases first) with opened | ⟨running,held⟩
  · rw [channelInactive_of_free (s := s.setState c _) opened.free]
    have live := opened.toLive.setState { st with notified := true }
    exact .opened _ _ ⟨⟨live.idle,live.channel,live.others⟩,opened.listener,
      (removeChannel_of_free opened.free).2,fun _ => inactive,fun _ => nullSeen_emit _ _⟩
  · rcases held with holds | ⟨free,_⟩
    · exact .trying (trying_channelInactive running holds inactive)
    · have live := running.toLive.setState { st with notified := true }
      rw [running.finished inactive] at live ⊢
      rw [channelInactive_of_free (s := s.setState c _) free]
      refine .dead (getChannelKey c) ⟨live.idle,live.done,?_,.inl (removeChannel_of_free free).2,
        nullSeen_emit _ _⟩
      unfold State.channel State.emit
      dsimp only
      rw [Manger.removeChannel_clients]
      exact running.current

theorem doConnect_manger (s : State) : s.doConnect.manger = s.manger := by
  unfold State.doConnect
  split_ifs <;> rfl

theorem doConnect_channels (s : State) : s.doConnect.channels = s.channels := by
  unfold State.doConnect
  split_ifs <;> rfl

theorem doConnect_log (s : State) : s.doConnect.log = s.log := by
  unfold State.doConnect
  split_ifs <;> rfl

/-- What `channelInactive` leaves behind, apart from an attempt to connect. -/
structure Inactivated (s t : State) (c : Channel) : Prop where
  manger : t.manger = (s.manger.removeChannel c).2
  channels : t.channels = s.channels
  log : ∃ es, t.log = s.log ++ es

theorem inactivated_channelInactive (s : State) (c : Channel) :
    Inactivated s (s.channelInactive c) c := by
  unfold State.channelInactive
  generalize hr : s.manger.removeChannel c = r
  have manger : r.2 = (s.manger.removeChannel c).2 := by rw [hr]
  obtain ⟨_ | client,m⟩ := r
  · exact ⟨manger,rfl,_,rfl⟩
  · unfold State.clientInactive
    dsimp only
    split_ifs
    · refine ⟨(doConnect_manger _).trans manger,doConnect_channels _,[],?_⟩
      rw [doConnect_log,List.append_nil]
    · exact ⟨manger,rfl,[],(List.append_nil _).symm⟩

theorem target_channelInactive (target : Target s.manger) :
    Target (s.channelInactive c).manger := by
  unfold Target
  rw [(inactivated_channelInactive s c).manger,Manger.removeChannel_clients]
  exact target

theorem target_operationComplete (target : Target s.manger) (remoteAddress : Bool) :
    Target (s.operationComplete c remoteAddress).manger := by
  have set := (setChannelField_target s c).mpr target
  cases remoteAddress with
  | false =>
    rw [operationComplete_unknown]
    exact set
  | true =>
    rw [operationComplete_known]
    unfold Target
    dsimp only
    rw [Manger.addClient_clients]
    exact set

structure Inv (s : State) : Prop where
  stage : Stage s
  target : Target s.manger

theorem inv_step {t : State} {a : Action} (h : Inv s) (hs : Step s a t) : Inv t := by
  cases hs with
  | connectSucceeds pos _ => exact ⟨stage_connectSucceeds h.stage pos,h.target⟩
  | connectFails pos => exact ⟨stage_connectFails h.stage pos,h.target⟩
  | attachListener hs hl => exact ⟨stage_attachListener h.stage hs hl,h.target⟩
  | operationComplete hs hl _ =>
    exact ⟨stage_operationComplete h.stage h.target hs hl,
      target_operationComplete (s := s.setState _ _) h.target _⟩
  | retry pos =>
    refine ⟨stage_retry h.stage pos,?_⟩
    rw [doConnect_manger]
    exact h.target
  | lose hs active => exact ⟨stage_lose h.stage hs active,h.target⟩
  | channelInactive hs inactive first =>
    exact ⟨stage_channelInactive h.stage hs inactive first,
      target_channelInactive (s := s.setState _ _) h.target⟩

theorem inv_start (host : Utf8String) (port : BitVec 32) : Inv (start host port) :=
  ⟨.trying ⟨rfl,nofun,fun _ => rfl⟩,rfl,rfl⟩

/-! ### Callbacks in order -/

/-- As long as null has not been dereferenced, a step dereferences it exactly if it is
    out of order. -/
theorem null_step_iff {t : State} {a : Action} (h : Inv s) (clean : ¬NullSeen s)
    (hs : Step s a t) : ¬NullSeen t ↔ InOrder s a := by
  have same : ∀ {u : State}, u.log = s.log → (¬NullSeen u ↔ True) := by
    intro u log
    unfold NullSeen
    rw [log]
    exact iff_of_true clean trivial
  cases hs with
  | connectSucceeds =>
    refine iff_of_true ?_ trivial
    rintro ⟨callback,mem⟩
    rcases List.mem_append.mp mem with old | new
    · exact clean ⟨callback,old⟩
    · cases List.mem_singleton.mp new
  | connectFails | attachListener | lose => exact same rfl
  | retry => exact same (doConnect_log _)
  | @operationComplete c st remoteAddress hs hl known =>
    cases remoteAddress with
    | true =>
      refine iff_of_true ?_ rfl
      rw [operationComplete_known]
      rintro ⟨callback,mem⟩
      rcases List.mem_append.mp mem with old | new
      · exact clean ⟨callback,old⟩
      · cases List.mem_singleton.mp new
    | false =>
      refine iff_of_false ?_ nofun
      rw [operationComplete_unknown]
      exact not_not_intro (nullSeen_emit _ _)
  | @channelInactive c st hs inactive first =>
    rcases h.stage.of_unfinished hs (by rintro rfl; cases first) with opened | ⟨running,held⟩
    · refine iff_of_false ?_ ?_
      · rw [channelInactive_of_free (s := s.setState c _) opened.free]
        exact not_not_intro (nullSeen_emit _ _)
      · rintro ⟨st',hs',ran⟩
        rw [hs] at hs'
        cases hs'
        exact opened.listener ran
    · rcases held with holds | ⟨_,null⟩
      · rw [channelInactive_of_holds (s := s.setState c _) holds]
        refine iff_of_true ((same ?_).mpr trivial) ⟨st,hs,running.listener⟩
        rw [doConnect_log]
        rfl
      · exact absurd null clean

/-- Without a null dereference nothing ends outside the registered stage. -/
theorem healing_of_clean (h : Inv s) (clean : ¬NullSeen s) : Healing s := by
  refine ⟨fun callback mem => clean ⟨callback,mem⟩,?_⟩
  intro quiescent
  cases h.stage with
  | trying h =>
    have one := h.one
    rw [quiescent.connecting,quiescent.retries] at one
    cases one
  | opened key st h => exact absurd (quiescent.delivered key st h.channel).1 h.listener
  | registered key st h holds =>
    have active : st.active = true := by
      rcases (quiescent.delivered key st h.channel).2 with active | notified
      · exact active
      · rw [h.notified] at notified
        cases notified
    obtain ⟨c,hc,rfl⟩ := Option.map_eq_some_iff.mp h.current
    refine ⟨⟨c,hc,⟨st,h.channel,active⟩,holds.slot,(holds.keys _ _).mpr ⟨rfl,rfl⟩⟩,?_⟩
    intro k hk
    obtain ⟨rfl,_⟩ := (holds.keys _ _).mp hk
    exact ⟨st,h.channel,active⟩
  | forgotten key st _ _ null => exact absurd null clean
  | dead key h => exact absurd h.null clean

end Stages

/-! ### Healing runs -/

section Runs
variable (host : Utf8String) (port : BitVec 32)

/-- Every state of the run is healing. -/
def Heals (as : List Action) : Prop :=
  Throughout (machine host port) Healing (start host port) as

variable {host port}

/-- The connection heals throughout a run exactly if the callbacks of every channel come
    in order. -/
theorem heals_iff {as : List Action} {s : State}
    (h : Run (machine host port) (start host port) as s) :
    Heals host port as ↔ Guarded (machine host port) InOrder (start host port) as := by
  refine h.always_iff_guarded (D := fun _ _ => True) (J := fun s => Inv s ∧ ¬NullSeen s)
    ?_ ?_ ?_ (Guarded.of_forall (fun _ _ _ => trivial) _) ⟨inv_start host port,?_⟩
  · rintro s ⟨inv,clean⟩
    exact healing_of_clean inv clean
  · rintro s a t ⟨inv,clean⟩ _ order hs
    exact ⟨inv_step inv (step_cases hs),(null_step_iff inv clean (step_cases hs)).mpr order⟩
  · rintro s a t ⟨inv,clean⟩ _ hs healing
    refine (null_step_iff inv clean (step_cases hs)).mp ?_
    rintro ⟨callback,mem⟩
    exact healing.noNull callback mem
  · rintro ⟨callback,mem⟩
    cases mem

theorem inv_run {as : List Action} {s : State}
    (h : Run (machine host port) (start host port) as s) : Inv s :=
  h.invariant (I := Inv) (fun _ _ _ inv hs => inv_step inv (step_cases hs)) (inv_start host port)

end Runs

/-! ### A lost connection -/

def discoverHost : Utf8String := ⟨"discover",by decide⟩

/-- The first channel is lost after its listener has run. -/
def lostThenReopened : List Action :=
  [.connectSucceeds channelA,.attachListener channelA,.operationComplete channelA true,
    .lose channelA,.channelInactive channelA,.connectSucceeds channelB,.attachListener channelB,
    .operationComplete channelB true]

/-- The second channel is registered in place of the first one, which is filed nowhere. -/
theorem lost_connection_heals : ∃ s,
    Run (machine discoverHost 9000) (start discoverHost 9000) lostThenReopened s ∧
      Heals discoverHost 9000 lostThenReopened ∧
      s.log = [.connection (getChannelKey channelA),.register (getChannelKey channelA),
        .connection (getChannelKey channelB),.register (getChannelKey channelB)] ∧
      s.manger.rpcChannelClientMap (getChannelKey channelA) = none ∧
      s.manger.rpcChannelClientMap (getChannelKey channelB) = some discoverClient ∧
      s.manger.client (some .discover) 0 = some discoverClient := by
  have run : Run (machine discoverHost 9000) (start discoverHost 9000) lostThenReopened _ :=
    run_endOf (by decide)
  refine ⟨_,run,(heals_iff run).mpr ?_,rfl,rfl,rfl,rfl⟩
  exact .cons rfl trivial (.cons rfl trivial (.cons rfl rfl (.cons rfl trivial
    (.cons rfl ⟨_,rfl,rfl⟩ (.cons rfl trivial (.cons rfl trivial (.cons rfl rfl trivial)))))))

/-- The peer drops the connection before the listener has run. -/
def droppedAtOnce : List Action :=
  [.connectSucceeds channelA,.lose channelA,.channelInactive channelA,.attachListener channelA,
    .operationComplete channelA true]

def droppedEnd : State :=
  endOf (machine discoverHost 9000) (start discoverHost 9000) droppedAtOnce (by decide)

theorem droppedAtOnce_run :
    Run (machine discoverHost 9000) (start discoverHost 9000) droppedAtOnce droppedEnd := run_endOf _

theorem droppedEnd_filed :
    droppedEnd.manger.rpcChannelClientMap (getChannelKey channelA) = some discoverClient := rfl

theorem droppedEnd_channelA : droppedEnd.channels (getChannelKey channelA) = some finished := rfl

/-- It is at the last stage, since the maps hold a channel that is finished. -/
theorem droppedEnd_done : ∀ k st, droppedEnd.channels k = some st → st = finished := by
  have filed := droppedEnd_filed
  cases (inv_run droppedAtOnce_run).stage with
  | trying h => cases h.one
  | opened key st h =>
    rw [h.free] at filed
    cases filed
  | registered key st h holds =>
    obtain ⟨rfl,_⟩ := (holds.keys _ _).mp filed
    have same := h.channel.symm.trans droppedEnd_channelA
    have notified := h.notified
    cases same
    cases notified
  | forgotten key st _ free _ =>
    rw [free] at filed
    cases filed
  | dead key h => exact h.done

/-- The callback dereferences null, and the listener then files a dead channel for good. -/
theorem dead_channel_registered :
    Run (machine discoverHost 9000) (start discoverHost 9000) droppedAtOnce droppedEnd ∧
      .nullDereference (.channelInactive (getChannelKey channelA)) ∈ droppedEnd.log ∧
      Quiescent droppedEnd ∧
      droppedEnd.manger.rpcChannelClientMap (getChannelKey channelA) = some discoverClient ∧
      ¬ActiveKey droppedEnd (getChannelKey channelA) ∧ ¬Registered droppedEnd := by
  have dead : ¬ActiveKey droppedEnd (getChannelKey channelA) := by
    rintro ⟨st,hs,active⟩
    rw [droppedEnd_done _ st hs] at active
    cases active
  refine ⟨droppedAtOnce_run,by decide,⟨rfl,rfl,?_⟩,droppedEnd_filed,dead,?_⟩
  · intro k st hs
    rw [droppedEnd_done k st hs]
    exact ⟨rfl,.inr rfl⟩
  · intro registered
    exact dead (registered.alive _ droppedEnd_filed)

end SeeU.DiscoverLifecycle
